import Mathlib.Data.String.Basic
import Reframe.Lib.Run
import Reframe.Lib.SortedMap
import Reframe.Lib.WireMerge
import Reframe.Package.CatalogData

/-! What a catalog must satisfy to be packaged: bounds of its texts and lists, relations between its
entries, and agreement with the descriptors and the annotations of the schema. -/
namespace Package
open Runtime (AnyValue isWhiteSpace)
open WireFormat (Schema Record)
open Run (Stop)

inductive CatalogError where
  | unsupportedFormat (found : ℕ)
  | storeIdMismatch
  | interfaceVersionMismatch
  | invalidMetadata (field : String)
  | invalidEntry (entryId field : String)
  | metadataLimit (entryId field : String) (limit : ℕ)
  | duplicateEntry (entryId : String)
  | missingKind (entryId : String)
  | missingRelation (entryId relation targetId : String)
  | parentNotTopic (entryId parentId : String)
  | parentCycle (entryId : String)
  | duplicateRelation (entryId relation targetId : String)
  | selfRelation (entryId : String)
  | invalidTopLevelTopic (entryId : String)
  | missingTopLevelTopic (entryId : String)
  | missingGuidance (entryId : String)
  | invalidMethodBinding (entryId : String)
  | serviceNotFound (entryId service : String)
  | methodNotFound (entryId service method : String)
  | duplicateMethodBinding (service method : String)
  | methodTypeMismatch (entryId direction declared actual : String)
  | incompleteFunctionMetadata (entryId : String)
  | streamingMethodBinding (entryId service method : String)
  | emptyWorkflow (entryId : String)
  | missingExampleValue (entryId : String) (index : ℕ) (direction : String)
  | exampleTypeMismatch (entryId : String) (index : ℕ) (direction expected actual : String)
  | unknownExampleType (entryId : String) (index : ℕ) (direction typeName : String)
  | invalidExamplePayload (entryId : String) (index : ℕ) (direction : String)
  | missingAnnotatedCapability (entryId : String)
  | unannotatedCapability (entryId : String)
  | annotationDrift (entryId field : String)
  | annotation (reason : String)
  deriving DecidableEq, Repr

abbrev Check := Except (Stop CatalogError) Unit

def refuse (error : CatalogError) : Check := .error (.error error)

/-- An error unless the condition holds. -/
def ensure (condition : Prop) [Decidable condition] (error : CatalogError) : Check :=
  if condition then .ok () else refuse error

def byteLength (text : String) : ℕ := JsonText.byteLength text.toList

/-- `trim().is_empty()`. -/
def isBlank (text : String) : Bool := text.toList.all isWhiteSpace

/-! Texts and lists. -/

def catalogFormatVersion : ℕ := 1
def maxEntries : ℕ := 4096
def maxTopics : ℕ := 32
def maxIntents : ℕ := 32
def maxRelated : ℕ := 32
def maxErrors : ℕ := 16
def maxExamples : ℕ := 8
def maxAnyBytes : ℕ := 64 * 1024

def boundedText (value : String) (maxBytes : ℕ) : Bool :=
  !isBlank value && byteLength value ≤ maxBytes

/-- All bytes of the id are ASCII, so that its characters are its bytes. -/
def validEntryId (value : String) : Bool :=
  value ≠ "" && byteLength value ≤ 128 && value.toList.head?.any Char.isAlphanum &&
    value.toList.all fun c => c.isAlphanum || c ∈ ['.', '_', '-', ':']

def boundedList (entry : CatalogEntry) (field : String) (actual limit : ℕ) : Check :=
  ensure (actual ≤ limit) (.metadataLimit entry.id field limit)

def uniqueBoundedText (entry : CatalogEntry) (field : String) (values : List String)
    (maxBytes : ℕ) : Check :=
  ensure (values.all (boundedText · maxBytes) = true ∧ values.Nodup) (.invalidEntry entry.id field)

def validateStoreCard (catalog : Catalog) : Check :=
  ensure (boundedText catalog.displayName 120 = true ∧ catalog.overviewSentences.length = 2 ∧
      catalog.overviewSentences.all (boundedText · 512) = true ∧ catalog.entries ≠ [] ∧
      catalog.entries.length ≤ maxEntries ∧ catalog.topLevelTopicIds.length ≤ maxTopics)
    (.invalidMetadata "store card or entry bounds")

def validateHeader (catalog : Catalog) (manifestStoreId : String)
    (manifestInterface : InterfaceVersion) : Check := do
  ensure (catalog.formatVersion = catalogFormatVersion) (.unsupportedFormat catalog.formatVersion)
  ensure (catalog.storeId = manifestStoreId) .storeIdMismatch
  ensure (catalog.semanticInterfaceVersion = some manifestInterface) .interfaceVersionMismatch
  validateStoreCard catalog

def Example.anyFits (value : Option AnyValue) : Bool :=
  value.all fun value => byteLength value.typeUrl ≤ 512 && value.value.length ≤ maxAnyBytes

def validateGuidance (entry : CatalogEntry) (guidance : Guidance) : Check := do
  ensure ((isBlank guidance.whenToUse = false ∨ isBlank guidance.whenNotToUse = false) ∧
      byteLength guidance.whenToUse ≤ 2048 ∧ byteLength guidance.whenNotToUse ≤ 2048)
    (.missingGuidance entry.id)
  boundedList entry "guidance.errors" guidance.errors.length maxErrors
  boundedList entry "guidance.examples" guidance.examples.length maxExamples
  ensure ((guidance.errors.all fun error => boundedText error.code 64 &&
        boundedText error.summary 512 && byteLength error.recovery ≤ 1024) = true ∧
      (guidance.errors.map ErrorCase.code).Nodup)
    (.invalidEntry entry.id "guidance.errors")
  ensure ((guidance.examples.all fun sample => boundedText sample.title 120 &&
      byteLength sample.description ≤ 1024 && Example.anyFits sample.input &&
      Example.anyFits sample.output) = true)
    (.invalidEntry entry.id "guidance.examples")

def CatalogEntry.isTopic (entry : CatalogEntry) : Bool := entry.kind = some .topic

def validateEntry (entry : CatalogEntry) : Check := do
  ensure (validEntryId entry.id = true) (.invalidEntry entry.id "id")
  ensure (boundedText entry.title 120 = true ∧ boundedText entry.summary 512 = true)
    (.invalidEntry entry.id "title or summary")
  ensure (entry.kind.isSome = true) (.missingKind entry.id)
  boundedList entry "intent_phrases" entry.intentPhrases.length maxIntents
  boundedList entry "related_entry_ids" entry.relatedEntryIds.length maxRelated
  uniqueBoundedText entry "intent_phrases" entry.intentPhrases 160
  ensure (entry.relatedEntryIds.all validEntryId = true) (.invalidEntry entry.id "related_entry_ids")
  if entry.isTopic then .ok ()
  else
    match entry.guidance with
    | none => refuse (.missingGuidance entry.id)
    | some guidance => validateGuidance entry guidance

/-! Relations. A walk over a hash map visits the entries in some order; only which error comes first
depends on it. -/

abbrev EntryMap := FiniteMap String CatalogEntry

def EntryMap.values (entries : EntryMap) : List CatalogEntry := entries.toList.map Prod.snd

def validateTopLevelTopic (entries : EntryMap) (declared : List String) (id : String) :
    Except (Stop CatalogError) (List String) :=
  match entries.get? id with
  | none => .error (.error (.invalidTopLevelTopic id))
  | some entry =>
    if entry.parentTopicId ≠ "" ∨ entry.isTopic = false ∨ id ∈ declared then
      .error (.error (.invalidTopLevelTopic id))
    else .ok (id :: declared)

def validateTopLevelTopics (catalog : Catalog) (entries : EntryMap) : Check := do
  let declared ← catalog.topLevelTopicIds.foldlM (validateTopLevelTopic entries) []
  entries.values.forM fun entry =>
    ensure (entry.isTopic = true → entry.parentTopicId = "" → entry.id ∈ declared)
      (.missingTopLevelTopic entry.id)

def validateParentLink (entries : EntryMap) (entry : CatalogEntry) : Check :=
  if entry.parentTopicId = "" then
    ensure (entry.isTopic = true) (.invalidEntry entry.id "parent_topic_id")
  else
    match entries.get? entry.parentTopicId with
    | none => refuse (.missingRelation entry.id "parent" entry.parentTopicId)
    | some parent => ensure (parent.isTopic = true) (.parentNotTopic entry.id parent.id)

def validateRelated (entries : EntryMap) (entry : CatalogEntry) (related : List String)
    (target : String) : Except (Stop CatalogError) (List String) := do
  ensure (target ≠ entry.id) (.selfRelation entry.id)
  ensure (target ∉ related) (.duplicateRelation entry.id "related entry" target)
  ensure (entries.contains target = true) (.missingRelation entry.id "related entry" target)
  .ok (target :: related)

def validateLinks (entries : EntryMap) : Check :=
  entries.values.forM fun entry => do
    validateParentLink entries entry
    let _ ← entry.relatedEntryIds.foldlM (validateRelated entries entry) []
    .ok ()

/-- The walk from an entry up its parents. Indexing the map with a missing id panics. -/
def walkParents (entries : EntryMap) : ℕ → List String → CatalogEntry → Check
  | 0, _, _ => .error .exhausted
  | fuel + 1, seen, current =>
    if current.parentTopicId = "" then .ok ()
    else if current.id ∈ seen then refuse (.parentCycle current.id)
    else
      match entries.get? current.parentTopicId with
      | none => .error .panic
      | some parent => walkParents entries fuel (current.id :: seen) parent

/-- Enough steps for a walk that sees no entry twice. -/
def cycleFuel (entries : EntryMap) : ℕ := entries.size + 2

def validateParentCycles (fuel : ℕ) (entries : EntryMap) : Check :=
  entries.values.forM (walkParents entries fuel [])

def validateRelationships (catalog : Catalog) (entries : EntryMap) : Check := do
  validateTopLevelTopics catalog entries
  validateLinks entries
  validateParentCycles (cycleFuel entries) entries

/-! Descriptors. -/

structure MethodDescriptor (μ : Type) where
  name : String
  isClientStreaming : Bool
  isServerStreaming : Bool
  input : μ
  output : μ

/-- The descriptor pool of a schema, whose messages are named by `μ`: lookups, reflective decoding
(to the fields of a message, those that the schema does not know included, or to the reason of a
failure) and the capabilities that its annotations declare for a Store. -/
structure DescriptorPool (μ : Type) where
  schema : Schema μ
  getMessageByName : String → Option μ
  getServiceByName : String → Option (List (MethodDescriptor μ))
  decode : μ → List UInt8 → Except String (List Record)
  capabilities : String → Except CatalogError (Option (List CatalogEntry))

def maxWorkflowSteps : ℕ := 32
def maxTypeNameBytes : ℕ := 512
def canonicalTypeUrlPrefix : String := "type.googleapis.com/"

def trimStartDots (text : String) : String := String.ofList (text.toList.dropWhile (· = '.'))

/-- `rsplit('/').next()`: what follows the last slash, or all of a text without one. -/
def lastSegment (text : String) : String :=
  String.ofList (text.toList.reverse.takeWhile (· ≠ '/')).reverse

def validateWorkflowStep (entry : CatalogEntry) (entries : EntryMap) (step : WorkflowStep) :
    Check := do
  ensure (isBlank step.instruction = false ∧ byteLength step.instruction ≤ 1024 ∧
      byteLength step.condition ≤ 512 ∧ step.capabilityId ≠ entry.id)
    (.invalidEntry entry.id "workflow.steps")
  ensure (entries.contains step.capabilityId = true)
    (.missingRelation entry.id "workflow capability" step.capabilityId)

def validateWorkflow (entry : CatalogEntry) (workflow : Workflow) (entries : EntryMap) : Check := do
  ensure (workflow.steps ≠ []) (.emptyWorkflow entry.id)
  ensure (workflow.steps.length ≤ maxWorkflowSteps)
    (.metadataLimit entry.id "workflow.steps" maxWorkflowSteps)
  workflow.steps.forM (validateWorkflowStep entry entries)

section

variable {μ : Type} (pool : DescriptorPool μ)

/-- The bindings of the methods checked so far. -/
abbrev Bindings := List (String × String)

def validateMethod (entry : CatalogEntry) (binding : Option MethodBinding) (bindings : Bindings) :
    Except (Stop CatalogError) (MethodDescriptor μ × Bindings) :=
  match binding with
  | none => .error (.error (.invalidMethodBinding entry.id))
  | some binding => do
    let serviceName := trimStartDots binding.service
    ensure (serviceName ≠ "" ∧ binding.method ≠ "") (.invalidMethodBinding entry.id)
    match pool.getServiceByName serviceName with
    | none => .error (.error (.serviceNotFound entry.id binding.service))
    | some methods =>
      match methods.find? (·.name = binding.method) with
      | none => .error (.error (.methodNotFound entry.id binding.service binding.method))
      | some method => do
        ensure (method.isClientStreaming = false ∧ method.isServerStreaming = false)
          (.streamingMethodBinding entry.id binding.service binding.method)
        ensure ((serviceName, binding.method) ∉ bindings)
          (.duplicateMethodBinding binding.service binding.method)
        .ok (method, (serviceName, binding.method) :: bindings)

def declaredTypeFitsWire (declared canonical : String) : Bool :=
  byteLength declared ≤ maxTypeNameBytes &&
    byteLength canonicalTypeUrlPrefix + byteLength canonical ≤ Runtime.maxTypeUrlBytes

def validateDeclaredType (entry : CatalogEntry) (direction declared : String) (actual : μ) :
    Check := do
  let canonical := trimStartDots declared
  ensure (declaredTypeFitsWire declared canonical = true)
    (.invalidEntry entry.id "declared protobuf type name")
  ensure (canonical = pool.schema.fullName actual)
    (.methodTypeMismatch entry.id direction declared (pool.schema.fullName actual))

/-- The type of an example value: the expected one, or for a workflow the one its URL names. -/
def exampleDescriptor (entry : CatalogEntry) (index : ℕ) (direction typeName : String)
    (expected : Option μ) : Except (Stop CatalogError) μ :=
  match expected with
  | some expected =>
    if typeName = pool.schema.fullName expected then .ok expected
    else .error (.error (.exampleTypeMismatch entry.id index direction
      (pool.schema.fullName expected) typeName))
  | none =>
    match pool.getMessageByName typeName with
    | some descriptor => .ok descriptor
    | none => .error (.error (.unknownExampleType entry.id index direction typeName))

def validateExampleValue (entry : CatalogEntry) (index : ℕ) (direction : String)
    (value : Option AnyValue) (expected : Option μ) : Check :=
  match value with
  | none => refuse (.missingExampleValue entry.id index direction)
  | some value => do
    let descriptor ← exampleDescriptor pool entry index direction (lastSegment value.typeUrl) expected
    ensure ((pool.decode descriptor value.value).isOk = true)
      (.invalidExamplePayload entry.id index direction)

/-- Guidance was checked to be there. -/
def validateExamples (entry : CatalogEntry) (input output : Option μ) : Check :=
  match entry.guidance with
  | none => .error .panic
  | some guidance => guidance.examples.zipIdx.forM fun (sample, index) => do
    validateExampleValue pool entry index "input" sample.input input
    validateExampleValue pool entry index "output" sample.output output

/-- A resource or a function against the method it is bound to. -/
def validateCapability (entry : CatalogEntry) (binding : Option MethodBinding)
    (inputType outputType : String) (bindings : Bindings) : Except (Stop CatalogError) Bindings := do
  let (method, bindings) ← validateMethod pool entry binding bindings
  validateDeclaredType pool entry "input" inputType method.input
  validateDeclaredType pool entry "output" outputType method.output
  validateExamples pool entry (some method.input) (some method.output)
  .ok bindings

def validateDescriptor (entries : EntryMap) (bindings : Bindings) (entry : CatalogEntry) :
    Except (Stop CatalogError) Bindings :=
  match entry.kind with
  | none => .error .panic
  | some (.resource resource) =>
    validateCapability pool entry resource.method resource.selectorType resource.valueType bindings
  | some (.function function) => do
    ensure (function.sideEffect ≠ 0 ∧ function.idempotency ≠ 0) (.incompleteFunctionMetadata entry.id)
    validateCapability pool entry function.method function.inputType function.outputType bindings
  | some (.workflow workflow) => do
    validateWorkflow entry workflow entries
    validateExamples pool entry none none
    .ok bindings
  | some .topic => .ok bindings

def validateDescriptors (entries : EntryMap) : Check := do
  let _ ← entries.values.foldlM (validateDescriptor pool entries) []
  .ok ()

/-! Annotations. -/

def guidanceMatches : Option Guidance → Option Guidance → Bool
  | some expected, some actual =>
    expected.whenToUse = actual.whenToUse && expected.whenNotToUse = actual.whenNotToUse &&
      expected.errors = actual.errors
  | none, none => true
  | _, _ => false

def compareAnnotation (expected actual : CatalogEntry) : Check := do
  let drift (field : String) : CatalogError := .annotationDrift expected.id field
  ensure (expected.parentTopicId = actual.parentTopicId) (drift "parent_topic_id")
  ensure (expected.title = actual.title) (drift "title")
  ensure (expected.summary = actual.summary) (drift "summary")
  ensure (expected.intentPhrases = actual.intentPhrases) (drift "intent_phrases")
  ensure (expected.relatedEntryIds = actual.relatedEntryIds) (drift "related_entry_ids")
  ensure (guidanceMatches expected.guidance actual.guidance = true) (drift "guidance")
  match expected.kind, actual.kind with
  | some (.resource expectedResource), some (.resource actualResource) =>
    ensure (expectedResource = actualResource) (drift "resource")
  | some (.function expectedFunction), some (.function actualFunction) =>
    ensure (expectedFunction = actualFunction) (drift "function")
  | _, _ => refuse (drift "kind")

def CatalogEntry.isCapability (entry : CatalogEntry) : Bool :=
  match entry.kind with
  | some (.resource _) | some (.function _) => true
  | _ => false

def validateDrift (catalog : Catalog) (manifestStoreId : String) : Check :=
  match pool.capabilities manifestStoreId with
  | .error error => refuse error
  | .ok none => .ok ()
  | .ok (some expected) => do
    let expected : FiniteMap String CatalogEntry :=
      .ofList (expected.map fun entry => (entry.id, entry))
    let actual : FiniteMap String CatalogEntry :=
      .ofList (catalog.entries.map fun entry => (entry.id, entry))
    expected.inOrder.forM fun entry =>
      match actual.get? entry.1 with
      | none => refuse (.missingAnnotatedCapability entry.1)
      | some other => compareAnnotation entry.2 other
    (catalog.entries.filter CatalogEntry.isCapability).forM fun entry =>
      ensure (expected.contains entry.id = true) (.unannotatedCapability entry.id)

/-! Catalogs. -/

def insertEntry (entries : EntryMap) (entry : CatalogEntry) : Except (Stop CatalogError) EntryMap := do
  validateEntry entry
  ensure (entries.contains entry.id = false) (.duplicateEntry entry.id)
  .ok (entries.insert entry.id entry)

def entryMap (catalog : Catalog) : Except (Stop CatalogError) EntryMap := catalog.entries.foldlM insertEntry ∅

def validateEntries (catalog : Catalog) : Check := do
  let entries ← entryMap catalog
  validateRelationships catalog entries
  validateDescriptors pool entries

def validateCatalog (catalog : Catalog) (manifestStoreId : String)
    (manifestInterface : InterfaceVersion) : Check := do
  validateHeader catalog manifestStoreId manifestInterface
  validateEntries pool catalog
  validateDrift pool catalog manifestStoreId

end

end Package
