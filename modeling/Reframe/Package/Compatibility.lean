import Mathlib.Data.Prod.Lex
import Mathlib.Data.String.Basic
import Reframe.Lib.SortedMap
import Reframe.Package.CatalogData
import Reframe.Package.Descriptor

/-! Whether a revision of a Store's interface is additive: a comparison of descriptor sets and of
catalogs that lists every breaking change. -/
namespace Package
open SortedSet

inductive CompatibilityViolation where
  | messageRemoved (message : String)
  | messageMapEntryChanged (message : String) (previous candidate : Bool)
  | enumRemoved (enumeration : String)
  | serviceRemoved (service : String)
  | methodRemoved (service method : String)
  | capabilityRemoved (capabilityId : String)
  | capabilityKindChanged (capabilityId previous candidate : String)
  | capabilityContractTypeChanged (capabilityId role previous candidate : String)
  | capabilityMethodBindingChanged (capabilityId previous candidate : String)
  | resourceSubscriptionsDisabled (capabilityId : String)
  | functionSideEffectChanged (capabilityId : String) (previous candidate : ℤ)
  | functionIdempotencyChanged (capabilityId : String) (previous candidate : ℤ)
  | fieldRemovedWithoutReservation (message field : String) (number : ℤ)
      (numberReserved nameReserved : Bool)
  | fieldNameReservationRemoved (message name : String)
  | fieldNumberReservationRemoved (message : String) (start stop : ℤ)
  | fieldNumberChanged (message field : String) (previous candidate : ℤ)
  | fieldNameChanged (message : String) (number : ℤ) (previous candidate : String)
  | fieldTypeChanged (message field previous candidate : String)
  | fieldCardinalityChanged (message field previous candidate : String)
  | fieldOneofChanged (message field : String) (previous candidate : Option String)
  | fieldPresenceChanged (message field : String) (previous candidate : Bool)
  | fieldDefaultChanged (message field : String) (previous candidate : Option String)
  | requiredFieldAdded (message field : String) (number : ℤ)
  | enumValueRemovedWithoutReservation (enumeration value : String) (number : ℤ)
      (numberReserved nameReserved : Bool)
  | enumNameReservationRemoved (enumeration name : String)
  | enumNumberReservationRemoved (enumeration : String) (start stop : ℤ)
  | enumValueNumberChanged (enumeration value : String) (previous candidate : ℤ)
  | rpcInputChanged (service method previous candidate : String)
  | rpcOutputChanged (service method previous candidate : String)
  | rpcClientStreamingChanged (service method : String) (previous candidate : Bool)
  | rpcServerStreamingChanged (service method : String) (previous candidate : Bool)
  deriving DecidableEq, Repr

/-- One violation where the check fails. -/
def demand (check : Prop) [Decidable check] (violation : CompatibilityViolation) :
    List CompatibilityViolation :=
  if check then [] else [violation]

/-- An absent name comes before every other. -/
def nameKey (name : Option String) : WithBot String := name

/-! Reservations. -/

/-- The sweep of `covers` over sorted half-open ranges. -/
def sweep (requiredEnd : ℤ) (coveredUntil : ℤ) : List (ℤ × ℤ) → Bool
  | [] => false
  | (start, stop) :: ranges =>
    if stop ≤ coveredUntil then sweep requiredEnd coveredUntil ranges
    else if coveredUntil < start then false
    else if requiredEnd ≤ stop then true
    else sweep requiredEnd stop ranges

def covers (ranges : List (ℤ × ℤ)) (requiredStart requiredEnd : ℤ) : Bool :=
  if requiredEnd ≤ requiredStart then true
  else sweep requiredEnd requiredStart (sortByKey toLex ranges)

/-- Names that are no longer reserved, in order. -/
def unreservedNames (previous candidate : List String) : List String :=
  toSorted (previous.toFinset \ candidate.toFinset)

def ReservedRange.bounds (range : ReservedRange) : ℤ × ℤ :=
  (range.start.getD 0, range.end.getD 0)

/-- Whether a field number is in a range: its end is not. -/
def ReservedRange.contains (range : ReservedRange) (number : ℤ) : Bool :=
  range.start.getD 0 ≤ number && number < range.end.getD 0

/-- The half-open range of an enum's reserved numbers. -/
def EnumReservedRange.bounds (range : EnumReservedRange) : ℤ × ℤ :=
  (range.start.getD 0, range.end.getD 0 + 1)

def EnumReservedRange.contains (range : EnumReservedRange) (number : ℤ) : Bool :=
  range.start.getD 0 ≤ number && number ≤ range.end.getD 0

/-! The shape of a field. -/

/-- The error text of `prost`'s conversion from a number to an enum. -/
def unknownEnumValue (value : ℤ) : String :=
  "unknown(unknown enumeration value " ++ toString value ++ ")"

def labelNames : List (ℤ × String) := [(1, "optional"), (2, "required"), (3, "repeated")]

def labelRequired : ℤ := 2

def typeNames : List (ℤ × String) :=
  [(1, "double"), (2, "float"), (3, "int64"), (4, "uint64"), (5, "int32"), (6, "fixed64"),
    (7, "fixed32"), (8, "bool"), (9, "string"), (10, "group"), (11, "message"), (12, "bytes"),
    (13, "uint32"), (14, "enum"), (15, "sfixed32"), (16, "sfixed64"), (17, "sint32"),
    (18, "sint64")]

namespace FieldDescriptorProto

def fieldName (field : FieldDescriptorProto) : String := field.name.getD ""

def fieldNumber (field : FieldDescriptorProto) : ℤ := field.number.getD 0

def cardinality (field : FieldDescriptorProto) : String :=
  let label := field.label.getD 1
  (labelNames.lookup label).getD (unknownEnumValue label)

def fieldType (field : FieldDescriptorProto) : String :=
  let kind := (typeNames.lookup (field.type.getD 0)).getD (unknownEnumValue (field.type.getD 0))
  match field.typeName.filter (· ≠ "") with
  | some name => kind ++ " " ++ name
  | none => kind

/-- `usize::try_from` refuses a negative index. -/
def oneofName (message : DescriptorProto) (field : FieldDescriptorProto) : Option String :=
  field.oneofIndex.bind fun index =>
    if index < 0 then none else message.oneofDecl[index.toNat]?.bind (·.name)

end FieldDescriptorProto

open FieldDescriptorProto CompatibilityViolation

def compareShape (message : String) (previousMessage candidateMessage : DescriptorProto)
    (previous candidate : FieldDescriptorProto) : List CompatibilityViolation :=
  let field := previous.fieldName
  demand (previous.fieldType = candidate.fieldType)
      (fieldTypeChanged message field previous.fieldType candidate.fieldType) ++
    demand (previous.cardinality = candidate.cardinality)
      (fieldCardinalityChanged message field previous.cardinality candidate.cardinality) ++
    demand (previous.oneofName previousMessage = candidate.oneofName candidateMessage)
      (fieldOneofChanged message field (previous.oneofName previousMessage)
        (candidate.oneofName candidateMessage)) ++
    demand (previous.proto3Optional.getD false = candidate.proto3Optional.getD false)
      (fieldPresenceChanged message field (previous.proto3Optional.getD false)
        (candidate.proto3Optional.getD false)) ++
    demand (previous.defaultValue = candidate.defaultValue)
      (fieldDefaultChanged message field previous.defaultValue candidate.defaultValue)

/-! Fields. -/

structure CandidateFields where
  message : DescriptorProto
  byNumber : FiniteMap ℤ FieldDescriptorProto
  byName : FiniteMap String FieldDescriptorProto

def CandidateFields.new (message : DescriptorProto) : CandidateFields where
  message
  byNumber := .ofList (message.field.map fun field => (field.fieldNumber, field))
  byName := .ofList (message.field.filterMap fun field => field.name.map fun name => (name, field))

def sortFields (fields : List FieldDescriptorProto) : List FieldDescriptorProto :=
  sortByKey (fun field => toLex (field.fieldNumber, nameKey field.name)) fields

def checkRemovedField (message field : String) (number : ℤ) (candidate : DescriptorProto) :
    List CompatibilityViolation :=
  let numberReserved := candidate.reservedRange.any (·.contains number)
  let nameReserved := decide (field ∈ candidate.reservedName)
  demand (numberReserved = true ∧ nameReserved = true)
    (fieldRemovedWithoutReservation message field number numberReserved nameReserved)

def compareIdentity (message : String) (previous : FieldDescriptorProto)
    (sameName sameNumber : Option FieldDescriptorProto) : List CompatibilityViolation :=
  (match sameName with
    | some candidate =>
      demand (candidate.number = previous.number)
        (fieldNumberChanged message previous.fieldName previous.fieldNumber candidate.fieldNumber)
    | none => []) ++
  match sameNumber with
    | some candidate =>
      demand (candidate.name = previous.name)
        (fieldNameChanged message previous.fieldNumber previous.fieldName candidate.fieldName)
    | none => []

def compareField (message : String) (previousMessage : DescriptorProto)
    (previous : FieldDescriptorProto) (candidateFields : CandidateFields) :
    List CompatibilityViolation :=
  let sameName := candidateFields.byName.get? previous.fieldName
  let sameNumber := candidateFields.byNumber.get? previous.fieldNumber
  match sameName.or sameNumber with
  | none => checkRemovedField message previous.fieldName previous.fieldNumber candidateFields.message
  | some candidate =>
    compareIdentity message previous sameName sameNumber ++
      compareShape message previousMessage candidateFields.message previous candidate

def compareReservations (message : String) (previous candidate : DescriptorProto) :
    List CompatibilityViolation :=
  let candidateRanges := candidate.reservedRange.map ReservedRange.bounds
  ((sortByKey (fun range => toLex range.bounds) previous.reservedRange).flatMap fun range =>
    demand (covers candidateRanges range.bounds.1 range.bounds.2 = true)
      (fieldNumberReservationRemoved message range.bounds.1 range.bounds.2)) ++
  (unreservedNames previous.reservedName candidate.reservedName).map
    (fieldNameReservationRemoved message)

def compareFields (message : String) (previous candidate : DescriptorProto) :
    List CompatibilityViolation :=
  let candidateFields := CandidateFields.new candidate
  let previousNumbers := previous.field.map FieldDescriptorProto.fieldNumber
  let previousNames := previous.field.filterMap FieldDescriptorProto.name
  ((sortFields previous.field).flatMap fun field =>
    compareField message previous field candidateFields) ++
  ((sortFields candidate.field).flatMap fun field =>
    demand (field.fieldNumber ∈ previousNumbers ∨ field.fieldName ∈ previousNames ∨
        field.label ≠ some labelRequired)
      (requiredFieldAdded message field.fieldName field.fieldNumber)) ++
  compareReservations message previous candidate

/-! Messages, enums and services. -/

def DescriptorProto.mapEntry (message : DescriptorProto) : Bool :=
  (message.options.bind MessageOptions.mapEntry).getD false

def compareMessages (previous candidate : SchemaIndex) : List CompatibilityViolation :=
  previous.messages.inOrder.flatMap fun (name, previousMessage) =>
    match candidate.messages.get? name with
    | none => [messageRemoved name]
    | some candidateMessage =>
      demand (previousMessage.mapEntry = candidateMessage.mapEntry)
          (messageMapEntryChanged name previousMessage.mapEntry candidateMessage.mapEntry) ++
        compareFields name previousMessage candidateMessage

namespace EnumValueDescriptorProto

def valueName (value : EnumValueDescriptorProto) : String := value.name.getD ""

def valueNumber (value : EnumValueDescriptorProto) : ℤ := value.number.getD 0

end EnumValueDescriptorProto

def checkRemovedValue (enumeration value : String) (number : ℤ) (candidate : EnumDescriptorProto) :
    List CompatibilityViolation :=
  let numberReserved := candidate.reservedRange.any (·.contains number)
  let nameReserved := decide (value ∈ candidate.reservedName)
  demand (numberReserved = true ∧ nameReserved = true)
    (enumValueRemovedWithoutReservation enumeration value number numberReserved nameReserved)

def compareEnumReservations (enumeration : String) (previous candidate : EnumDescriptorProto) :
    List CompatibilityViolation :=
  let candidateRanges := candidate.reservedRange.map EnumReservedRange.bounds
  ((sortByKey (fun range => toLex (range.start.getD 0, range.end.getD 0))
      previous.reservedRange).flatMap fun range =>
    demand (covers candidateRanges range.bounds.1 range.bounds.2 = true)
      (enumNumberReservationRemoved enumeration (range.start.getD 0) (range.end.getD 0))) ++
  (unreservedNames previous.reservedName candidate.reservedName).map
    (enumNameReservationRemoved enumeration)

def compareEnum (enumeration : String) (previous candidate : EnumDescriptorProto) :
    List CompatibilityViolation :=
  let candidateValues : FiniteMap String EnumValueDescriptorProto :=
    .ofList (candidate.value.filterMap fun value => value.name.map fun name => (name, value))
  ((sortByKey (fun value => toLex (value.valueNumber, nameKey value.name))
      previous.value).flatMap fun value =>
    match candidateValues.get? value.valueName with
    | none => checkRemovedValue enumeration value.valueName value.valueNumber candidate
    | some candidateValue =>
      demand (value.valueNumber = candidateValue.valueNumber)
        (enumValueNumberChanged enumeration value.valueName value.valueNumber
          candidateValue.valueNumber)) ++
  compareEnumReservations enumeration previous candidate

def compareEnums (previous candidate : SchemaIndex) : List CompatibilityViolation :=
  previous.enums.inOrder.flatMap fun (name, previousEnum) =>
    match candidate.enums.get? name with
    | none => [enumRemoved name]
    | some candidateEnum => compareEnum name previousEnum candidateEnum

def compareMethod (service method : String) (previous candidate : MethodDescriptorProto) :
    List CompatibilityViolation :=
  demand (previous.inputType = candidate.inputType)
      (rpcInputChanged service method (previous.inputType.getD "") (candidate.inputType.getD "")) ++
    demand (previous.outputType = candidate.outputType)
      (rpcOutputChanged service method (previous.outputType.getD "")
        (candidate.outputType.getD "")) ++
    demand (previous.clientStreaming.getD false = candidate.clientStreaming.getD false)
      (rpcClientStreamingChanged service method (previous.clientStreaming.getD false)
        (candidate.clientStreaming.getD false)) ++
    demand (previous.serverStreaming.getD false = candidate.serverStreaming.getD false)
      (rpcServerStreamingChanged service method (previous.serverStreaming.getD false)
        (candidate.serverStreaming.getD false))

def compareService (service : String) (previous candidate : ServiceDescriptorProto) :
    List CompatibilityViolation :=
  let candidateMethods : FiniteMap String MethodDescriptorProto :=
    .ofList (candidate.method.filterMap fun method => method.name.map fun name => (name, method))
  (sortByKey (fun method => nameKey method.name) previous.method).flatMap fun method =>
    match candidateMethods.get? (method.name.getD "") with
    | none => [methodRemoved service (method.name.getD "")]
    | some candidateMethod => compareMethod service (method.name.getD "") method candidateMethod

def compareServices (previous candidate : SchemaIndex) : List CompatibilityViolation :=
  previous.services.inOrder.flatMap fun (name, previousService) =>
    match candidate.services.get? name with
    | none => [serviceRemoved name]
    | some candidateService => compareService name previousService candidateService

def compareDescriptorSets (previous candidate : FileDescriptorSet) :
    List CompatibilityViolation :=
  let previous := SchemaIndex.new previous
  let candidate := SchemaIndex.new candidate
  compareMessages previous candidate ++ compareEnums previous candidate ++
    compareServices previous candidate

/-! Catalogs. -/

def compareType (capabilityId role previous candidate : String) : List CompatibilityViolation :=
  demand (previous = candidate) (capabilityContractTypeChanged capabilityId role previous candidate)

def bindingName : Option MethodBinding → String
  | none => "<unbound>"
  | some binding => binding.service ++ "." ++ binding.method

def compareBinding (capabilityId : String) (previous candidate : Option MethodBinding) :
    List CompatibilityViolation :=
  demand (previous = candidate)
    (capabilityMethodBindingChanged capabilityId (bindingName previous) (bindingName candidate))

def compareResource (capabilityId : String) (previous candidate : Resource) :
    List CompatibilityViolation :=
  compareType capabilityId "selector" previous.selectorType candidate.selectorType ++
    compareType capabilityId "value" previous.valueType candidate.valueType ++
    compareBinding capabilityId previous.method candidate.method ++
    demand (previous.supportsSubscriptions = true → candidate.supportsSubscriptions = true)
      (resourceSubscriptionsDisabled capabilityId)

def compareFunction (capabilityId : String) (previous candidate : Function) :
    List CompatibilityViolation :=
  compareType capabilityId "input" previous.inputType candidate.inputType ++
    compareType capabilityId "output" previous.outputType candidate.outputType ++
    compareBinding capabilityId previous.method candidate.method ++
    demand (previous.sideEffect = candidate.sideEffect)
      (functionSideEffectChanged capabilityId previous.sideEffect candidate.sideEffect) ++
    demand (previous.idempotency = candidate.idempotency)
      (functionIdempotencyChanged capabilityId previous.idempotency candidate.idempotency)

def CatalogEntry.kindName (entry : CatalogEntry) : String :=
  match entry.kind with
  | some .topic => "topic"
  | some (.resource _) => "resource"
  | some (.function _) => "function"
  | some (.workflow _) => "workflow"
  | none => "unspecified"

def compareEntry (previous candidate : CatalogEntry) : List CompatibilityViolation :=
  if previous.kindName ≠ candidate.kindName then
    [capabilityKindChanged previous.id previous.kindName candidate.kindName]
  else
    match previous.kind, candidate.kind with
    | some (.resource previousResource), some (.resource candidateResource) =>
      compareResource previous.id previousResource candidateResource
    | some (.function previousFunction), some (.function candidateFunction) =>
      compareFunction previous.id previousFunction candidateFunction
    | _, _ => []

def compareCatalog (previous candidate : Catalog) : List CompatibilityViolation :=
  let candidateEntries : FiniteMap String CatalogEntry :=
    .ofList (candidate.entries.map fun entry => (entry.id, entry))
  (sortByKey CatalogEntry.id previous.entries).flatMap fun previousEntry =>
    match candidateEntries.get? previousEntry.id with
    | none => [capabilityRemoved previousEntry.id]
    | some candidateEntry => compareEntry previousEntry candidateEntry

/-! Packages. -/

structure ProtocolVersion where
  major : ℕ
  minor : ℕ
  deriving DecidableEq, Repr

structure VerifiedPackage where
  storeId : String
  interfaceVersion : InterfaceVersion
  minimumProtocolVersion : ProtocolVersion
  catalog : Catalog
  descriptorSet : FileDescriptorSet

inductive CompatibilityError where
  | storeIdMismatch (previous candidate : String)
  | interfaceMajorMismatch (previous candidate : ℕ)
  | interfaceMinorRegression (previous candidate : ℕ)
  | minimumProtocolMajorChanged (previous candidate : ℕ)
  | minimumProtocolMinorIncreased (previous candidate : ℕ)
  | breakingChanges (violations : List CompatibilityViolation)
  deriving DecidableEq, Repr

def checkScope (previous candidate : VerifiedPackage) : Except CompatibilityError Unit :=
  let previousInterface := previous.interfaceVersion
  let candidateInterface := candidate.interfaceVersion
  let previousProtocol := previous.minimumProtocolVersion
  let candidateProtocol := candidate.minimumProtocolVersion
  if previous.storeId ≠ candidate.storeId then
    .error (.storeIdMismatch previous.storeId candidate.storeId)
  else if previousInterface.major ≠ candidateInterface.major then
    .error (.interfaceMajorMismatch previousInterface.major candidateInterface.major)
  else if candidateInterface.minor < previousInterface.minor then
    .error (.interfaceMinorRegression previousInterface.minor candidateInterface.minor)
  else if previousProtocol.major ≠ candidateProtocol.major then
    .error (.minimumProtocolMajorChanged previousProtocol.major candidateProtocol.major)
  else if previousProtocol.minor < candidateProtocol.minor then
    .error (.minimumProtocolMinorIncreased previousProtocol.minor candidateProtocol.minor)
  else .ok ()

def checkPackageCompatibility (previous candidate : VerifiedPackage) :
    Except CompatibilityError Unit := do
  checkScope previous candidate
  let violations := compareCatalog previous.catalog candidate.catalog ++
    compareDescriptorSets previous.descriptorSet candidate.descriptorSet
  if violations = [] then .ok () else .error (.breakingChanges violations)

end Package
