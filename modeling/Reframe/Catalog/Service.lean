import Reframe.Catalog.Cursor
import Reframe.Catalog.Index
import Reframe.Lib.Forest
import Reframe.Package.CatalogValidation

/-! The service over one catalog: its entries by id, the children of each topic in the order of
their ids, the hierarchy and the lexical index. -/
namespace StoreCatalog
open Forest (NodeRange Frame numberNodes)
open Package (Catalog CatalogEntry DescriptorPool)
open Run (Stop)

inductive CapabilityKind where
  | unspecified
  | topic
  | resource
  | function
  | workflow
  deriving DecidableEq, Repr

def CapabilityKind.toInt : CapabilityKind → ℤ
  | .unspecified => 0
  | .topic => 1
  | .resource => 2
  | .function => 3
  | .workflow => 4

def CapabilityKind.ofInt (value : ℤ) : Option CapabilityKind :=
  [.unspecified, .topic, .resource, .function, .workflow].find? fun kind => kind.toInt = value

abbrev Outcome := Except (Stop CatalogError)

def fail {α : Type} (error : CatalogError) : Outcome α := .error (.error error)

def entryKind (entry : CatalogEntry) : Outcome CapabilityKind :=
  match entry.kind with
  | some .topic => .ok .topic
  | some (.resource _) => .ok .resource
  | some (.function _) => .ok .function
  | some (.workflow _) => .ok .workflow
  | none => fail (.invalidCatalog "an entry has no capability kind")

/-- An entry with its position in the catalog. -/
def indexEntry (entries : FiniteMap String ℕ) (item : CatalogEntry × ℕ) :
    Outcome (FiniteMap String ℕ) :=
  if item.1.kind.isNone then fail (.invalidCatalog "an entry has no capability kind")
  else if entries.contains item.1.id then fail (.invalidCatalog "entry IDs are not unique")
  else .ok (entries.insert item.1.id item.2)

/-- Indexing the entries of the catalog out of range panics. -/
def entryAt (catalog : Catalog) (index : ℕ) : Outcome CatalogEntry :=
  match catalog.entries[index]? with
  | none => .error .panic
  | some entry => .ok entry

def validateParent (catalog : Catalog) (entries : FiniteMap String ℕ) (entry : CatalogEntry) :
    Outcome Unit :=
  if entry.parentTopicId = "" then .ok ()
  else
    match entries.get? entry.parentTopicId with
    | none => fail (.invalidCatalog "an entry references a missing parent topic")
    | some parentIndex => do
      let parent ← entryAt catalog parentIndex
      let kind ← entryKind parent
      if kind = .topic then .ok ()
      else fail (.invalidCatalog "an entry parent is not a topic")

def addChild (catalog : Catalog) (entries : FiniteMap String ℕ)
    (children : FiniteMap String (List String)) (entry : CatalogEntry) :
    Outcome (FiniteMap String (List String)) := do
  validateParent catalog entries entry
  .ok (children.push entry.parentTopicId entry.id)

def sortIds (ids : List String) : List String := ids.insertionSort (· ≤ ·)

def validateTopLevelTopic (catalog : Catalog) (entries : FiniteMap String ℕ) (topicId : String) :
    Outcome Unit :=
  match entries.get? topicId with
  | none => fail (.invalidCatalog "a top-level topic is missing")
  | some entryIndex => do
    let entry ← entryAt catalog entryIndex
    let kind ← entryKind entry
    if kind = .topic ∧ entry.parentTopicId = "" then .ok ()
    else fail (.invalidCatalog "a top-level topic declaration is invalid")

def cycleError : CatalogError := .invalidCatalog "the topic hierarchy contains a cycle"

structure HierarchyIndex where
  ranges : FiniteMap String NodeRange

/-- Every entry is entered once and left once, or the walk fails. -/
def hierarchyFuel (entries : FiniteMap String ℕ) : ℕ := 2 * entries.size + 1

def HierarchyIndex.build (entries : FiniteMap String ℕ) (catalog : Catalog)
    (children : FiniteMap String (List String)) : Outcome HierarchyIndex := do
  let roots := sortIds ((catalog.entries.filter (·.parentTopicId = "")).map CatalogEntry.id)
  let ranges ← numberNodes (fun id => (children.get? id).getD []) cycleError (2 ^ 64 - 1)
    (hierarchyFuel entries) (roots.map .enter) 0 ∅
  if ranges.size = entries.size then .ok ⟨ranges⟩ else fail cycleError

def HierarchyIndex.contains (hierarchy : HierarchyIndex) (ancestorId candidateId : String) : Bool :=
  match hierarchy.ranges.get? ancestorId, hierarchy.ranges.get? candidateId with
  | some ancestor, some candidate =>
    ancestor.start ≤ candidate.start && candidate.start < ancestor.stop
  | _, _ => false

structure CatalogService (μ : Type) where
  catalog : Catalog
  entries : FiniteMap String ℕ
  children : FiniteMap String (List String)
  hierarchy : HierarchyIndex
  descriptorPool : DescriptorPool μ
  schemaBundle : List UInt8
  schemaHash : Hash
  revision : Hash
  index : SearchIndex
  cursor : CursorAuthority

def CatalogService.withCursorAuthority {μ : Type} (unicode : Unicode) (sha256 : List UInt8 → Hash)
    (catalog : Catalog) (descriptorPool : DescriptorPool μ) (schemaBundle : List UInt8)
    (catalogRevision : Hash) (cursorAuthority : CursorAuthority) : Outcome (CatalogService μ) := do
  let entries ← catalog.entries.zipIdx.foldlM indexEntry ∅
  let children ← catalog.entries.foldlM (addChild catalog entries) ∅
  let children := children.mapValues sortIds
  catalog.topLevelTopicIds.forM (validateTopLevelTopic catalog entries)
  let hierarchy ← HierarchyIndex.build entries catalog children
  .ok {
    catalog := catalog
    entries := entries
    children := children
    hierarchy := hierarchy
    descriptorPool := descriptorPool
    schemaBundle := schemaBundle
    schemaHash := sha256 schemaBundle
    revision := catalogRevision
    index := .build unicode catalog.entries
    cursor := cursorAuthority }

/-- The entry of an id, wherever its index is in range. -/
def CatalogService.entry {μ : Type} (service : CatalogService μ) (id : String) :
    Outcome CatalogEntry :=
  match (service.entries.get? id).bind fun index => service.catalog.entries[index]? with
  | none => fail (.capabilityNotFound id)
  | some entry => .ok entry

end StoreCatalog
