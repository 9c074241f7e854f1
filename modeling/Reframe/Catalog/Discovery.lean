import Reframe.Catalog.Service

/-! Discovery: search and browse, page by page. -/
namespace StoreCatalog
open Package (CatalogEntry)
open Run (Stop)
open Runtime (isWhiteSpace)

def defaultPageLimit : ℕ := 5
def maxPageLimit : ℕ := 10
def defaultListByteBudget : ℕ := 16 * 1024

structure CatalogHit where
  id : String
  kind : ℤ
  title : String
  summary : String
  deriving DecidableEq, Repr

structure SearchCatalogRequest where
  query : String
  kinds : List ℤ
  topicId : String
  limit : UInt32
  byteBudget : UInt32
  cursor : String
  deriving DecidableEq, Repr

structure BrowseCatalogRequest where
  parentTopicId : String
  kinds : List ℤ
  limit : UInt32
  byteBudget : UInt32
  cursor : String
  deriving DecidableEq, Repr

/-- The response of a search (`hits`) or of a listing (`entries`): both have these fields under the
same numbers. -/
structure CatalogPage where
  hits : List CatalogHit
  nextCursor : String
  catalogRevision : Hash
  deriving DecidableEq

/-! Encoded lengths. A field with its default value is not written. -/

/-- A byte for every seven bits. -/
def varintLen (value : ℕ) : ℕ := Nat.log2 value / 7 + 1

def stringFieldLen (value : String) : ℕ :=
  let length := Package.byteLength value
  if length = 0 then 0 else 1 + varintLen length + length

def CatalogHit.encodedLen (hit : CatalogHit) : ℕ :=
  stringFieldLen hit.id +
    (if hit.kind = 0 then 0 else 1 + varintLen (hit.kind % 2 ^ 64).toNat) +
    stringFieldLen hit.title + stringFieldLen hit.summary

def CatalogPage.encodedLen (page : CatalogPage) : ℕ :=
  (page.hits.map fun hit => 1 + varintLen hit.encodedLen + hit.encodedLen).sum +
    stringFieldLen page.nextCursor + (1 + varintLen 32 + 32)

/-! Requests. -/

/-- `trim`. -/
def trim (text : String) : String :=
  .ofList ((text.toList.dropWhile isWhiteSpace).reverse.dropWhile isWhiteSpace).reverse

def normalizedLimit (value : UInt32) : ℕ :=
  if value = 0 then defaultPageLimit else min value.toNat maxPageLimit

def listBudget (value : UInt32) : ℕ := if value = 0 then defaultListByteBudget else value.toNat

def parseKind (value : ℤ) : Outcome CapabilityKind :=
  match CapabilityKind.ofInt value with
  | none | some .unspecified => fail (.invalidCapabilityKind value)
  | some kind => .ok kind

/-- The kinds of a request in the order of their numbers. -/
def normalizedKinds (values : List ℤ) : Outcome (List CapabilityKind) := do
  let kinds ← values.mapM parseKind
  .ok ([.topic, .resource, .function, .workflow].filter (· ∈ kinds))

def kindBinding (kinds : List CapabilityKind) : List UInt8 :=
  kinds.map fun kind => .ofNat kind.toInt.toNat

def kindMatches (entry : CatalogEntry) (kinds : List CapabilityKind) : Bool :=
  kinds.isEmpty ||
    match entryKind entry with
    | .ok kind => kind ∈ kinds
    | .error _ => false

def catalogHit (entry : CatalogEntry) : Outcome CatalogHit := do
  let kind ← entryKind entry
  .ok ⟨entry.id, kind.toInt, entry.title, entry.summary⟩

def utf8Bytes (text : String) : List UInt8 := text.toUTF8.data.toList

/-- `retain`, or a filter, with a test that may panic. -/
def retain (keep : String → Outcome Bool) : List String → Outcome (List String)
  | [] => .ok []
  | id :: ids => do
    let kept ← keep id
    let rest ← retain keep ids
    .ok (if kept then id :: rest else rest)

section

variable {μ : Type} (service : CatalogService μ)

namespace CatalogService

/-- `self.entry(id).expect(..)`. -/
def expectEntry (id : String) : Outcome CatalogEntry :=
  match service.entry id with
  | .ok entry => .ok entry
  | .error _ => .error .panic

def ensureTopic (topicId : String) : Outcome Unit :=
  match service.entry topicId with
  | .error _ => fail (.topicNotFound topicId)
  | .ok entry => do
    let kind ← entryKind entry
    if kind = .topic then .ok () else fail (.topicNotFound topicId)

/-- An empty id stands for no topic. -/
def ensureAnyTopic (topicId : String) : Outcome Unit :=
  if topicId = "" then .ok () else service.ensureTopic topicId

def pageOffset (sha256 : List UInt8 → Hash) (cursor : String) (operation : Operation)
    (binding : Hash) : Outcome ℕ :=
  if cursor = "" then .ok 0
  else
    match service.cursor.decode sha256 cursor operation service.revision binding with
    | .ok offset => .ok offset
    | .error error => fail error

/-- The loop over the candidates from a position on. -/
def takeHits (limit budget : ℕ) :
    List String → ℕ → List CatalogHit → ℕ → Outcome (List CatalogHit × ℕ)
  | [], position, hits, _ => .ok (hits, position)
  | id :: rest, position, hits, used =>
    if hits.length < limit then do
      let entry ← service.entry id
      let hit ← catalogHit entry
      let required := hit.encodedLen
      if budget < min (used + required) (2 ^ 64 - 1) then
        if hits = [] then fail (.budgetExceeded budget required) else .ok (hits, position)
      else takeHits limit budget rest (position + 1) (hits ++ [hit]) (used + required)
    else .ok (hits, position)

def boundedHits (candidates : List String) (offset limit budget : ℕ) :
    Outcome (List CatalogHit × Option ℕ) :=
  if candidates.length < offset then fail .invalidCursor
  else do
    let (hits, position) ← service.takeHits limit budget (candidates.drop offset) offset [] 0
    .ok (hits, if position < candidates.length then some position else none)

/-- A page of candidates: both operations end in this way. -/
def page (sha256 : List UInt8 → Hash) (operation : Operation) (binding : Hash)
    (candidates : List String) (offset : ℕ) (limit byteBudget : UInt32) : Outcome CatalogPage := do
  let (hits, nextOffset) ←
    service.boundedHits candidates offset (normalizedLimit limit) (listBudget byteBudget)
  let nextCursor :=
    match nextOffset with
    | none => ""
    | some offset => service.cursor.encode sha256 operation offset service.revision binding
  .ok ⟨hits, nextCursor, service.revision⟩

def keepSearched (kinds : List CapabilityKind) (topic id : String) : Outcome Bool := do
  let entry ← service.expectEntry id
  .ok (kindMatches entry kinds && (topic = "" || id = topic || service.hierarchy.contains topic id))

def searchCandidates (terms : List String) (kinds : List CapabilityKind) (topic : String) :
    Outcome (List String) :=
  retain (service.keepSearched kinds topic)
    (if terms = [] then SortedSet.toSorted service.entries.keys else service.index.rank terms)

def searchBinding (sha256 : List UInt8 → Hash) (terms : List String) (kinds : List CapabilityKind)
    (topic : String) : Hash :=
  bindingHash sha256 [utf8Bytes ("\u001f".intercalate terms), kindBinding kinds, utf8Bytes topic]

def searchCatalog (unicode : Unicode) (sha256 : List UInt8 → Hash)
    (request : SearchCatalogRequest) : Outcome CatalogPage := do
  let terms := uniqueTerms unicode request.query
  let kinds ← normalizedKinds request.kinds
  let topic := trim request.topicId
  service.ensureAnyTopic topic
  let binding := searchBinding sha256 terms kinds topic
  let offset ← service.pageOffset sha256 request.cursor .search binding
  let candidates ← service.searchCandidates terms kinds topic
  service.page sha256 .search binding candidates offset request.limit request.byteBudget

def keepChild (kinds : List CapabilityKind) (id : String) : Outcome Bool := do
  let entry ← service.expectEntry id
  .ok (kindMatches entry kinds)

def browseCandidates (kinds : List CapabilityKind) (parent : String) : Outcome (List String) :=
  retain (service.keepChild kinds) ((service.children.get? parent).getD [])

def browseBinding (sha256 : List UInt8 → Hash) (kinds : List CapabilityKind) (parent : String) :
    Hash :=
  bindingHash sha256 [utf8Bytes parent, kindBinding kinds]

def browseCatalog (sha256 : List UInt8 → Hash) (request : BrowseCatalogRequest) :
    Outcome CatalogPage := do
  let parent := trim request.parentTopicId
  service.ensureAnyTopic parent
  let kinds ← normalizedKinds request.kinds
  let binding := browseBinding sha256 kinds parent
  let offset ← service.pageOffset sha256 request.cursor .browse binding
  let candidates ← service.browseCandidates kinds parent
  service.page sha256 .browse binding candidates offset request.limit request.byteBudget

end CatalogService

end

end StoreCatalog
