import Mathlib.Data.String.Basic
import Reframe.Lib.SortedMap
import Reframe.Package.CatalogData

/-! The lexical index of a catalog: normalized terms, their weights in each entry, and the ranking
of the entries for the terms of a query. -/
namespace StoreCatalog
open Package (CatalogEntry)

/-- The tables of Unicode: compatibility normalization, letters and digits, lowercase expansion. -/
structure Unicode where
  nfkc : List Char → List Char
  isAlphanumeric : Char → Bool
  toLowercase : Char → List Char

def saturatingAddU32 (left right : ℕ) : ℕ := min (left + right) (2 ^ 32 - 1)

def idWeight : ℕ := 8
def titleWeight : ℕ := 6
def intentWeight : ℕ := 4
def summaryWeight : ℕ := 2

structure Posting where
  entryIndex : ℕ
  weight : ℕ
  deriving DecidableEq, Repr

/-- Postings name entries that there are. -/
structure SearchIndex where
  entryIds : List String
  postings : FiniteMap String (List Posting)
  inRange : ∀ term, ∀ posting ∈ (postings.get? term).getD [], posting.entryIndex < entryIds.length

section

variable (unicode : Unicode)

/-- The maximal runs of letters and digits; `token` is the one being read. -/
def splitTerms : List Char → List Char → List String
  | [], token => if token = [] then [] else [.ofList token]
  | c :: text, token =>
    if unicode.isAlphanumeric c then splitTerms text (token ++ unicode.toLowercase c)
    else if token = [] then splitTerms text []
    else .ofList token :: splitTerms text []

def terms (value : String) : List String :=
  let lowercase := (unicode.nfkc value.toList).flatMap unicode.toLowercase
  splitTerms unicode (unicode.nfkc lowercase) []

def uniqueTerms (value : String) : List String :=
  SortedSet.toSorted (terms unicode value).toFinset

/-- `entry(key).and_modify(saturating_add).or_insert`. -/
def addWeight {κ : Type} [DecidableEq κ] (weights : FiniteMap κ ℕ) (key : κ) (weight : ℕ) :
    FiniteMap κ ℕ :=
  weights.insert key <|
    match weights.get? key with
    | some total => saturatingAddU32 total weight
    | none => weight

/-- A term counts once for a field. -/
def addTerms (weights : FiniteMap String ℕ) (terms : List String) (weight : ℕ) :
    FiniteMap String ℕ :=
  (SortedSet.toSorted terms.toFinset).foldl (fun weights term => addWeight weights term weight)
    weights

def addField (weights : FiniteMap String ℕ) (value : String) (weight : ℕ) : FiniteMap String ℕ :=
  addTerms weights (terms unicode value) weight

def entryWeights (entry : CatalogEntry) : FiniteMap String ℕ :=
  let weights := addField unicode ∅ entry.id idWeight
  let weights := addField unicode weights entry.title titleWeight
  let weights := addField unicode weights entry.summary summaryWeight
  addTerms weights (entry.intentPhrases.flatMap (terms unicode)) intentWeight

/-- The postings of an entry, under their terms. -/
def entryPostings (item : CatalogEntry × ℕ) : List (String × Posting) :=
  (entryWeights unicode item.1).inOrder.map fun (term, weight) => (term, ⟨item.2, weight⟩)

def SearchIndex.build (entries : List CatalogEntry) : SearchIndex where
  entryIds := entries.map CatalogEntry.id
  postings := (entries.zipIdx.flatMap (entryPostings unicode)).foldl
    (fun postings posting => postings.push posting.1 posting.2) ∅
  inRange := by
    intro term posting hposting
    rw [FiniteMap.getD_get?_foldl_push Prod.fst Prod.snd, FiniteMap.get?_empty, Option.getD_none,
      List.nil_append] at hposting
    obtain ⟨⟨term', posting'⟩, hmem, rfl⟩ := List.mem_map.mp hposting
    obtain ⟨item, hitem, hpostings⟩ := List.mem_flatMap.mp (List.mem_of_mem_filter hmem)
    obtain ⟨weight, -, heq⟩ := List.mem_map.mp hpostings
    cases heq
    rw [List.length_map]
    exact (List.mem_zipIdx' hitem).1

end

def addScore (scores : FiniteMap ℕ ℕ) (posting : Posting) : FiniteMap ℕ ℕ :=
  addWeight scores posting.entryIndex posting.weight

def SearchIndex.scores (index : SearchIndex) (queryTerms : List String) : FiniteMap ℕ ℕ :=
  (queryTerms.flatMap fun term => (index.postings.get? term).getD []).foldl addScore ∅

theorem mem_keys_addWeight {κ : Type} [DecidableEq κ] {weights : FiniteMap κ ℕ} {key key' : κ}
    {weight : ℕ} : key' ∈ (addWeight weights key weight).keys ↔ key' = key ∨ key' ∈ weights.keys := by
  rw [addWeight, FiniteMap.keys_insert, Finset.mem_insert]

/-- Higher scores come first, equal ones in the order of their ids. -/
def ranksBefore (left right : String × ℕ) : Prop :=
  right.2 < left.2 ∨ left.2 = right.2 ∧ left.1 ≤ right.1

instance : DecidableRel ranksBefore := fun _ _ => inferInstanceAs (Decidable (_ ∨ _))

/-- The ids with a score. An index with a score is that of a posting, and so in range. -/
def SearchIndex.rank (index : SearchIndex) (queryTerms : List String) : List String :=
  let scored := (index.scores queryTerms).toList.filterMap fun (entryIndex, score) =>
    index.entryIds[entryIndex]?.map fun id => (id, score)
  (scored.insertionSort ranksBefore).map Prod.fst

end StoreCatalog
