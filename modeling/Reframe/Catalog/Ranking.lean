import Reframe.Catalog.Hierarchy
import Reframe.Catalog.Pagination

/-! The ranking of a search: what the postings add up to for an entry, and the order in which a
search lists the entries it finds. -/
namespace StoreCatalog
open Forest (Within)
open Package (Catalog CatalogEntry DescriptorPool parentOf)
open Paging (Ended)
open Run (bind_ok)

/-- The highest score. -/
def maxScore : ℕ := 2 ^ 32 - 1

/-! Weights that accumulate under keys. -/

section

variable {κ α : Type} [DecidableEq κ]

theorem getD_get?_addWeight (weights : FiniteMap κ ℕ) (key : κ) {weight : ℕ}
    (hweight : weight ≤ maxScore) (key' : κ) :
    ((addWeight weights key weight).get? key').getD 0 =
      if key' = key then min ((weights.get? key).getD 0 + weight) maxScore
      else (weights.get? key').getD 0 := by
  rw [addWeight, FiniteMap.get?_insert]
  split_ifs with hkey
  · rw [Option.getD_some]
    cases weights.get? key with
    | none =>
      rw [Option.getD_none, Nat.zero_add]
      exact (min_eq_left hweight).symm
    | some total => rfl
  · rfl

/-- The total of a key is the sum of its weights, up to the highest score. -/
theorem getD_get?_foldl_addWeight (key : α → κ) (weight : α → ℕ) (k : κ) :
    ∀ (items : List α) (weights : FiniteMap κ ℕ), (∀ item ∈ items, weight item ≤ maxScore) →
      (weights.get? k).getD 0 ≤ maxScore →
      ((items.foldl (fun weights item => addWeight weights (key item) (weight item))
          weights).get? k).getD 0 =
        min ((weights.get? k).getD 0 +
          (items.map fun item => if key item = k then weight item else 0).sum) maxScore := by
  intro items
  induction items with
  | nil =>
    intro weights _ htotal
    rw [List.foldl_nil, List.map_nil, List.sum_nil, Nat.add_zero, min_eq_left htotal]
  | cons item items ih =>
    intro weights hweights htotal
    rw [List.forall_mem_cons] at hweights
    have hadded := getD_get?_addWeight weights (key item) hweights.1 k
    have hbounded : ((addWeight weights (key item) (weight item)).get? k).getD 0 ≤ maxScore := by
      rw [hadded]
      split_ifs
      · exact min_le_right _ _
      · exact htotal
    rw [List.foldl_cons, ih _ hweights.2 hbounded, hadded, List.map_cons, List.sum_cons]
    by_cases hkey : key item = k
    · rw [if_pos hkey.symm, if_pos hkey, hkey]
      omega
    · rw [if_neg (Ne.symm hkey), if_neg hkey, Nat.zero_add]

theorem mem_keys_foldl_addWeight (key : α → κ) (weight : α → ℕ) {k : κ} (items : List α)
    (weights : FiniteMap κ ℕ) :
    k ∈ (items.foldl (fun weights item => addWeight weights (key item) (weight item)) weights).keys ↔
      k ∈ weights.keys ∨ ∃ item ∈ items, key item = k := by
  induction items generalizing weights with
  | nil => simp
  | cons item items ih =>
    rw [List.foldl_cons, ih, mem_keys_addWeight, List.exists_mem_cons_iff]
    tauto

end

/-! The weight of a term in an entry. -/

section

variable (unicode : Unicode)

/-- What a term counts in an entry: the weights of the fields it occurs in, each once. -/
def termWeight (entry : CatalogEntry) (term : String) : ℕ :=
  (if term ∈ terms unicode entry.id then idWeight else 0) +
    (if term ∈ terms unicode entry.title then titleWeight else 0) +
    (if term ∈ terms unicode entry.summary then summaryWeight else 0) +
    if term ∈ entry.intentPhrases.flatMap (terms unicode) then intentWeight else 0

def entryScore (queryTerms : List String) (entry : CatalogEntry) : ℕ :=
  min (queryTerms.map (termWeight unicode entry)).sum maxScore

variable {unicode}

theorem termWeight_le (entry : CatalogEntry) (term : String) :
    termWeight unicode entry term ≤ maxScore := by
  have hsmall : idWeight + titleWeight + summaryWeight + intentWeight ≤ maxScore := by decide
  rw [termWeight]
  split_ifs <;> omega

theorem getD_get?_addTerms {weights : FiniteMap String ℕ} (values : List String) {weight : ℕ}
    {term : String} (hroom : (weights.get? term).getD 0 + weight ≤ maxScore) :
    ((addTerms weights values weight).get? term).getD 0 =
      (weights.get? term).getD 0 + if term ∈ values then weight else 0 := by
  have hsum : ((SortedSet.toSorted values.toFinset).map fun value =>
      if value = term then weight else 0).sum = if term ∈ values then weight else 0 := by
    rw [← List.sum_toFinset _ ((SortedSet.toSorted_sorted _).imp ne_of_lt), Finset.sum_ite_eq']
    simp only [List.mem_toFinset, SortedSet.mem_toSorted]
  have htotal := getD_get?_foldl_addWeight (fun value => value) (fun _ => weight) term
    (SortedSet.toSorted values.toFinset) weights (fun _ _ => by omega) (by omega)
  rw [hsum] at htotal
  rw [addTerms, htotal]
  refine min_eq_left ?_
  split_ifs <;> omega

theorem mem_keys_addTerms {weights : FiniteMap String ℕ} {values : List String} {weight : ℕ}
    {term : String} :
    term ∈ (addTerms weights values weight).keys ↔ term ∈ weights.keys ∨ term ∈ values := by
  have hkeys := mem_keys_foldl_addWeight (fun value => value) (fun _ => weight) (k := term)
    (SortedSet.toSorted values.toFinset) weights
  rw [addTerms, hkeys]
  simp only [SortedSet.mem_toSorted, List.mem_toFinset, exists_eq_right]

theorem getD_get?_entryWeights (entry : CatalogEntry) (term : String) :
    ((entryWeights unicode entry).get? term).getD 0 = termWeight unicode entry term := by
  have hsmall : idWeight + titleWeight + summaryWeight + intentWeight ≤ maxScore := by decide
  have hempty : ((∅ : FiniteMap String ℕ).get? term).getD 0 = 0 := by
    rw [FiniteMap.get?_empty, Option.getD_none]
  have hid : ((addTerms ∅ (terms unicode entry.id) idWeight).get? term).getD 0 = _ :=
    getD_get?_addTerms _ (by omega)
  rw [hempty, Nat.zero_add] at hid
  have htitle : ((addTerms (addTerms ∅ (terms unicode entry.id) idWeight)
      (terms unicode entry.title) titleWeight).get? term).getD 0 = _ :=
    getD_get?_addTerms _ (by
      rw [hid]
      split_ifs <;> omega)
  rw [hid] at htitle
  have hsummary : ((addTerms (addTerms (addTerms ∅ (terms unicode entry.id) idWeight)
      (terms unicode entry.title) titleWeight) (terms unicode entry.summary)
      summaryWeight).get? term).getD 0 = _ :=
    getD_get?_addTerms _ (by
      rw [htitle]
      split_ifs <;> omega)
  rw [htitle] at hsummary
  simp only [entryWeights, addField]
  rw [getD_get?_addTerms _ (by
    rw [hsummary]
    split_ifs <;> omega), hsummary, termWeight]

/-- An entry has a posting for the terms that count in it. -/
theorem get?_entryWeights (entry : CatalogEntry) (term : String) :
    (entryWeights unicode entry).get? term =
      if 0 < termWeight unicode entry term then some (termWeight unicode entry term) else none := by
  have hkeys : term ∈ (entryWeights unicode entry).keys ↔ 0 < termWeight unicode entry term := by
    simp only [entryWeights, addField, mem_keys_addTerms, termWeight]
    have hempty : term ∉ (∅ : FiniteMap String ℕ).keys := Finset.notMem_empty _
    simp only [hempty, false_or, idWeight, titleWeight, summaryWeight, intentWeight]
    split_ifs <;> simp_all
  have htotal : ((entryWeights unicode entry).get? term).getD 0 = _ :=
    getD_get?_entryWeights entry term
  cases hget : (entryWeights unicode entry).get? term with
  | none =>
    rw [if_neg]
    rw [← hkeys, FiniteMap.mem_keys, hget]
    exact Bool.false_ne_true
  | some total =>
    rw [hget, Option.getD_some] at htotal
    rw [if_pos (hkeys.mp (FiniteMap.mem_keys_iff.mpr ⟨total, hget⟩)), htotal]

/-! The score of an entry. -/

theorem filter_inOrder {κ ν : Type} [LinearOrder κ] (m : FiniteMap κ ν) (k : κ) :
    (m.inOrder.filter fun entry => entry.1 = k) = ((m.get? k).map fun v => (k, v)).toList := by
  have hkeys : (m.inOrder.map Prod.fst).Nodup := m.inOrder_sorted.imp ne_of_lt
  cases hget : m.get? k with
  | none =>
    refine List.filter_eq_nil_iff.mpr fun entry hentry hkey => ?_
    obtain ⟨k', v⟩ := entry
    have hkey : k' = k := of_decide_eq_true hkey
    rw [FiniteMap.mem_inOrder, hkey, hget] at hentry
    cases hentry
  | some v =>
    have hmem : (k, v) ∈ m.inOrder := FiniteMap.mem_inOrder.mpr hget
    refine List.perm_singleton.mp ((List.perm_ext_iff_of_nodup
      ((List.Nodup.of_map Prod.fst hkeys).filter _) (List.nodup_singleton _)).mpr fun entry => ?_)
    rw [List.mem_filter, List.mem_singleton, decide_eq_true_eq]
    constructor
    · rintro ⟨hentry, hkey⟩
      exact List.inj_on_of_nodup_map hkeys hentry hmem hkey
    · rintro rfl
      exact ⟨hmem, rfl⟩

/-- The postings of a term: one for every entry in which the term counts. -/
theorem postings_build (entries : List CatalogEntry) (term : String) :
    ((SearchIndex.build unicode entries).postings.get? term).getD [] =
      entries.zipIdx.filterMap fun item =>
        if 0 < termWeight unicode item.1 term then
          some ⟨item.2, termWeight unicode item.1 term⟩ else none := by
  have hpostings := FiniteMap.getD_get?_foldl_push Prod.fst Prod.snd
    (entries.zipIdx.flatMap (entryPostings unicode)) ∅ term
  rw [FiniteMap.get?_empty, Option.getD_none, List.nil_append] at hpostings
  rw [SearchIndex.build, hpostings, List.filter_flatMap, List.map_flatMap,
    List.filterMap_eq_flatMap_toList]
  congr 1
  funext item
  rw [entryPostings, List.filter_map]
  have hfilter : ((fun posting : String × Posting => decide (posting.1 = term)) ∘
      fun weighted : String × ℕ => (weighted.1, Posting.mk item.2 weighted.2)) =
      fun weighted => decide (weighted.1 = term) := rfl
  rw [hfilter, filter_inOrder, get?_entryWeights]
  split_ifs <;> rfl

/-- The postings of a term add up to its weight in the entry of an index. -/
theorem sum_postings {entries : List CatalogEntry} {entryIndex : ℕ} {entry : CatalogEntry}
    (hentry : entries[entryIndex]? = some entry) (term : String) :
    ((((SearchIndex.build unicode entries).postings.get? term).getD []).map fun posting =>
      if posting.entryIndex = entryIndex then posting.weight else 0).sum =
      termWeight unicode entry term := by
  have hitems : ∀ items : List (CatalogEntry × ℕ), ((items.filterMap fun item =>
      if 0 < termWeight unicode item.1 term then
        some (Posting.mk item.2 (termWeight unicode item.1 term)) else none).map fun posting =>
      if posting.entryIndex = entryIndex then posting.weight else 0).sum =
      (items.map fun item =>
        if item.2 = entryIndex then termWeight unicode item.1 term else 0).sum := by
    intro items
    induction items with
    | nil => rfl
    | cons item items ih =>
      rw [List.filterMap_cons, List.map_cons, List.sum_cons, ← ih]
      by_cases hweight : 0 < termWeight unicode item.1 term
      · simp only [if_pos hweight, List.map_cons, List.sum_cons]
      · rw [if_neg hweight, Nat.eq_zero_of_not_pos hweight, ite_self, Nat.zero_add]
  have hnodup : entries.zipIdx.Nodup := by
    refine List.Nodup.of_map Prod.snd ?_
    rw [List.zipIdx_map_snd]
    exact List.nodup_range'
  have hmem : (entry, entryIndex) ∈ entries.zipIdx := List.mem_zipIdx_iff_getElem?.mpr hentry
  rw [postings_build, hitems, ← List.sum_toFinset _ hnodup,
    Finset.sum_eq_single_of_mem (entry, entryIndex) (List.mem_toFinset.mpr hmem), if_pos rfl]
  rintro ⟨entry', entryIndex'⟩ hmem' hne
  refine if_neg fun hindex => hne ?_
  rw [List.mem_toFinset, List.mem_zipIdx_iff_getElem?] at hmem'
  simp only at hindex hmem'
  subst hindex
  rw [hentry, Option.some.injEq] at hmem'
  rw [hmem']

/-- The score of an index is that of its entry; only entries in which a term counts have one. -/
theorem get?_scores {entries : List CatalogEntry} {entryIndex : ℕ} {entry : CatalogEntry}
    (hentry : entries[entryIndex]? = some entry) (queryTerms : List String) :
    ((SearchIndex.build unicode entries).scores queryTerms).get? entryIndex =
      if 0 < entryScore unicode queryTerms entry then some (entryScore unicode queryTerms entry)
      else none := by
  set postings := queryTerms.flatMap fun term =>
    ((SearchIndex.build unicode entries).postings.get? term).getD [] with hpostings
  have hpositive : ∀ posting ∈ postings, 0 < posting.weight ∧ posting.weight ≤ maxScore := by
    intro posting hposting
    obtain ⟨term, -, hterm⟩ := List.mem_flatMap.mp hposting
    rw [postings_build] at hterm
    obtain ⟨item, -, hitem⟩ := List.mem_filterMap.mp hterm
    split_ifs at hitem with hweight
    cases hitem
    exact ⟨hweight, termWeight_le _ _⟩
  have hsum : (postings.map fun posting =>
      if posting.entryIndex = entryIndex then posting.weight else 0).sum =
      (queryTerms.map (termWeight unicode entry)).sum := by
    rw [hpostings, List.map_flatMap, List.flatMap, List.sum_flatten, List.map_map]
    exact congrArg List.sum (List.map_congr_left fun term _ => sum_postings hentry term)
  have htotal := getD_get?_foldl_addWeight Posting.entryIndex Posting.weight entryIndex postings ∅
    (fun posting hposting => (hpositive posting hposting).2) (by simp)
  rw [FiniteMap.get?_empty, Option.getD_none, Nat.zero_add, hsum] at htotal
  have hkeys := mem_keys_foldl_addWeight Posting.entryIndex Posting.weight (k := entryIndex)
    postings ∅
  have hscores : (SearchIndex.build unicode entries).scores queryTerms =
      postings.foldl (fun scores posting => addWeight scores posting.entryIndex posting.weight) ∅ :=
    rfl
  rw [← hscores] at htotal hkeys
  cases hget : ((SearchIndex.build unicode entries).scores queryTerms).get? entryIndex with
  | none =>
    rw [hget, Option.getD_none] at htotal
    rw [if_neg]
    rw [entryScore, ← htotal]
    exact lt_irrefl 0
  | some score =>
    rw [hget, Option.getD_some] at htotal
    obtain hempty | ⟨posting, hposting, hindex⟩ :=
      hkeys.mp (FiniteMap.mem_keys_iff.mpr ⟨score, hget⟩)
    · exact absurd hempty (Finset.notMem_empty _)
    · have hle : posting.weight ≤ (queryTerms.map (termWeight unicode entry)).sum := by
        rw [← hsum]
        refine List.single_le_sum (fun _ _ => Nat.zero_le _) _ (List.mem_map.mpr ⟨posting, hposting, ?_⟩)
        exact if_pos hindex
      have hscore : 0 < entryScore unicode queryTerms entry :=
        lt_min ((hpositive posting hposting).1.trans_le hle) (by decide)
      rw [if_pos hscore, htotal, entryScore]

end

/-- Values of a function lift to arguments of it. -/
theorem exists_map_eq {α β : Type} {f : α → β} {P : α → Prop} (values : List β)
    (h : ∀ value ∈ values, ∃ a, P a ∧ f a = value) :
    ∃ found : List α, found.map f = values ∧ ∀ a ∈ found, P a := by
  induction values with
  | nil => exact ⟨[], rfl, fun _ hmem => (List.not_mem_nil hmem).elim⟩
  | cons value values ih =>
    rw [List.forall_mem_cons] at h
    obtain ⟨a, ha, rfl⟩ := h.1
    obtain ⟨found, rfl, hfound⟩ := ih h.2
    exact ⟨a :: found, rfl, List.forall_mem_cons.mpr ⟨ha, hfound⟩⟩

/-! The order of a search. -/

section

variable (unicode : Unicode)

/-- An entry with a higher score comes first; of two with equal scores the one with the smaller id. -/
def Precedes (queryTerms : List String) (left right : CatalogEntry) : Prop :=
  entryScore unicode queryTerms right < entryScore unicode queryTerms left ∨
    entryScore unicode queryTerms left = entryScore unicode queryTerms right ∧ left.id < right.id

/-- What a search finds: the entries of its kinds, at its topic or below it, in which a term of the
query occurs, if it has terms. -/
structure Found (catalog : Catalog) (queryTerms : List String) (kinds : List CapabilityKind)
    (topic : String) (entry : CatalogEntry) : Prop where
  listed : entry ∈ catalog.entries
  kind : kinds = [] ∨ ∃ kind ∈ kinds, entryKind entry = .ok kind
  below : topic = "" ∨ Within (parentOf catalog.entries) entry.id topic
  occurs : queryTerms = [] ∨ ∃ term ∈ queryTerms, 0 < termWeight unicode entry term

variable {unicode} {μ : Type} {service : CatalogService μ} {queryTerms : List String}

theorem entryScore_pos {entry : CatalogEntry} :
    0 < entryScore unicode queryTerms entry ↔
      ∃ term ∈ queryTerms, 0 < termWeight unicode entry term := by
  have hmax : 0 < maxScore := by decide
  rw [entryScore, lt_min_iff, and_iff_left hmax, List.sum_pos_iff_exists_pos_nat]
  simp only [List.mem_map, exists_exists_and_eq_and]

theorem ranksBefore_insertionSort (scored : List (String × ℕ)) :
    (scored.insertionSort ranksBefore).Pairwise ranksBefore := by
  have : Std.Total ranksBefore := by
    refine ⟨fun left right => ?_⟩
    rw [ranksBefore, ranksBefore]
    rcases lt_trichotomy left.2 right.2 with hlt | heq | hgt
    · exact .inr (.inl hlt)
    · rcases le_total left.1 right.1 with hle | hle
      · exact .inl (.inr ⟨heq, hle⟩)
      · exact .inr (.inr ⟨heq.symm, hle⟩)
    · exact .inl (.inl hgt)
  have : IsTrans (String × ℕ) ranksBefore := by
    refine ⟨fun first second third hleft hright => ?_⟩
    rw [ranksBefore] at hleft hright ⊢
    rcases hleft with hleft | ⟨hleft, hid⟩
    · rcases hright with hright | ⟨hright, -⟩
      · exact .inl (hright.trans hleft)
      · exact .inl (hright ▸ hleft)
    · rcases hright with hright | ⟨hright, hid'⟩
      · exact .inl (hleft ▸ hright)
      · exact .inr ⟨hleft.trans hright, hid.trans hid'⟩
  exact List.pairwise_insertionSort _ _

theorem CatalogService.Opened.entry_unique (h : service.Opened) {left right : CatalogEntry}
    (hleft : left ∈ service.catalog.entries) (hright : right ∈ service.catalog.entries)
    (hid : left.id = right.id) : left = right :=
  List.inj_on_of_nodup_map h.unique hleft hright hid

/-- The ranking lists the entries that have a score, in their order. -/
theorem CatalogService.Opened.rank_found (h : service.Opened)
    (hindex : service.index = .build unicode service.catalog.entries) (queryTerms : List String) :
    ∃ found : List CatalogEntry, service.index.rank queryTerms = found.map CatalogEntry.id ∧
      (∀ entry, entry ∈ found ↔
        entry ∈ service.catalog.entries ∧ 0 < entryScore unicode queryTerms entry) ∧
      found.Pairwise (Precedes unicode queryTerms) := by
  obtain ⟨scored, hscored⟩ : ∃ scored, scored = (service.index.scores queryTerms).toList.filterMap
    fun e => service.index.entryIds[e.1]?.map fun id => (id, e.2) := ⟨_, rfl⟩
  have hrank : service.index.rank queryTerms =
      (scored.insertionSort ranksBefore).map Prod.fst := by
    rw [hscored]
    rfl
  have hmem : ∀ id score, (id, score) ∈ scored ↔ ∃ entry, (entry ∈ service.catalog.entries ∧
      0 < entryScore unicode queryTerms entry) ∧
        (entry.id, entryScore unicode queryTerms entry) = (id, score) := by
    intro id score
    rw [hscored, List.mem_filterMap]
    constructor
    · rintro ⟨⟨entryIndex, score'⟩, hscore, hid⟩
      obtain ⟨id', hid', hsame⟩ := Option.map_eq_some_iff.mp hid
      cases hsame
      rw [h.entryIds, List.getElem?_map] at hid'
      obtain ⟨entry, hentry, rfl⟩ := Option.map_eq_some_iff.mp hid'
      rw [FiniteMap.mem_toList, hindex, get?_scores hentry] at hscore
      split_ifs at hscore with hpositive
      cases hscore
      exact ⟨entry, ⟨List.mem_of_getElem? hentry, hpositive⟩, rfl⟩
    · rintro ⟨entry, ⟨hentry, hpositive⟩, hsame⟩
      obtain ⟨entryIndex, hget⟩ := List.mem_iff_getElem?.mp hentry
      refine ⟨(entryIndex, score), ?_, ?_⟩
      · rw [FiniteMap.mem_toList, hindex, get?_scores hget, if_pos hpositive]
        exact congrArg (some ·.2) hsame
      · have hid : service.index.entryIds[entryIndex]? = some id := by
          rw [h.entryIds, List.getElem?_map, hget]
          exact congrArg (some ·.1) hsame
        exact congrArg (Option.map fun id => (id, score)) hid
  obtain ⟨found, hfound, hall⟩ := exists_map_eq
    (f := fun entry : CatalogEntry => (entry.id, entryScore unicode queryTerms entry))
    (P := fun entry => entry ∈ service.catalog.entries ∧ 0 < entryScore unicode queryTerms entry)
    (scored.insertionSort ranksBefore)
    fun value hvalue =>
      (hmem value.1 value.2).mp ((List.perm_insertionSort _ _).mem_iff.mp hvalue)
  have hids : service.index.rank queryTerms = found.map CatalogEntry.id := by
    rw [hrank, ← hfound, List.map_map]
    rfl
  refine ⟨found, hids, fun entry => ⟨hall entry, fun hentry => ?_⟩, ?_⟩
  · have hsorted : (entry.id, entryScore unicode queryTerms entry) ∈
        scored.insertionSort ranksBefore :=
      (List.perm_insertionSort _ _).mem_iff.mpr ((hmem _ _).mpr ⟨entry, hentry, rfl⟩)
    rw [← hfound] at hsorted
    obtain ⟨entry', hentry', hsame⟩ := List.mem_map.mp hsorted
    rwa [h.entry_unique hentry.1 (hall entry' hentry').1 (congrArg Prod.fst hsame).symm]
  · have hsorted := ranksBefore_insertionSort scored
    have hnodup := (h.rank queryTerms).1
    rw [← hfound, List.pairwise_map] at hsorted
    rw [hids, List.Nodup, List.pairwise_map] at hnodup
    refine hsorted.imp₂ (fun left right hbefore hne => ?_) hnodup
    rcases hbefore with hlt | ⟨hscore, hle⟩
    · exact .inl hlt
    · exact .inr ⟨hscore, lt_of_le_of_ne hle hne⟩

/-- What a retained list keeps of entries. -/
theorem retain_found {keep : String → Outcome Bool} {kept : CatalogEntry → Bool}
    {found : List CatalogEntry} (hkeep : ∀ entry ∈ found, keep entry.id = .ok (kept entry)) :
    retain keep (found.map CatalogEntry.id) = .ok ((found.filter kept).map CatalogEntry.id) := by
  rw [retain_ok, List.filter_map]
  · have hsame : found.filter ((fun id => decide (keep id = .ok true)) ∘ CatalogEntry.id) =
        found.filter kept := by
      refine List.filter_congr fun entry hentry => ?_
      rw [Function.comp_apply, hkeep entry hentry]
      cases kept entry <;> rfl
    rw [hsame]
  · intro id hid
    obtain ⟨entry, hentry, rfl⟩ := List.mem_map.mp hid
    exact ⟨_, hkeep entry hentry⟩

theorem CatalogService.Opened.expectEntry_eq (h : service.Opened) {entry : CatalogEntry}
    (hentry : entry ∈ service.catalog.entries) : service.expectEntry entry.id = .ok entry := by
  rw [CatalogService.expectEntry, h.entry_ok hentry]

theorem kindMatches_iff {entry : CatalogEntry} {kinds : List CapabilityKind} :
    kindMatches entry kinds = true ↔ kinds = [] ∨ ∃ kind ∈ kinds, entryKind entry = .ok kind := by
  rw [kindMatches, Bool.or_eq_true, List.isEmpty_iff]
  refine or_congr Iff.rfl ?_
  cases entryKind entry with
  | error stop => simp
  | ok kind => simp [eq_comm]

/-- Sorted ids are the ids of entries in the order of their ids. -/
theorem sorted_found {entries : List CatalogEntry} {ids : List String}
    (hsorted : ids.Pairwise (· < ·)) {P : CatalogEntry → Prop}
    (hunique : (entries.map CatalogEntry.id).Nodup)
    (hids : ∀ id, id ∈ ids ↔ ∃ entry, (entry ∈ entries ∧ P entry) ∧ entry.id = id) :
    ∃ found : List CatalogEntry, ids = found.map CatalogEntry.id ∧
      (∀ entry, entry ∈ found ↔ entry ∈ entries ∧ P entry) ∧
      found.Pairwise fun left right => left.id < right.id := by
  obtain ⟨found, rfl, hall⟩ := exists_map_eq (f := CatalogEntry.id)
    (P := fun entry => entry ∈ entries ∧ P entry) _ fun id hid => (hids id).mp hid
  refine ⟨found, rfl, fun entry => ⟨hall entry, fun hentry => ?_⟩, List.pairwise_map.mp hsorted⟩
  obtain ⟨entry', hentry', hsame⟩ := List.mem_map.mp ((hids entry.id).mpr ⟨entry, hentry, rfl⟩)
  rwa [List.inj_on_of_nodup_map hunique hentry.1 (hall entry' hentry').1 hsame.symm]

/-- The candidates of a search are what it finds, in its order. -/
theorem CatalogService.Opened.searchCandidates_found (h : service.Opened)
    (hindex : service.index = .build unicode service.catalog.entries)
    (hcontains : ∀ ancestorId candidateId, service.hierarchy.contains ancestorId candidateId = true ↔
      ancestorId ∈ catalogIds service.catalog ∧ candidateId ∈ catalogIds service.catalog ∧
        Within (parentOf service.catalog.entries) candidateId ancestorId)
    (hparents : ∀ node ∈ catalogIds service.catalog, ∀ p,
      parentOf service.catalog.entries node = some p → p ∈ catalogIds service.catalog)
    (queryTerms : List String) (kinds : List CapabilityKind) (topic : String) :
    ∃ found : List CatalogEntry,
      service.searchCandidates queryTerms kinds topic = .ok (found.map CatalogEntry.id) ∧
      (∀ entry, entry ∈ found ↔ Found unicode service.catalog queryTerms kinds topic entry) ∧
      found.Pairwise (Precedes unicode queryTerms) := by
  have hlisted : ∃ found : List CatalogEntry,
      (if queryTerms = [] then SortedSet.toSorted service.entries.keys
        else service.index.rank queryTerms) = found.map CatalogEntry.id ∧
      (∀ entry, entry ∈ found ↔ entry ∈ service.catalog.entries ∧
        (queryTerms = [] ∨ ∃ term ∈ queryTerms, 0 < termWeight unicode entry term)) ∧
      found.Pairwise (Precedes unicode queryTerms) := by
    split_ifs with hterms
    · obtain ⟨found, hids, hmem, hsorted⟩ := sorted_found
        (SortedSet.toSorted_sorted service.entries.keys) (P := fun _ => True) h.unique fun id => by
          rw [SortedSet.mem_toSorted, h.indexes.keys, ← catalogIds, mem_catalogIds]
          simp only [and_true]
      refine ⟨found, hids, fun entry => ?_, hsorted.imp fun hlt => .inr ⟨?_, hlt⟩⟩
      · rw [hmem, and_true]
        exact ⟨fun hentry => ⟨hentry, .inl hterms⟩, And.left⟩
      · rw [entryScore, entryScore, hterms, List.map_nil, List.map_nil]
    · obtain ⟨found, hids, hmem, hsorted⟩ := h.rank_found hindex queryTerms
      refine ⟨found, hids, fun entry => ?_, hsorted⟩
      rw [hmem, entryScore_pos, or_iff_right hterms]
  obtain ⟨found, hids, hmem, hsorted⟩ := hlisted
  have hkeep : ∀ entry ∈ found, service.keepSearched kinds topic entry.id =
      .ok (kindMatches entry kinds &&
        (topic = "" || entry.id = topic || service.hierarchy.contains topic entry.id)) := by
    intro entry hentry
    rw [CatalogService.keepSearched, h.expectEntry_eq ((hmem entry).mp hentry).1]
    rfl
  refine ⟨_, (congrArg _ hids).trans (retain_found hkeep), fun entry => ?_, hsorted.filter _⟩
  rw [List.mem_filter, hmem, Bool.and_eq_true, kindMatches_iff]
  simp only [Bool.or_eq_true, decide_eq_true_eq, hcontains]
  constructor
  · rintro ⟨⟨hentry, hoccurs⟩, hkind, (htopic | htopic) | ⟨-, -, hwithin⟩⟩
    · exact ⟨hentry, hkind, .inl htopic, hoccurs⟩
    · exact ⟨hentry, hkind, .inr (htopic ▸ .refl), hoccurs⟩
    · exact ⟨hentry, hkind, .inr hwithin, hoccurs⟩
  · rintro ⟨hentry, hkind, htopic | hwithin, hoccurs⟩
    · exact ⟨⟨hentry, hoccurs⟩, hkind, .inl (.inl htopic)⟩
    · have hid : entry.id ∈ catalogIds service.catalog := mem_catalogIds.mpr ⟨entry, hentry, rfl⟩
      exact ⟨⟨hentry, hoccurs⟩, hkind, .inr ⟨hwithin.mem hparents hid, hid, hwithin⟩⟩

/-- The children of a topic are listed in the order of their ids. -/
theorem CatalogService.Opened.browseCandidates_found (h : service.Opened)
    (kinds : List CapabilityKind) (parent : String) :
    ∃ found : List CatalogEntry,
      service.browseCandidates kinds parent = .ok (found.map CatalogEntry.id) ∧
      (∀ entry, entry ∈ found ↔ entry ∈ service.catalog.entries ∧ entry.parentTopicId = parent ∧
        (kinds = [] ∨ ∃ kind ∈ kinds, entryKind entry = .ok kind)) ∧
      found.Pairwise fun left right => left.id < right.id := by
  have hsorted : (childrenOf service.catalog parent).Pairwise (· < ·) :=
    ((List.pairwise_insertionSort (· ≤ ·) _).and (childrenOf_nodup h.unique parent)).imp
      fun hboth => lt_of_le_of_ne hboth.1 hboth.2
  obtain ⟨found, hids, hmem, hsorted⟩ := sorted_found hsorted h.unique
    (P := fun entry => entry.parentTopicId = parent) fun id => by
      rw [mem_childrenOf]
      simp only [and_assoc]
  have hkeep : ∀ entry ∈ found, service.keepChild kinds entry.id =
      .ok (kindMatches entry kinds) := by
    intro entry hentry
    rw [CatalogService.keepChild, h.expectEntry_eq ((hmem entry).mp hentry).1]
    rfl
  refine ⟨_, ?_, fun entry => ?_, hsorted.filter (fun entry => kindMatches entry kinds)⟩
  · rw [CatalogService.browseCandidates, h.children, hids, retain_found hkeep]
  · rw [List.mem_filter, hmem, kindMatches_iff, and_assoc]

theorem built_of_ok {sha256 : List UInt8 → Hash} {catalog : Catalog}
    {descriptorPool : DescriptorPool μ} {schemaBundle : List UInt8} {catalogRevision : Hash}
    {cursorAuthority : CursorAuthority}
    (h : CatalogService.withCursorAuthority unicode sha256 catalog descriptorPool schemaBundle
      catalogRevision cursorAuthority = .ok service) :
    service.catalog = catalog ∧ service.index = .build unicode service.catalog.entries ∧
      service.revision = catalogRevision ∧ service.cursor = cursorAuthority := by
  obtain ⟨entries, -, h⟩ := bind_ok.mp h
  obtain ⟨children, -, h⟩ := bind_ok.mp h
  obtain ⟨⟨⟩, -, h⟩ := bind_ok.mp h
  obtain ⟨hierarchy, -, h⟩ := bind_ok.mp h
  cases h
  exact ⟨rfl, rfl, rfl, rfl⟩

/-- Pages of candidates are pages of the entries. -/
theorem Complete.reads (h : service.Opened) {found : List CatalogEntry}
    (hfound : ∀ entry ∈ found, entry ∈ service.catalog.entries)
    {requests : List (UInt32 × UInt32)} {pages : List (List CatalogHit × Option String)}
    (hcomplete : Complete service (found.map CatalogEntry.id) requests pages) :
    ((pages.flatMap Prod.fst).map CatalogHit.id <+: found.map CatalogEntry.id) ∧
      (Ended pages → (pages.flatMap Prod.fst).map CatalogHit.id = found.map CatalogEntry.id) := by
  obtain ⟨hits, hhits, hleads, hall⟩ := hcomplete.hits
  obtain ⟨hits', hhits', hids⟩ := h.hits (found.map CatalogEntry.id) fun id hid => by
    obtain ⟨entry, hentry, rfl⟩ := List.mem_map.mp hid
    exact mem_catalogIds.mpr ⟨entry, hfound entry hentry, rfl⟩
  have hsame : hits = hits' :=
    List.map_injective_iff.mpr (fun _ _ => Except.ok.inj) (hhits.symm.trans hhits')
  rw [hsame] at hleads hall
  rw [← hids]
  exact ⟨hleads.map _, fun hended => by rw [hall hended]⟩

end

/-- The pages of a search, read to their end, list exactly the entries at or below the topic that
have a kind and a term of the request, by falling score and of equal scores by id. The pages of a
topic list exactly its children that have a kind of the request, by id. Earlier pages are the first
part of that list. -/
theorem discovery_exact {μ : Type} {unicode : Unicode} {sha256 : List UInt8 → Hash}
    {catalog : Catalog} {descriptorPool : DescriptorPool μ} {schemaBundle : List UInt8}
    {catalogRevision : Hash} {cursorAuthority : CursorAuthority} {service : CatalogService μ}
    (h : CatalogService.withCursorAuthority unicode sha256 catalog descriptorPool schemaBundle
      catalogRevision cursorAuthority = .ok service) :
    (∀ query kinds topicId requests pages, requests ≠ [] →
      searchPages service sha256 unicode query kinds topicId requests = .ok pages →
      ∃ parsed, normalizedKinds kinds = .ok parsed ∧ ∃ found : List CatalogEntry,
        (∀ entry, entry ∈ found ↔
          Found unicode catalog (uniqueTerms unicode query) parsed (trim topicId) entry) ∧
        found.Pairwise (Precedes unicode (uniqueTerms unicode query)) ∧
        ((pages.flatMap Prod.fst).map CatalogHit.id <+: found.map CatalogEntry.id) ∧
        (Ended pages → (pages.flatMap Prod.fst).map CatalogHit.id = found.map CatalogEntry.id)) ∧
    ∀ parentTopicId kinds requests pages, requests ≠ [] →
      browsePages service sha256 parentTopicId kinds requests = .ok pages →
      ∃ parsed, normalizedKinds kinds = .ok parsed ∧ ∃ found : List CatalogEntry,
        (∀ entry, entry ∈ found ↔ entry ∈ catalog.entries ∧
          entry.parentTopicId = trim parentTopicId ∧
          (parsed = [] ∨ ∃ kind ∈ parsed, entryKind entry = .ok kind)) ∧
        (found.Pairwise fun left right => left.id < right.id) ∧
        ((pages.flatMap Prod.fst).map CatalogHit.id <+: found.map CatalogEntry.id) ∧
        (Ended pages → (pages.flatMap Prod.fst).map CatalogHit.id = found.map CatalogEntry.id) := by
  have hopened := opened_of_ok h
  obtain ⟨hlisted, entries, hindexes, hbuild⟩ := listed_of_ok h
  obtain ⟨rfl, hindex, -, -⟩ := built_of_ok h
  constructor
  · intro query kinds topicId requests pages hne hpages
    obtain ⟨candidates, hcandidates, hcomplete⟩ := search_complete hopened hne hpages
    obtain ⟨parsed, hparsed, hcandidates⟩ := bind_ok.mp hcandidates
    obtain ⟨found, hfound, hmem, hsorted⟩ := hopened.searchCandidates_found hindex
      (contains_iff hlisted hindexes getD_childMap hbuild) hlisted.parents
      (uniqueTerms unicode query) parsed (trim topicId)
    rw [hfound, Except.ok.injEq] at hcandidates
    subst hcandidates
    exact ⟨parsed, hparsed, found, hmem, hsorted,
      hcomplete.reads hopened fun entry hentry => ((hmem entry).mp hentry).listed⟩
  · intro parentTopicId kinds requests pages hne hpages
    obtain ⟨candidates, hcandidates, hcomplete⟩ := browse_complete hopened hne hpages
    obtain ⟨parsed, hparsed, hcandidates⟩ := bind_ok.mp hcandidates
    obtain ⟨found, hfound, hmem, hsorted⟩ :=
      hopened.browseCandidates_found parsed (trim parentTopicId)
    rw [hfound, Except.ok.injEq] at hcandidates
    subst hcandidates
    exact ⟨parsed, hparsed, found, hmem, hsorted,
      hcomplete.reads hopened fun entry hentry => ((hmem entry).mp hentry).1⟩

namespace TestVectors

/-- One page of a search for calendar events. -/
theorem discovery_exact_calendar : ∃ service pages,
    openCalendar asciiTables foldHash = .ok service ∧
      searchPages service foldHash asciiTables "calendar events" [] "" [(0, 0)] = .ok pages ∧
      (pages.map fun page => page.1.map CatalogHit.id) = [["events.list", "calendar", "events"]] ∧
      ∃ found : List CatalogEntry, (∀ entry, entry ∈ found ↔
        Found asciiTables calendarCatalog (uniqueTerms asciiTables "calendar events") [] "" entry) := by
  have hrun : ((openCalendar asciiTables foldHash).bind fun service =>
      (searchPages service foldHash asciiTables "calendar events" [] "" [(0, 0)]).map fun pages =>
        pages.map fun page => page.1.map CatalogHit.id) =
      .ok [["events.list", "calendar", "events"]] := by decide +kernel
  obtain ⟨service, hservice, hrun⟩ := Run.bind_eq_ok.mp hrun
  obtain ⟨pages, hpages, hids⟩ := Run.map_eq_ok.mp hrun
  obtain ⟨parsed, hparsed, found, hfound, -⟩ :=
    (discovery_exact hservice).1 "calendar events" [] "" _ pages (by decide) hpages
  cases hparsed
  exact ⟨service, pages, hservice, hpages, hids, found, hfound⟩

end TestVectors

end StoreCatalog
