import Reframe.Lib.FiniteMap
import Reframe.Lib.SortedSet

/-! Entries in the order of their keys, lists kept under a key, and lists sorted by a key. -/

namespace FiniteMap

variable {κ ν : Type*}

theorem toList_nodup_keys (m : FiniteMap κ ν) : (m.toList.map Prod.fst).Nodup := by
  have hkeys : (m.alist.entries.map Sigma.fst).Nodup := m.alist.nodupKeys
  rwa [toList, List.map_map]

/-- The entries in the order of their keys. -/
def inOrder [LinearOrder κ] (m : FiniteMap κ ν) : List (κ × ν) :=
  (SortedSet.toSorted m.keys).filterMap fun k => (m.get? k).map fun v => (k, v)

theorem mem_inOrder [LinearOrder κ] {m : FiniteMap κ ν} {k : κ} {v : ν} :
    (k, v) ∈ m.inOrder ↔ m.get? k = some v := by
  simp only [inOrder, List.mem_filterMap, SortedSet.mem_toSorted, Option.map_eq_some_iff,
    Prod.mk.injEq]
  constructor
  · rintro ⟨k', -, v', hget, rfl, rfl⟩
    exact hget
  · intro hget
    exact ⟨k, mem_keys_iff.mpr ⟨v, hget⟩, v, hget, rfl, rfl⟩

theorem inOrder_sorted [LinearOrder κ] (m : FiniteMap κ ν) :
    (m.inOrder.map Prod.fst).Pairwise (· < ·) := by
  rw [inOrder, List.pairwise_map, List.pairwise_filterMap]
  refine (SortedSet.toSorted_sorted m.keys).imp fun hlt entry hentry entry' hentry' => ?_
  obtain ⟨v, -, rfl⟩ := Option.map_eq_some_iff.mp hentry
  obtain ⟨v', -, rfl⟩ := Option.map_eq_some_iff.mp hentry'
  exact hlt

/-- Every entry of the old map has a related entry in the new one. -/
def Extends [DecidableEq κ] (R : ν → ν → Prop) (old new : FiniteMap κ ν) : Prop :=
  ∀ k v, old.get? k = some v → ∃ v', new.get? k = some v' ∧ R v v'

section

variable [DecidableEq κ] {R : ν → ν → Prop} {m m' m'' : FiniteMap κ ν}

theorem Extends.refl (h : ∀ k v, m.get? k = some v → R v v) : Extends R m m :=
  fun k v hget => ⟨v, hget, h k v hget⟩

theorem Extends.trans (hR : ∀ v v' v'', R v v' → R v' v'' → R v v'') (h : Extends R m m')
    (h' : Extends R m' m'') : Extends R m m'' := by
  intro k v hget
  obtain ⟨v', hget', hv⟩ := h k v hget
  obtain ⟨v'', hget'', hv'⟩ := h' k v' hget'
  exact ⟨v'', hget'', hR v v' v'' hv hv'⟩

end

/-- A walk over the old entries that finds fault with a missing entry, and compares the others. -/
theorem flatMap_inOrder_eq_nil [LinearOrder κ] {γ : Type*} {old new : FiniteMap κ ν}
    {fault : κ × ν → List γ} {R : ν → ν → Prop}
    (hmissing : ∀ k v, new.get? k = none → fault (k, v) ≠ [])
    (hfound : ∀ k v v', old.get? k = some v → new.get? k = some v' →
      (fault (k, v) = [] ↔ R v v')) :
    old.inOrder.flatMap fault = [] ↔ Extends R old new := by
  rw [List.flatMap_eq_nil_iff]
  constructor
  · intro hnil k v hget
    have hentry := hnil (k, v) (mem_inOrder.mpr hget)
    cases hnew : new.get? k with
    | none => exact absurd hentry (hmissing k v hnew)
    | some v' => exact ⟨v', rfl, (hfound k v v' hget hnew).mp hentry⟩
  · rintro hextends ⟨k, v⟩ hmem
    have hget := mem_inOrder.mp hmem
    obtain ⟨v', hnew, hR⟩ := hextends k v hget
    exact (hfound k v v' hget hnew).mpr hR

variable [DecidableEq κ]

theorem get?_ofList_some {pairs : List (κ × ν)} {k : κ} {v : ν}
    (h : (ofList pairs).get? k = some v) : (k, v) ∈ pairs := by
  rcases get?_extend_some h with hmem | hnone
  · exact hmem
  · cases hnone

/-- Pairs with distinct keys are all kept. -/
theorem get?_ofList {pairs : List (κ × ν)} (h : (pairs.map Prod.fst).Nodup) {k : κ} {v : ν} :
    (ofList pairs).get? k = some v ↔ (k, v) ∈ pairs := by
  refine ⟨get?_ofList_some, fun hmem => get?_extend_of_mem ∅ hmem fun p hp hkey => ?_⟩
  have hsame : p = (k, v) := List.inj_on_of_nodup_map h hp hmem hkey
  rw [hsame]

/-- A map of the items that have a key, when no two items share one. -/
theorem get?_ofList_keyed {α : Type*} {items : List α} {key : α → Option κ}
    (h : ∀ a ∈ items, ∀ b ∈ items, key a = key b → a = b) {k : κ} {a : α} :
    (ofList (items.filterMap fun item => (key item).map fun k => (k, item))).get? k = some a ↔
      a ∈ items ∧ key a = some k := by
  have hmem : ∀ k a, (k, a) ∈ items.filterMap (fun item => (key item).map fun k => (k, item)) ↔
      a ∈ items ∧ key a = some k := by
    intro k a
    simp only [List.mem_filterMap, Option.map_eq_some_iff, Prod.mk.injEq]
    constructor
    · rintro ⟨_, hb, _, hkey, rfl, rfl⟩
      exact ⟨hb, hkey⟩
    · rintro ⟨ha, hkey⟩
      exact ⟨a, ha, k, hkey, rfl, rfl⟩
  refine ⟨fun hget => (hmem k a).mp (get?_ofList_some hget), fun ha => ?_⟩
  refine get?_extend_of_mem ∅ ((hmem k a).mpr ha) ?_
  rintro ⟨k', b⟩ hb rfl
  obtain ⟨hb, hkey⟩ := (hmem k' b).mp hb
  exact h b hb a ha.1 (hkey.trans ha.2.symm)

/-- `entry(key).or_default().push(value)`. -/
def push (m : FiniteMap κ (List ν)) (k : κ) (v : ν) : FiniteMap κ (List ν) :=
  m.insert k ((m.get? k).getD [] ++ [v])

theorem getD_get?_push (m : FiniteMap κ (List ν)) (k k' : κ) (v : ν) :
    ((m.push k v).get? k').getD [] = (m.get? k').getD [] ++ if k' = k then [v] else [] := by
  rw [push, get?_insert]
  split_ifs with h
  · rw [h, Option.getD_some]
  · rw [List.append_nil]

/-- Items pushed under their keys are listed in their order. -/
theorem getD_get?_foldl_push {α : Type*} (key : α → κ) (value : α → ν) (items : List α)
    (m : FiniteMap κ (List ν)) (k : κ) :
    ((items.foldl (fun m item => m.push (key item) (value item)) m).get? k).getD [] =
      (m.get? k).getD [] ++ (items.filter fun item => key item = k).map value := by
  induction items generalizing m with
  | nil => simp
  | cons item items ih =>
    rw [List.foldl_cons, ih, getD_get?_push, List.filter_cons, List.append_assoc]
    by_cases h : key item = k
    · simp [h]
    · simp [h, Ne.symm h]

end FiniteMap

namespace SortedSet

variable {α β : Type*}

/-- `sort_by_key`, by a stable sort. -/
def sortByKey [LinearOrder β] (key : α → β) (xs : List α) : List α :=
  xs.insertionSort fun left right => key left ≤ key right

theorem mem_sortByKey [LinearOrder β] {key : α → β} {xs : List α} {a : α} :
    a ∈ sortByKey key xs ↔ a ∈ xs :=
  (List.perm_insertionSort _ xs).mem_iff

theorem sortByKey_sorted [LinearOrder β] (key : α → β) (xs : List α) :
    (sortByKey key xs).Pairwise fun left right => key left ≤ key right := by
  have : Std.Total fun left right => key left ≤ key right := ⟨fun _ _ => le_total _ _⟩
  have : IsTrans α fun left right => key left ≤ key right := ⟨fun _ _ _ => le_trans⟩
  exact List.pairwise_insertionSort _ xs

end SortedSet
