import Mathlib.Data.List.AList
import Mathlib.Algebra.BigOperators.Group.Finset.Basic
import Mathlib.Data.Finset.Basic
import Mathlib.Tactic

/-! Finite maps with plain (non-dependent) values, on top of Mathlib's association lists. The
order of the entries is whatever the operations left: results are stated through `get?`. -/

structure FiniteMap (κ ν : Type*) where
  alist : AList fun _ : κ => ν

namespace FiniteMap

variable {κ ν : Type*}

def empty : FiniteMap κ ν := ⟨∅⟩

instance : EmptyCollection (FiniteMap κ ν) := ⟨empty⟩

def toList (m : FiniteMap κ ν) : List (κ × ν) := m.alist.entries.map fun e => (e.1, e.2)

def size (m : FiniteMap κ ν) : ℕ := m.alist.entries.length

/-- Keep the entries that satisfy a test. -/
def retain (m : FiniteMap κ ν) (keep : κ → ν → Bool) : FiniteMap κ ν :=
  ⟨⟨m.alist.entries.filter fun e => keep e.1 e.2,
    m.alist.nodupKeys.sublist List.filter_sublist⟩⟩

/-- Apply a function to every value. -/
def mapValues {ν' : Type*} (m : FiniteMap κ ν) (f : ν → ν') : FiniteMap κ ν' :=
  ⟨⟨m.alist.entries.map fun e => ⟨e.1, f e.2⟩, by
    have hkeys := m.alist.nodupKeys
    simp only [List.NodupKeys, List.keys, List.map_map, Function.comp_def] at hkeys ⊢
    exact hkeys⟩⟩

variable [DecidableEq κ]

def get? (m : FiniteMap κ ν) (k : κ) : Option ν := m.alist.lookup k

def contains (m : FiniteMap κ ν) (k : κ) : Bool := (m.get? k).isSome

def insert (m : FiniteMap κ ν) (k : κ) (v : ν) : FiniteMap κ ν := ⟨m.alist.insert k v⟩

def erase (m : FiniteMap κ ν) (k : κ) : FiniteMap κ ν := ⟨m.alist.erase k⟩

/-- Insert pairs one after the other, later ones winning. -/
def extend (m : FiniteMap κ ν) (pairs : List (κ × ν)) : FiniteMap κ ν :=
  pairs.foldl (fun m p => m.insert p.1 p.2) m

def ofList (pairs : List (κ × ν)) : FiniteMap κ ν := extend ∅ pairs

def keys (m : FiniteMap κ ν) : Finset κ := m.alist.keys.toFinset

@[simp] theorem get?_empty (k : κ) : (∅ : FiniteMap κ ν).get? k = none := rfl

theorem get?_insert (m : FiniteMap κ ν) (k k' : κ) (v : ν) :
    (m.insert k v).get? k' = if k' = k then some v else m.get? k' := by
  by_cases h : k' = k
  · subst h
    simp [get?, insert]
  · simp [get?, insert, AList.lookup_insert_ne h, h]

@[simp] theorem get?_insert_self (m : FiniteMap κ ν) (k : κ) (v : ν) :
    (m.insert k v).get? k = some v := by simp [get?_insert]

theorem get?_insert_ne (m : FiniteMap κ ν) {k k' : κ} (h : k' ≠ k) (v : ν) :
    (m.insert k v).get? k' = m.get? k' := by simp [get?_insert, h]

theorem get?_erase (m : FiniteMap κ ν) (k k' : κ) :
    (m.erase k).get? k' = if k' = k then none else m.get? k' := by
  by_cases h : k' = k
  · subst h
    simp [get?, erase]
  · simp [get?, erase, AList.lookup_erase_ne h, h]

theorem get?_erase_some {m : FiniteMap κ ν} {k k' : κ} {v : ν}
    (h : (m.erase k).get? k' = some v) : k' ≠ k ∧ m.get? k' = some v := by
  rw [get?_erase] at h
  split at h
  · cases h
  · exact ⟨‹_›, h⟩

theorem mem_toList {m : FiniteMap κ ν} {k : κ} {v : ν} :
    (k, v) ∈ m.toList ↔ m.get? k = some v := by
  simp only [toList, get?, List.mem_map, Prod.mk.injEq]
  rw [← Option.mem_def, AList.mem_lookup_iff]
  constructor
  · rintro ⟨e, he, rfl, rfl⟩
    exact he
  · intro h
    exact ⟨_, h, rfl, rfl⟩

theorem get?_retain (m : FiniteMap κ ν) (keep : κ → ν → Bool) (k : κ) :
    (m.retain keep).get? k = (m.get? k).filter (keep k) := by
  apply Option.ext
  intro v
  have hmem : ∀ m' : FiniteMap κ ν,
      m'.get? k = some v ↔ (⟨k, v⟩ : Σ _ : κ, ν) ∈ m'.alist.entries :=
    fun m' => AList.mem_lookup_iff
  rw [hmem, retain, List.mem_filter, ← hmem, Option.filter_eq_some_iff]

theorem get?_mapValues {ν' : Type*} (m : FiniteMap κ ν) (f : ν → ν') (k : κ) :
    (m.mapValues f).get? k = (m.get? k).map f := by
  ext v
  rw [← mem_toList, Option.map_eq_some_iff]
  simp only [← mem_toList, toList, mapValues, List.map_map, List.mem_map, Function.comp_apply,
    Prod.mk.injEq]
  constructor
  · rintro ⟨e, he, rfl, rfl⟩
    exact ⟨e.2, ⟨e, he, rfl, rfl⟩, rfl⟩
  · rintro ⟨v', ⟨e, he, rfl, rfl⟩, rfl⟩
    exact ⟨e, he, rfl, rfl⟩

theorem mem_keys {m : FiniteMap κ ν} {k : κ} : k ∈ m.keys ↔ (m.get? k).isSome := by
  rw [keys, List.mem_toFinset, ← AList.mem_keys, ← AList.lookup_isSome, get?]

theorem mem_keys_iff {m : FiniteMap κ ν} {k : κ} : k ∈ m.keys ↔ ∃ v, m.get? k = some v := by
  rw [mem_keys, Option.isSome_iff_exists]

theorem keys_insert (m : FiniteMap κ ν) (k : κ) (v : ν) :
    (m.insert k v).keys = Insert.insert k m.keys := by
  ext k'
  rw [Finset.mem_insert, mem_keys, mem_keys, get?_insert]
  by_cases h : k' = k <;> simp [h]

theorem keys_erase (m : FiniteMap κ ν) (k : κ) : (m.erase k).keys = m.keys.erase k := by
  ext k'
  rw [Finset.mem_erase, mem_keys, mem_keys, get?_erase]
  by_cases h : k' = k <;> simp [h]

theorem card_keys_insert {m : FiniteMap κ ν} {k : κ} (h : m.get? k = none) (v : ν) :
    (m.insert k v).keys.card = m.keys.card + 1 := by
  rw [keys_insert, Finset.card_insert_of_notMem]
  simp [mem_keys, h]

theorem card_keys_erase {m : FiniteMap κ ν} {k : κ} {v : ν} (h : m.get? k = some v) :
    (m.erase k).keys.card + 1 = m.keys.card := by
  rw [keys_erase]
  exact Finset.card_erase_add_one (mem_keys_iff.mpr ⟨v, h⟩)

theorem card_keys (m : FiniteMap κ ν) : m.keys.card = m.size := by
  rw [keys, List.toFinset_card_of_nodup m.alist.keys_nodup]
  exact List.length_map _

/-- A sum over the entries is one over the keys. -/
theorem sum_toList (m : FiniteMap κ ν) (f : ν → ℕ) :
    (m.toList.map fun e => f e.2).sum = ∑ k ∈ m.keys, ((m.get? k).map f).getD 0 := by
  rw [keys, List.sum_toFinset _ m.alist.keys_nodup]
  simp only [toList, AList.keys, List.keys, List.map_map]
  refine congrArg List.sum (List.map_congr_left fun e he => ?_)
  have hget : m.get? e.1 = some e.2 := AList.mem_lookup_iff.mpr he
  simp [hget]

theorem contains_iff {m : FiniteMap κ ν} {k : κ} :
    m.contains k = true ↔ ∃ v, m.get? k = some v := by
  rw [contains, Option.isSome_iff_exists]

theorem contains_eq_false {m : FiniteMap κ ν} {k : κ} :
    m.contains k = false ↔ m.get? k = none := by
  simp [contains]

/-- The last pair for a key decides. -/
theorem get?_extend (m : FiniteMap κ ν) (pairs : List (κ × ν)) (k : κ) :
    (m.extend pairs).get? k =
      ((pairs.reverse.find? fun p => p.1 = k).map Prod.snd).or (m.get? k) := by
  induction pairs generalizing m with
  | nil => simp [extend]
  | cons p ps ih =>
    have hstep : m.extend (p :: ps) = (m.insert p.1 p.2).extend ps := rfl
    rw [hstep, ih, List.reverse_cons, List.find?_append, get?_insert]
    cases hf : ps.reverse.find? fun p => p.1 = k with
    | some q => simp
    | none =>
      by_cases hk : k = p.1
      · simp [hk]
      · simp [hk, Ne.symm hk]

theorem get?_extend_some {m : FiniteMap κ ν} {pairs : List (κ × ν)} {k : κ} {v : ν}
    (h : (m.extend pairs).get? k = some v) : (k, v) ∈ pairs ∨ m.get? k = some v := by
  rw [get?_extend] at h
  cases hf : pairs.reverse.find? fun p => p.1 = k with
  | none =>
    rw [hf] at h
    exact .inr h
  | some pair =>
    rw [hf] at h
    cases h
    have hkey : pair.1 = k := by simpa using List.find?_some hf
    have hmem := List.mem_reverse.mp (List.mem_of_find?_eq_some hf)
    exact .inl (hkey ▸ hmem)

theorem get?_extend_of_notMem (m : FiniteMap κ ν) {pairs : List (κ × ν)} {k : κ}
    (h : ∀ p ∈ pairs, p.1 ≠ k) : (m.extend pairs).get? k = m.get? k := by
  rw [get?_extend, List.find?_eq_none.mpr]
  · rfl
  · intro p hp
    simpa using h p (List.mem_reverse.mp hp)

/-- A fold that inserts items under their keys, and fails at an item that does not pass its check
or whose key is there. -/
theorem foldlM_insert {α ε : Type*} {step : FiniteMap κ ν → α → Except ε (FiniteMap κ ν)}
    (Passes : α → Prop) (key : α → κ) (value : α → ν)
    (hstep : ∀ m a m', step m a = .ok m' ↔
      Passes a ∧ m.get? (key a) = none ∧ m' = m.insert (key a) (value a))
    (items : List α) (m m' : FiniteMap κ ν) :
    items.foldlM step m = .ok m' ↔
      (∀ a ∈ items, Passes a ∧ m.get? (key a) = none) ∧ (items.map key).Nodup ∧
        m' = m.extend (items.map fun a => (key a, value a)) := by
  induction items generalizing m with
  | nil =>
    simp only [List.foldlM_nil, List.map_nil, List.nodup_nil, extend, List.foldl_nil, true_and]
    exact ⟨fun h => ⟨nofun, by cases h; rfl⟩, fun h => by rw [h.2]; rfl⟩
  | cons a items ih =>
    have hfirst : items.foldlM step (m.insert (key a) (value a)) = .ok m' ↔
        (∀ b ∈ items, Passes b ∧ (key a ≠ key b ∧ m.get? (key b) = none)) ∧
          (items.map key).Nodup ∧
          m' = m.extend ((a :: items).map fun b => (key b, value b)) := by
      rw [ih]
      refine and_congr (forall₂_congr fun b _ => and_congr_right' ?_) Iff.rfl
      rw [get?_insert]
      by_cases hkey : key b = key a
      · simp [hkey]
      · simp [hkey, Ne.symm hkey]
    have hcons : (a :: items).foldlM step m = .ok m' ↔
        ∃ m₁, step m a = .ok m₁ ∧ items.foldlM step m₁ = .ok m' := by
      rw [List.foldlM_cons]
      cases hfold : step m a with
      | error e => exact iff_of_false nofun fun ⟨_, h, _⟩ => nomatch h
      | ok m₁ => exact ⟨fun h => ⟨m₁, rfl, h⟩, fun ⟨_, h₁, h⟩ => by cases h₁; exact h⟩
    rw [hcons, List.forall_mem_cons, List.map_cons, List.nodup_cons]
    constructor
    · rintro ⟨m₁, h₁, hrest⟩
      obtain ⟨hpass, hnone, rfl⟩ := (hstep m a m₁).mp h₁
      obtain ⟨hall, hnodup, rfl⟩ := hfirst.mp hrest
      refine ⟨⟨⟨hpass, hnone⟩, fun b hb => ⟨(hall b hb).1, (hall b hb).2.2⟩⟩,
        ⟨fun hmem => ?_, hnodup⟩, rfl⟩
      obtain ⟨b, hb, hkey⟩ := List.mem_map.mp hmem
      exact (hall b hb).2.1 hkey.symm
    · rintro ⟨⟨⟨hpass, hnone⟩, hall⟩, ⟨hnotMem, hnodup⟩, hm⟩
      refine ⟨_, (hstep m a _).mpr ⟨hpass, hnone, rfl⟩, hfirst.mpr ⟨fun b hb => ?_, hnodup, hm⟩⟩
      exact ⟨(hall b hb).1, fun hkey => hnotMem (List.mem_map.mpr ⟨b, hb, hkey.symm⟩),
        (hall b hb).2⟩

/-- When all pairs for a key agree, that value is the one stored. -/
theorem get?_extend_of_mem (m : FiniteMap κ ν) {pairs : List (κ × ν)} {k : κ} {v : ν}
    (hmem : (k, v) ∈ pairs) (huniq : ∀ p ∈ pairs, p.1 = k → p.2 = v) :
    (m.extend pairs).get? k = some v := by
  rw [get?_extend]
  cases hf : pairs.reverse.find? fun p => p.1 = k with
  | none =>
    have := List.find?_eq_none.mp hf (k, v) (List.mem_reverse.mpr hmem)
    simp at this
  | some q =>
    have hq := List.find?_some hf
    have hin := List.mem_reverse.mp (List.mem_of_find?_eq_some hf)
    simp [huniq q hin (by simpa using hq)]

end FiniteMap
