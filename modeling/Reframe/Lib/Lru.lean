import Mathlib.Algebra.BigOperators.Group.List.Basic
import Mathlib.Data.List.Nodup
import Mathlib.Data.List.Infix
import Mathlib.Tactic

/-! Entries from the least to the most recently used one: what a use does to the order, and what is
evicted to get below a capacity. -/
namespace Lru

variable {κ ν : Type*} {entries : List (κ × ν)} {key : κ} {value : ν}

def find [DecidableEq κ] (entries : List (κ × ν)) (key : κ) : Option ν :=
  (entries.find? fun e => decide (e.1 = key)).map Prod.snd

/-- The key becomes the most recently used one. -/
def use [DecidableEq κ] (key : κ) (value : ν) (entries : List (κ × ν)) : List (κ × ν) :=
  entries.filter (fun e => decide (e.1 ≠ key)) ++ [(key, value)]

def total (size : ν → ℕ) (entries : List (κ × ν)) : ℕ := (entries.map fun e => size e.2).sum

/-- The least recently used entries go until the rest fits. -/
def evict (size : ν → ℕ) (capacity : ℕ) : List (κ × ν) → List (κ × ν)
  | [] => []
  | e :: rest => if total size (e :: rest) ≤ capacity then e :: rest else evict size capacity rest

section

variable (size : ν → ℕ) (capacity : ℕ)

theorem total_cons (e : κ × ν) (rest : List (κ × ν)) :
    total size (e :: rest) = size e.2 + total size rest := rfl

theorem total_perm {entries' : List (κ × ν)} (h : entries.Perm entries') :
    total size entries = total size entries' := (h.map _).sum_eq

theorem evict_suffix (entries : List (κ × ν)) : evict size capacity entries <:+ entries := by
  induction entries with
  | nil => exact List.suffix_refl _
  | cons e rest ih =>
    rw [evict]
    split_ifs with hfits
    · exact List.suffix_refl _
    · exact ih.trans (List.suffix_cons e rest)

theorem total_evict_le (entries : List (κ × ν)) :
    total size (evict size capacity entries) ≤ capacity := by
  induction entries with
  | nil => exact Nat.zero_le _
  | cons e rest ih =>
    rw [evict]
    split_ifs with hfits
    · exact hfits
    · exact ih

theorem evict_of_fits (h : total size entries ≤ capacity) :
    evict size capacity entries = entries := by
  cases entries with
  | nil => rfl
  | cons e rest => rw [evict, if_pos h]

end

variable [DecidableEq κ]

theorem find_eq_some (h : (entries.map Prod.fst).Nodup) :
    find entries key = some value ↔ (key, value) ∈ entries := by
  rw [find, Option.map_eq_some_iff]
  constructor
  · rintro ⟨e, hfind, rfl⟩
    have hkey : e.1 = key := by simpa using List.find?_some hfind
    subst hkey
    exact List.mem_of_find?_eq_some hfind
  · intro hmem
    cases hfind : entries.find? fun e => decide (e.1 = key) with
    | none => exact absurd (List.find?_eq_none.mp hfind _ hmem) (by simp)
    | some e =>
      have hkey : e.1 = key := by simpa using List.find?_some hfind
      have hsame : e = (key, value) :=
        List.inj_on_of_nodup_map h (List.mem_of_find?_eq_some hfind) hmem hkey
      exact ⟨e, rfl, by rw [hsame]⟩

theorem find_eq_none : find entries key = none ↔ ∀ value, (key, value) ∉ entries := by
  rw [find, Option.map_eq_none_iff, List.find?_eq_none]
  constructor
  · intro h value hmem
    exact h _ hmem (by simp)
  · rintro h ⟨key', value⟩ hmem hkey
    obtain rfl : key' = key := of_decide_eq_true hkey
    exact h value hmem

theorem mem_use {e : κ × ν} :
    e ∈ use key value entries ↔ e = (key, value) ∨ e ∈ entries ∧ e.1 ≠ key := by
  simp [use, or_comm]

theorem nodup_use (h : (entries.map Prod.fst).Nodup) :
    ((use key value entries).map Prod.fst).Nodup := by
  rw [use, List.map_append]
  refine List.nodup_append.mpr ⟨(List.filter_sublist.map Prod.fst).nodup h, by simp, ?_⟩
  rintro a ha b hb rfl
  obtain ⟨e, he, rfl⟩ := List.mem_map.mp ha
  have hne := of_decide_eq_true (List.mem_filter.mp he).2
  exact hne (List.mem_singleton.mp hb)

/-- A new key adds its size. -/
theorem total_use_new (size : ν → ℕ) (h : ∀ value, (key, value) ∉ entries) :
    total size (use key value entries) = total size entries + size value := by
  have hfilter : entries.filter (fun e => decide (e.1 ≠ key)) = entries :=
    List.filter_eq_self.mpr fun e he => by
      have hne : e.1 ≠ key := fun hkey => h e.2 (by rwa [← hkey])
      simpa using hne
  rw [use, hfilter, total, total, List.map_append, List.sum_append]
  simp

/-- An entry that is used again is only moved. -/
theorem use_perm (h : (entries.map Prod.fst).Nodup) (hmem : (key, value) ∈ entries) :
    (use key value entries).Perm entries := by
  refine (List.perm_ext_iff_of_nodup (nodup_use h).of_map h.of_map).mpr fun e => ?_
  rw [mem_use]
  constructor
  · rintro (rfl | ⟨he, -⟩)
    · exact hmem
    · exact he
  · intro he
    by_cases hkey : e.1 = key
    · exact .inl (List.inj_on_of_nodup_map h he hmem hkey)
    · exact .inr ⟨he, hkey⟩

end Lru
