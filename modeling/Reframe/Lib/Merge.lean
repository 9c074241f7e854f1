import Mathlib.Data.List.Basic
import Mathlib.Data.List.Perm.Basic
import Mathlib.Order.Basic
import Mathlib.Tactic.Order

/-! Requests merged into one value: steps that commute and repeat without effect, and entries kept
in the order of their keys. -/
namespace Merge

section Steps

variable {σ α : Type*} {step : σ → α → σ} [RightCommutative step]

theorem foldl_step (xs : List α) (s : σ) (a : α) :
    xs.foldl step (step s a) = step (xs.foldl step s) a := by
  induction xs generalizing s with
  | nil => rfl
  | cons x xs ih =>
    have hswap : step (step s a) x = step (step s x) a := RightCommutative.right_comm s a x
    rw [List.foldl_cons, List.foldl_cons, hswap, ih]

/-- Another request that has been merged already changes nothing. -/
theorem step_foldl_of_mem (hidem : ∀ s a, step (step s a) a = step s a) {xs : List α} {a : α}
    (ha : a ∈ xs) (s : σ) : step (xs.foldl step s) a = xs.foldl step s := by
  induction xs generalizing s with
  | nil => simp at ha
  | cons x xs ih =>
    rcases List.mem_cons.mp ha with rfl | ha
    · rw [List.foldl_cons, foldl_step, hidem]
    · rw [List.foldl_cons]
      exact ih ha (step s x)

theorem foldl_foldl_of_subset (hidem : ∀ s a, step (step s a) a = step s a) {xs ys : List α}
    (h : ys ⊆ xs) (s : σ) : ys.foldl step (xs.foldl step s) = xs.foldl step s := by
  induction ys with
  | nil => rfl
  | cons y ys ih =>
    rw [List.foldl_cons, step_foldl_of_mem hidem (h List.mem_cons_self) s]
    exact ih fun a ha => h (List.mem_cons_of_mem y ha)

/-- Only which requests there are counts, not their order, and not how often each is made. -/
theorem foldl_eq_of_same (hidem : ∀ s a, step (step s a) a = step s a) {xs ys : List α}
    (h : ∀ a, a ∈ xs ↔ a ∈ ys) (s : σ) : xs.foldl step s = ys.foldl step s := by
  have hboth : ys.foldl step (xs.foldl step s) = xs.foldl step (ys.foldl step s) := by
    rw [← List.foldl_append, ← List.foldl_append]
    exact List.perm_append_comm.foldl_eq s
  calc xs.foldl step s = ys.foldl step (xs.foldl step s) :=
        (foldl_foldl_of_subset hidem (fun a => (h a).mpr) s).symm
    _ = xs.foldl step (ys.foldl step s) := hboth
    _ = ys.foldl step s := foldl_foldl_of_subset hidem (fun a => (h a).mp) s

end Steps

section Entries

variable {κ ν : Type*} [LinearOrder κ]

/-- The value under a key, of entries in order of their keys. -/
def find? (key : κ) : List (κ × ν) → Option ν
  | [] => none
  | (k, v) :: rest =>
    if key < k then none else if key = k then some v else find? key rest

/-- A change of the value under a key, which starts as `new`. -/
def upsert (new : ν) (key : κ) (change : ν → ν) : List (κ × ν) → List (κ × ν)
  | [] => [(key, change new)]
  | (k, v) :: rest =>
    if key < k then (key, change new) :: (k, v) :: rest
    else if key = k then (k, change v) :: rest
    else (k, v) :: upsert new key change rest

variable (new : ν) (change : ν → ν)

theorem find?_upsert (key key' : κ) (entries : List (κ × ν)) :
    find? key' (upsert new key change entries) =
      if key' = key then some (change ((find? key entries).getD new)) else find? key' entries := by
  induction entries with
  | nil => grind [find?, upsert]
  | cons entry rest ih =>
    obtain ⟨k, v⟩ := entry
    grind [find?, upsert]

/-- Changes of the value under one key follow each other. -/
theorem upsert_upsert_self (change' : ν → ν) (key : κ) (entries : List (κ × ν)) :
    upsert new key change' (upsert new key change entries) =
      upsert new key (fun v => change' (change v)) entries := by
  induction entries with
  | nil => simp [upsert]
  | cons entry rest ih =>
    obtain ⟨k, v⟩ := entry
    grind [upsert]

/-- Changes under different keys commute. -/
theorem upsert_comm (change' : ν → ν) {key key' : κ} (hne : key ≠ key')
    (entries : List (κ × ν)) :
    upsert new key' change' (upsert new key change entries) =
      upsert new key change (upsert new key' change' entries) := by
  induction entries with
  | nil => grind [upsert]
  | cons entry rest ih =>
    obtain ⟨k, v⟩ := entry
    grind [upsert]

end Entries
end Merge
