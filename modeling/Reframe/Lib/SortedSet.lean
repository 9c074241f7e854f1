import Mathlib.Data.Finset.Basic
import Mathlib.Data.List.Sort
import Mathlib.Tactic

/-! The elements of a finite set in increasing order, by an insertion sort that evaluates. -/
namespace SortedSet

variable {α β : Type*} [LinearOrder α]

/-- A sorted, duplicate-free list is determined by its elements. -/
theorem eq_of_mem_iff {xs ys : List α} (hx : xs.Pairwise (· < ·)) (hy : ys.Pairwise (· < ·))
    (h : ∀ a, a ∈ xs ↔ a ∈ ys) : xs = ys := by
  have hperm : xs.Perm ys := (List.perm_ext_iff_of_nodup (hx.imp ne_of_lt)
    (hy.imp ne_of_lt)).mpr h
  exact hperm.eq_of_pairwise (fun a b _ _ hab hba => absurd hab hba.asymm) hx hy

def toSorted (s : Finset α) : List α :=
  Quot.liftOn s.1 (List.insertionSort (· ≤ ·)) fun xs ys (h : xs.Perm ys) =>
    ((List.perm_insertionSort _ xs).trans (h.trans (List.perm_insertionSort _ ys).symm)
      ).eq_of_pairwise (fun _ _ _ _ => le_antisymm)
      (List.pairwise_insertionSort _ xs) (List.pairwise_insertionSort _ ys)

@[simp] theorem mem_toSorted {s : Finset α} {a : α} : a ∈ toSorted s ↔ a ∈ s := by
  obtain ⟨⟨xs⟩, hs⟩ := s
  exact (List.perm_insertionSort (· ≤ ·) xs).mem_iff

theorem toSorted_sorted (s : Finset α) : (toSorted s).Pairwise (· < ·) := by
  obtain ⟨⟨xs⟩, hs⟩ := s
  have hnodup : (List.insertionSort (· ≤ ·) xs).Nodup :=
    (List.perm_insertionSort (· ≤ ·) xs).nodup_iff.mpr hs
  exact (List.pairwise_insertionSort (· ≤ ·) xs).and hnodup |>.imp
    fun h => lt_of_le_of_ne h.1 h.2

theorem filter_toSorted (s : Finset α) (p : α → Bool) :
    (toSorted s).filter p = toSorted (s.filter (p ·)) := by
  apply eq_of_mem_iff ((toSorted_sorted s).filter p) (toSorted_sorted _)
  intro a
  simp

/-- Two sets that agree wherever `f` has a value give the same sorted values. -/
theorem filterMap_toSorted_congr {s t : Finset α} {f : α → Option β}
    (h : ∀ a, (f a).isSome → (a ∈ s ↔ a ∈ t)) :
    (toSorted s).filterMap f = (toSorted t).filterMap f := by
  have hfilter : ∀ u : Finset α,
      (toSorted u).filterMap f = (toSorted (u.filter fun a => (f a).isSome)).filterMap f := by
    intro u
    rw [← filter_toSorted u fun a => (f a).isSome, List.filterMap_filter]
    apply List.filterMap_congr
    intro a _
    cases f a <;> rfl
  rw [hfilter s, hfilter t]
  congr 2
  ext a
  simp only [Finset.mem_filter]
  constructor
  · rintro ⟨ha, hf⟩
    exact ⟨(h a hf).mp ha, hf⟩
  · rintro ⟨ha, hf⟩
    exact ⟨(h a hf).mpr ha, hf⟩

end SortedSet
