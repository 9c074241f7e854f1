import Mathlib.Data.List.Nodup
import Reframe.Lib.FiniteMap

/-! A map from places to the things that are at them, which is kept beside the place of each thing:
what is known at a place is what has that place. Things are moved one at a time, and leave their
places. -/
namespace InverseIndex

variable {κ ι : Type*} [DecidableEq κ]

/-- The map finds a thing at a place exactly when the thing has that place. -/
def Indexes (index : FiniteMap κ ι) (place : ι → Option κ) : Prop :=
  ∀ k i, index.get? k = some i ↔ place i = some k

structure Move (κ ι : Type*) where
  thing : ι
  origin : κ
  target : κ

/-- The entry of the old place is replaced by one for the new place. -/
def apply (index : FiniteMap κ ι) (move : Move κ ι) : FiniteMap κ ι :=
  (index.erase move.origin).insert move.target move.thing

section

variable {index : FiniteMap κ ι} {place : ι → Option κ}

/-- No two things share a place. -/
theorem Indexes.injective (h : Indexes index place) {i j : ι} {k : κ} (hi : place i = some k)
    (hj : place j = some k) : i = j := by
  have hget := (h k i).mpr hi
  rw [(h k j).mpr hj] at hget
  exact (Option.some.inj hget).symm

theorem Indexes.congr (h : Indexes index place) {place' : ι → Option κ}
    (hplace : ∀ i, place' i = place i) : Indexes index place' := fun k i => by
  rw [hplace]
  exact h k i

/-- A thing that has no place yet takes a free one. -/
theorem Indexes.insert [DecidableEq ι] (h : Indexes index place) {k : κ} {i : ι}
    (hi : place i = none) (hfree : ∀ j, place j ≠ some k) :
    Indexes (index.insert k i) (Function.update place i (some k)) := by
  intro k' j
  rw [FiniteMap.get?_insert]
  by_cases hj : j = i
  · subst hj
    rw [Function.update_self]
    by_cases hk : k' = k
    · subst hk
      simp
    · rw [if_neg hk, h k' j, hi]
      simp [Ne.symm hk]
  · rw [Function.update_of_ne hj]
    by_cases hk : k' = k
    · subst hk
      simp [Ne.symm hj, hfree j]
    · rw [if_neg hk, h k' j]

/-- Things that leave their places. -/
theorem Indexes.erase (h : Indexes index place) (k : κ) :
    Indexes (index.erase k) fun i => (place i).filter fun k' => decide (k' ≠ k) := by
  intro k' i
  rw [FiniteMap.get?_erase, Option.filter_eq_some_iff, ← h k' i]
  by_cases hk : k' = k
  · simp [hk]
  · simp [hk]

/-- One move onto a free place. -/
theorem Indexes.apply [DecidableEq ι] (h : Indexes index place) {move : Move κ ι}
    (horigin : place move.thing = some move.origin) (hfree : ∀ j, place j ≠ some move.target) :
    Indexes (apply index move) (Function.update place move.thing (some move.target)) := by
  intro k j
  rw [InverseIndex.apply, FiniteMap.get?_insert, FiniteMap.get?_erase]
  by_cases hj : j = move.thing
  · subst hj
    rw [Function.update_self]
    by_cases hk : k = move.target
    · simp [hk]
    · rw [if_neg hk, Option.some.injEq]
      split_ifs with hold
      · simp [Ne.symm hk]
      · rw [h k move.thing, horigin, Option.some.injEq]
        exact iff_of_false (Ne.symm hold) (Ne.symm hk)
  · rw [Function.update_of_ne hj]
    by_cases hk : k = move.target
    · rw [if_pos hk, hk, Option.some.injEq]
      exact iff_of_false (Ne.symm hj) (hfree j)
    · rw [if_neg hk]
      split_ifs with hold
      · rw [hold]
        exact iff_of_false (by simp) fun hplace => hj (h.injective hplace horigin)
      · exact h k j

/-- The places after the moves. -/
def movedPlace [DecidableEq ι] (place : ι → Option κ) (moves : List (Move κ ι)) : ι → Option κ :=
  moves.foldl (fun place move => Function.update place move.thing (some move.target)) place

omit [DecidableEq κ] in
theorem movedPlace_of_notMem [DecidableEq ι] {moves : List (Move κ ι)} {i : ι} :
    ∀ {place : ι → Option κ}, (∀ move ∈ moves, move.thing ≠ i) →
      movedPlace place moves i = place i := by
  induction moves with
  | nil =>
    intro place _
    rfl
  | cons move moves ih =>
    intro place hne
    rw [movedPlace, List.foldl_cons, ← movedPlace,
      ih fun other hother => hne other (List.mem_cons_of_mem _ hother),
      Function.update_of_ne (hne move List.mem_cons_self).symm]

omit [DecidableEq κ] in
theorem movedPlace_of_mem [DecidableEq ι] {moves : List (Move κ ι)} {move : Move κ ι} :
    ∀ {place : ι → Option κ}, (moves.map Move.thing).Nodup → move ∈ moves →
      movedPlace place moves move.thing = some move.target := by
  induction moves with
  | nil =>
    intro place _ hmem
    cases hmem
  | cons first moves ih =>
    intro place hnodup hmem
    rw [List.map_cons, List.nodup_cons] at hnodup
    rw [movedPlace, List.foldl_cons, ← movedPlace]
    rcases List.mem_cons.mp hmem with rfl | hmem
    · have hother : ∀ other ∈ moves, other.thing ≠ move.thing := fun other hmem heq =>
        hnodup.1 (heq ▸ List.mem_map_of_mem hmem)
      rw [movedPlace_of_notMem hother, Function.update_self]
    · exact ih hnodup.2 hmem

/-- Moves of different things onto different places, all of them free. -/
theorem Indexes.foldl_apply [DecidableEq ι] {moves : List (Move κ ι)} :
    ∀ {index : FiniteMap κ ι} {place : ι → Option κ}, Indexes index place →
      (moves.map Move.thing).Nodup → (moves.map Move.target).Nodup →
      (∀ move ∈ moves, place move.thing = some move.origin) →
      (∀ move ∈ moves, ∀ j, place j ≠ some move.target) →
      Indexes (moves.foldl InverseIndex.apply index) (movedPlace place moves) := by
  induction moves with
  | nil =>
    intro index place h _ _ _ _
    exact h
  | cons move moves ih =>
    intro index place h hthings htargets horigins hfree
    rw [List.map_cons, List.nodup_cons] at hthings htargets
    have hother : ∀ other ∈ moves, other.thing ≠ move.thing := fun other hmem heq =>
      hthings.1 (heq ▸ List.mem_map_of_mem hmem)
    refine ih (h.apply (horigins move List.mem_cons_self) (hfree move List.mem_cons_self)) hthings.2
      htargets.2 (fun other hmem => ?_) fun other hmem j => ?_
    all_goals beta_reduce
    · rw [Function.update_of_ne (hother other hmem)]
      exact horigins other (List.mem_cons_of_mem _ hmem)
    · by_cases hj : j = move.thing
      · subst hj
        rw [Function.update_self, ne_eq, Option.some.injEq]
        intro heq
        exact htargets.1 (heq ▸ List.mem_map_of_mem hmem)
      · rw [Function.update_of_ne hj]
        exact hfree other (List.mem_cons_of_mem _ hmem) j

/-- The moves of a renaming: every thing whose place has a new name goes there. -/
structure Renames (place : ι → Option κ) (f : κ → Option κ) (moves : List (Move κ ι)) :
    Prop where
  nodup : (moves.map Move.thing).Nodup
  mem : ∀ move, move ∈ moves ↔
    place move.thing = some move.origin ∧ f move.origin = some move.target

variable {f : κ → Option κ} {moves : List (Move κ ι)}

omit [DecidableEq κ] in
theorem Renames.movedPlace [DecidableEq ι] (h : Renames place f moves) (i : ι) :
    movedPlace place moves i = (place i).map fun k => (f k).getD k := by
  by_cases hmoved : ∃ move ∈ moves, move.thing = i
  · obtain ⟨move, hmem, rfl⟩ := hmoved
    obtain ⟨hplace, htarget⟩ := (h.mem move).mp hmem
    rw [movedPlace_of_mem h.nodup hmem, hplace, Option.map_some, htarget, Option.getD_some]
  · rw [movedPlace_of_notMem fun move hmem heq => hmoved ⟨move, hmem, heq⟩]
    cases hplace : place i with
    | none => rfl
    | some k =>
      cases htarget : f k with
      | none => rw [Option.map_some, htarget, Option.getD_none]
      | some target =>
        have hmem : ⟨i, k, target⟩ ∈ moves := (h.mem _).mpr ⟨hplace, htarget⟩
        exact absurd ⟨_, hmem, rfl⟩ hmoved

/-- A renaming that gives different names, all of them free. -/
theorem Indexes.rename [DecidableEq ι] (h : Indexes index place) (hmoves : Renames place f moves)
    (hinjective : ∀ k k' target, f k = some target → f k' = some target → k = k')
    (hfree : ∀ k target, f k = some target → ∀ j, place j ≠ some target) :
    Indexes (moves.foldl InverseIndex.apply index)
      fun i => (place i).map fun k => (f k).getD k := by
  have htargets : (moves.map Move.target).Nodup := by
    refine List.Nodup.map_on (fun move hmem move' hmem' heq => ?_)
      (List.Nodup.of_map _ hmoves.nodup)
    obtain ⟨hplace, htarget⟩ := (hmoves.mem move).mp hmem
    obtain ⟨hplace', htarget'⟩ := (hmoves.mem move').mp hmem'
    rw [← heq] at htarget'
    rw [← hinjective _ _ _ htarget htarget'] at hplace'
    exact List.inj_on_of_nodup_map hmoves.nodup hmem hmem' (h.injective hplace hplace')
  refine Indexes.congr (h.foldl_apply hmoves.nodup htargets
    (fun move hmem => ((hmoves.mem move).mp hmem).1)
    fun move hmem => hfree _ _ ((hmoves.mem move).mp hmem).2) fun i => ?_
  exact (hmoves.movedPlace i).symm

end

end InverseIndex
