import Reframe.Vfs.InodeTable

/-! The inode table seen from outside: which path a number stands for, as long as there are numbers
left to give out. -/
namespace UnixVfs
open InverseIndex (Indexes)

namespace InodeTable

variable {t t' : InodeTable} {path : String} {i : ℕ}

/-- The index follows the places, and numbers from the next one on are not given out yet. -/
structure Numbered (t : InodeTable) : Prop where
  indexes : Indexes t.byPath t.place
  given : ∀ i entry, t.byInode.get? i = some entry → i < t.next ∧ entry.generation = i

/-- The path has a number: the one it had, or a new one. -/
structure Gives (t : InodeTable) (path : String) (t' : InodeTable) (i : ℕ) : Prop where
  numbered : t'.Numbered
  place : t'.place = Function.update t.place i (some path)
  before : t.place i = some path ∨ t.next ≤ i ∧ ∀ j, t.place j ≠ some path
  next : t.next ≤ t'.next ∧ t'.next ≤ t.next + 1 ∧ i < t'.next

theorem Numbered.place_lt (h : t.Numbered) (hplace : t.place i = some path) : i < t.next := by
  obtain ⟨entry, hentry, -, -⟩ := place_eq_some.mp hplace
  exact (h.given i entry hentry).1

theorem new_numbered : new.Numbered := by
  have hget : ∀ i, new.byInode.get? i = if i = 1 then some ⟨"", 1, 0, true⟩ else none := by
    intro i
    rw [new, rootInode, InodeTable.insert]
    exact FiniteMap.get?_insert _ _ _ _
  have hplace : ∀ i, new.place i = if i = 1 then some "" else none := by
    intro i
    rw [place, hget]
    split_ifs <;> rfl
  refine ⟨fun path i => ?_, fun i entry hentry => ?_⟩
  · rw [hplace, new, rootInode, InodeTable.insert]
    change ((∅ : FiniteMap String ℕ).insert "" 1).get? path = _ ↔ _
    rw [FiniteMap.get?_insert]
    by_cases hpath : path = ""
    · rw [if_pos hpath, hpath]
      constructor
      · intro h
        rw [if_pos (Option.some.inj h).symm]
      · intro h
        split_ifs at h with hi
        rw [hi]
    · rw [if_neg hpath]
      constructor
      · intro h
        cases h
      · intro h
        split_ifs at h
        exact absurd (Option.some.inj h).symm hpath
  · rw [hget] at hentry
    split_ifs at hentry with hi
    cases hentry
    rw [hi]
    exact ⟨show 1 < 2 by decide, rfl⟩

/-- A path that is known keeps its number, and any other gets the next one. -/
theorem Numbered.ensure (h : t.Numbered) (hroom : t.next < u64Max) (path : String) :
    t.Gives path (t.ensure path).1 (t.ensure path).2 := by
  rw [InodeTable.ensure]
  cases hpath : t.byPath.get? path with
  | some i =>
    have hplace := (h.indexes path i).mp hpath
    refine ⟨h, ?_, .inl hplace, le_refl _, Nat.le_succ _, h.place_lt hplace⟩
    rw [← hplace, Function.update_eq_self]
  | none =>
    have hfresh : t.byInode.get? t.next = none := by
      by_contra hsome
      obtain ⟨entry, hentry⟩ := Option.ne_none_iff_exists'.mp hsome
      exact lt_irrefl _ (h.given _ entry hentry).1
    have hfree : ∀ j, t.place j ≠ some path := fun j hplace => by
      rw [(h.indexes path j).mpr hplace] at hpath
      cases hpath
    have hnext : min (t.next + 1) u64Max = t.next + 1 := Nat.min_eq_left hroom
    dsimp only [InodeTable.insert]
    have hget : ∀ i, (t.byInode.insert t.next ⟨path, t.next, 0, true⟩).get? i =
        if i = t.next then some ⟨path, t.next, 0, true⟩ else t.byInode.get? i :=
      fun i => FiniteMap.get?_insert _ _ _ _
    have hplace : ∀ i, InodeTable.place ⟨min (t.next + 1) u64Max, t.byPath.insert path t.next,
        t.byInode.insert t.next ⟨path, t.next, 0, true⟩⟩ i =
          Function.update t.place t.next (some path) i := by
      intro i
      rw [InodeTable.place, hget]
      by_cases hi : i = t.next
      · rw [if_pos hi, hi, Function.update_self]
        rfl
      · rw [if_neg hi, Function.update_of_ne hi]
        rfl
    refine ⟨⟨(h.indexes.insert (place_eq_none hfresh) hfree).congr hplace, fun i entry hentry => ?_⟩,
      funext hplace, .inr ⟨le_refl _, hfree⟩, ?_⟩
    · dsimp only at hentry ⊢
      rw [hget] at hentry
      rw [hnext]
      split_ifs at hentry with hi
      · cases hentry
        rw [hi]
        exact ⟨Nat.lt_succ_self _, rfl⟩
      · obtain ⟨hlt, hgeneration⟩ := h.given i entry hentry
        exact ⟨hlt.trans (Nat.lt_succ_self _), hgeneration⟩
    · dsimp only
      rw [hnext]
      exact ⟨Nat.le_succ _, le_refl _, Nat.lt_succ_self _⟩

/-- Entries that change in their counts only. -/
theorem Numbered.recount (h : t.Numbered) {i : ℕ} {entry : InodeEntry}
    (hentry : t.byInode.get? i = some entry) (entry' : InodeEntry)
    (hgeneration : entry'.generation = entry.generation) (hpath : entry'.path = entry.path)
    (hlinked : entry'.linked = entry.linked) :
    ({ t with byInode := t.byInode.insert i entry' } : InodeTable).Numbered ∧
      InodeTable.place { t with byInode := t.byInode.insert i entry' } = t.place := by
  have hplace : ∀ j, InodeTable.place { t with byInode := t.byInode.insert i entry' } j =
      t.place j := by
    intro j
    rw [InodeTable.place, InodeTable.place, FiniteMap.get?_insert]
    split_ifs with hj
    · rw [hj, hentry, Option.bind_some, Option.bind_some, hpath, hlinked]
    · rfl
  refine ⟨⟨h.indexes.congr hplace, fun j other hother => ?_⟩, funext hplace⟩
  dsimp only at hother
  rw [FiniteMap.get?_insert] at hother
  split_ifs at hother with hj
  · cases hother
    obtain ⟨hlt, hsame⟩ := h.given i entry hentry
    rw [hj]
    exact ⟨hlt, hgeneration.trans hsame⟩
  · exact h.given j other hother

/-- A lookup is counted for the number of the path, which is its generation as well. -/
theorem Numbered.recordLookup (h : t.Numbered) (hroom : t.next < u64Max) (path : String) :
    ∃ t' i, t.recordLookup path = (t', some (i, i)) ∧ t.Gives path t' i ∧
      t'.next = (t.ensure path).1.next ∧ i = (t.ensure path).2 := by
  have hgives := h.ensure hroom path
  have hplaced : (t.ensure path).1.place (t.ensure path).2 = some path := by
    rw [hgives.place, Function.update_self]
  obtain ⟨entry, hentry, hlinked, hpath⟩ := place_eq_some.mp hplaced
  obtain ⟨-, hgeneration⟩ := hgives.numbered.given _ entry hentry
  obtain ⟨hnumbered, hplace⟩ := hgives.numbered.recount hentry
    { entry with lookupCount := min (entry.lookupCount + 1) u64Max } rfl rfl rfl
  refine ⟨_, _, ?_, ⟨hnumbered, hplace.trans hgives.place, hgives.before, hgives.next⟩, rfl, rfl⟩
  rw [InodeTable.recordLookup]
  dsimp only
  rw [hentry]
  dsimp only
  rw [hgeneration]

theorem Numbered.forget (h : t.Numbered) (inode count : ℕ) :
    (t.forget inode count).Numbered ∧ (t.forget inode count).place = t.place ∧
      (t.forget inode count).next = t.next := by
  rw [InodeTable.forget]
  split_ifs with hroot
  · exact ⟨h, rfl, rfl⟩
  · cases hentry : t.byInode.get? inode with
    | none => exact ⟨h, rfl, rfl⟩
    | some entry =>
      dsimp only
      split_ifs with hlast
      · rw [Bool.and_eq_true, Bool.not_eq_true'] at hlast
        have hplace : ∀ i, InodeTable.place { t with byInode := t.byInode.erase inode } i =
            t.place i := by
          intro i
          rw [InodeTable.place, InodeTable.place, FiniteMap.get?_erase]
          split_ifs with hi
          · rw [hi, hentry, Option.bind_some, hlast.1]
            rfl
          · rfl
        refine ⟨⟨h.indexes.congr hplace, fun i other hother => ?_⟩, funext hplace, rfl⟩
        exact h.given i other (FiniteMap.get?_erase_some hother).2
      · obtain ⟨hnumbered, hplace⟩ := h.recount hentry
          { entry with lookupCount := entry.lookupCount - count } rfl rfl rfl
        exact ⟨hnumbered, hplace, rfl⟩

theorem Numbered.removePath (h : t.Numbered) (hpath : path ≠ "") :
    (t.removePath path).Numbered ∧ (t.removePath path).next = t.next ∧
      (t.removePath path).place = fun i =>
        (t.place i).filter fun other => !sameOrDescendant other path := by
  obtain ⟨hnext, hindexes, hget⟩ := removePath_spec h.indexes hpath
  refine ⟨⟨hindexes, fun i entry hentry => ?_⟩, hnext, funext fun i => ?_⟩
  · rw [hget] at hentry
    rw [hnext]
    split_ifs at hentry
    · obtain ⟨old, hold, hdropped⟩ := Option.bind_eq_some_iff.mp hentry
      rw [dropLink] at hdropped
      split_ifs at hdropped
      cases hdropped
      exact h.given i old hold
    · exact h.given i entry hentry
  · cases hplace : t.place i with
    | none =>
      refine Option.eq_none_iff_forall_ne_some.mpr fun other hother => ?_
      have hold := (place_removePath h.indexes hpath hother).1
      rw [hplace] at hold
      cases hold
    | some other =>
      have hbelow : t.linkedBelow path i = sameOrDescendant other path := by
        rw [linkedBelow, hplace, Option.any_some]
      rw [Option.filter_some, place, hget, hbelow]
      cases hsame : sameOrDescendant other path with
      | false => exact hplace
      | true =>
        obtain ⟨entry, hentry, -, -⟩ := place_eq_some.mp hplace
        have hgone : ¬(!true) = true := Bool.false_ne_true
        rw [if_pos rfl, if_neg hgone, hentry, Option.bind_some, dropLink]
        split_ifs <;> rfl

theorem Numbered.movePath (h : t.Numbered) (source : String) {destination : String}
    (hdestination : destination ≠ "") :
    (t.movePath source destination).Numbered ∧ (t.movePath source destination).next = t.next ∧
      (t.movePath source destination).place = fun i =>
        ((t.place i).filter fun other => !sameOrDescendant other destination).map
          fun path => (renamedPath path source destination).getD path := by
  obtain ⟨hremoved, hnext', hplace⟩ := h.removePath hdestination
  obtain ⟨hnext, hindexes, hget⟩ := movePath_spec source h.indexes hdestination
  have hrenamed : ∀ entry, (renamedEntry source destination entry).generation = entry.generation ∧
      (renamedEntry source destination entry).linked = entry.linked := by
    intro entry
    rw [renamedEntry]
    split_ifs <;> exact ⟨rfl, rfl⟩
  refine ⟨⟨hindexes, fun i entry hentry => ?_⟩, hnext, funext fun i => ?_⟩
  · rw [hget] at hentry
    obtain ⟨old, hold, rfl⟩ := Option.map_eq_some_iff.mp hentry
    obtain ⟨hlt, hgeneration⟩ := hremoved.given i old hold
    rw [hnext, ← hnext', (hrenamed old).1]
    exact ⟨hlt, hgeneration⟩
  · rw [← congrFun hplace i, place, hget, place]
    cases (t.removePath destination).byInode.get? i with
    | none => rfl
    | some entry =>
      rw [Option.map_some, Option.bind_some, Option.bind_some, (hrenamed entry).2]
      cases hlinked : entry.linked with
      | false => rfl
      | true =>
        rw [if_pos rfl, if_pos rfl, Option.map_some, renamedEntry, if_pos hlinked]

end InodeTable

end UnixVfs
