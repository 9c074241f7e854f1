import Reframe.Lib.Run
import Reframe.Workspace.ResidentWorkspace

/-! The journal invariant: every path outside the dirty set is settled, that is, equal to its
baseline and with its file's flag down. Each operation preserves it; two of them only under a
condition on the state they are called in. -/
namespace Workspace
open NormalizedPath

variable [Blake3]

namespace ResidentState

/-- The path does not differ from the baseline and its file's flag is down. -/
def Settled (s : ResidentState) (p : NormalizedPath) : Prop :=
  s.changeFor p = none ∧ ∀ id, s.files.get? p = some id → (s.heap id).dirty = false

structure JournalInv (s : ResidentState) : Prop where
  fresh : ∀ p id, s.files.get? p = some id → id < s.nextFile
  linked : ∀ p q id, s.files.get? p = some id → s.files.get? q = some id → p = q
  index : s.baselineDirectories = Workspace.baselineDirectories s.baseline
  settled : ∀ p ∉ s.dirty, s.Settled p

/-- Nothing that is read at `p` has changed. -/
structure Untouched (s s' : ResidentState) (p : NormalizedPath) : Prop where
  files : s'.files.get? p = s.files.get? p
  heap : ∀ id, s.files.get? p = some id → s'.heap id = s.heap id
  directories : p ∈ s'.directories ↔ p ∈ s.directories
  baseline : s'.baseline.get? p = s.baseline.get? p
  index : p ∈ s'.baselineDirectories ↔ p ∈ s.baselineDirectories

theorem Untouched.fileAt {s s' : ResidentState} {p : NormalizedPath} (h : Untouched s s' p) :
    s'.fileAt p = s.fileAt p := by
  unfold ResidentState.fileAt
  rw [h.files]
  cases hp : s.files.get? p with
  | none => rfl
  | some id => simp [h.heap id hp]

theorem Untouched.changeFor {s s' : ResidentState} {p : NormalizedPath} (h : Untouched s s' p) :
    s'.changeFor p = s.changeFor p := by
  unfold ResidentState.changeFor
  rw [h.fileAt, h.baseline, decide_eq_decide.mpr h.directories, decide_eq_decide.mpr h.index]

theorem Untouched.settled {s s' : ResidentState} {p : NormalizedPath} (h : Untouched s s' p)
    (hs : s.Settled p) : s'.Settled p := by
  refine ⟨h.changeFor.trans hs.1, fun id hid => ?_⟩
  rw [h.files] at hid
  rw [h.heap id hid]
  exact hs.2 id hid

/-- An operation may only drop a path from the dirty set if it settles it, and must add every
path it touches. -/
theorem JournalInv.step {s s' : ResidentState} (h : s.JournalInv)
    (hfresh : ∀ p id, s'.files.get? p = some id → id < s'.nextFile)
    (hlinked : ∀ p q id, s'.files.get? p = some id → s'.files.get? q = some id → p = q)
    (hindex : s'.baselineDirectories = Workspace.baselineDirectories s'.baseline)
    (hpaths : ∀ p ∉ s'.dirty, p ∉ s.dirty ∧ Untouched s s' p ∨ s'.Settled p) :
    s'.JournalInv where
  fresh := hfresh
  linked := hlinked
  index := hindex
  settled p hp := by
    rcases hpaths p hp with ⟨hold, hu⟩ | hs
    · exact hu.settled (h.settled p hold)
    · exact hs

/-- The same files and records, up to what `Untouched` reads: enough for most operations. -/
theorem JournalInv.step_same_links {s s' : ResidentState} (h : s.JournalInv)
    (hfiles : s'.files = s.files) (hnext : s'.nextFile = s.nextFile)
    (hbase : s'.baseline = s.baseline)
    (hindex : s'.baselineDirectories = s.baselineDirectories)
    (hpaths : ∀ p ∉ s'.dirty, p ∉ s.dirty ∧ Untouched s s' p ∨ s'.Settled p) :
    s'.JournalInv :=
  h.step (by rw [hfiles, hnext]; exact h.fresh) (by rw [hfiles]; exact h.linked)
    (by rw [hindex, hbase]; exact h.index) hpaths

theorem changeFor_isSome_mem {s : ResidentState} {p : NormalizedPath}
    (h : (s.changeFor p).isSome) : p ∈ s.allPaths := by
  simp only [allPaths, Finset.mem_union, FiniteMap.mem_keys]
  by_contra hp
  simp only [not_or, Bool.not_eq_true, Option.isSome_eq_false_iff, Option.isNone_iff_eq_none] at hp
  simp [changeFor, changeOf, fileAt, hp.1.1, hp.1.2, hp.2] at h

/-- The full difference between the resident tree and the baseline, in path order. -/
def fullDifference (s : ResidentState) : List Change :=
  (SortedSet.toSorted s.allPaths).filterMap s.changeFor

theorem JournalInv.filterMap_dirty {s : ResidentState} (h : s.JournalInv) :
    (SortedSet.toSorted s.dirty).filterMap s.changeFor = s.fullDifference := by
  apply SortedSet.filterMap_toSorted_congr
  intro p hp
  refine ⟨fun _ => changeFor_isSome_mem hp, fun _ => ?_⟩
  by_contra hd
  rw [(h.settled p hd).1] at hp
  cases hp

/-! Small steps. -/

theorem setFile_untouched {s : ResidentState} {p : NormalizedPath} {id : FileId}
    (file : ResidentFile) (h : s.files.get? p ≠ some id) : Untouched s (s.setFile id file) p where
  files := rfl
  heap id' hid := by
    simp only [setFile]
    rw [Function.update_of_ne]
    rintro rfl
    exact h hid
  directories := Iff.rfl
  baseline := rfl
  index := Iff.rfl

theorem mem_ensureParentDirectories {s : ResidentState} {path p : NormalizedPath}
    (h : p ∉ (s.ensureParentDirectories path).2) :
    p ∈ (s.ensureParentDirectories path).1.directories ↔ p ∈ s.directories := by
  simp only [ensureParentDirectories, Finset.mem_union, List.mem_toFinset] at h ⊢
  tauto

theorem mem_markSubtreeDirty {s : ResidentState} {root p : NormalizedPath} :
    p ∈ (s.markSubtreeDirty root).dirty ↔
      p = root ∨ p ∈ s.dirty ∨ p ∈ s.allPaths ∧ p.IsWithin root := by
  simp [markSubtreeDirty, sameOrDescendant_iff]

/-- A path outside the tree and the baseline has nothing to journal. -/
theorem settled_of_absent {s : ResidentState} {p : NormalizedPath} (h : p ∉ s.allPaths) :
    s.Settled p := by
  have hnone : s.changeFor p = none := by
    by_contra hc
    exact h (changeFor_isSome_mem (Option.isSome_iff_ne_none.mpr hc))
  refine ⟨hnone, fun id hid => ?_⟩
  refine absurd ?_ h
  simp [allPaths, FiniteMap.mem_keys, hid]

/-- Two paths that share an object are one path, so another path's object is another object. -/
theorem JournalInv.ne_of_linked {s : ResidentState} (h : s.JournalInv) {p q : NormalizedPath}
    {id : FileId} (hq : s.files.get? q = some id) (hne : p ≠ q) : s.files.get? p ≠ some id :=
  fun hp => hne (h.linked p q id hp hq)

theorem JournalInv.replaceFile {s : ResidentState} (h : s.JournalInv) (path : NormalizedPath)
    (bytes : List UInt8) : (s.replaceFile path bytes).1.JournalInv := by
  cases hf : s.files.get? path with
  | some id =>
    apply h.step_same_links <;> simp only [ResidentState.replaceFile, hf] <;> try rfl
    intro p hp
    simp only [ensureParentDirectories, setFile, Finset.mem_insert, Finset.mem_union,
      List.mem_toFinset, not_or] at hp
    refine .inl ⟨hp.2.1, rfl, fun id' hid => ?_, ?_, rfl, Iff.rfl⟩
    · apply Function.update_of_ne
      rintro rfl
      exact h.ne_of_linked hf hp.1 hid
    · exact (mem_ensureParentDirectories hp.2.2).trans (by simp [hp.1, setFile])
  | none =>
    have hnew : ∀ q id, s.files.get? q = some id → id ≠ s.nextFile := fun q id hq =>
      Nat.ne_of_lt (h.fresh q id hq)
    apply h.step <;> simp only [ResidentState.replaceFile, hf]
    · intro p id hp
      simp only [ensureParentDirectories, linkNew, FiniteMap.get?_insert] at hp ⊢
      split at hp
      · cases hp
        exact Nat.lt_succ_self _
      · exact Nat.lt_succ_of_lt (h.fresh p id hp)
    · intro p q id hp hq
      simp only [ensureParentDirectories, linkNew, FiniteMap.get?_insert] at hp hq
      split at hp <;> split at hq
      · simp_all
      · cases hp
        exact absurd rfl (hnew q _ hq)
      · cases hq
        exact absurd rfl (hnew p _ hp)
      · exact h.linked p q id hp hq
    · exact h.index
    · intro p hp
      simp only [ensureParentDirectories, linkNew, Finset.mem_insert, Finset.mem_union,
        List.mem_toFinset, not_or] at hp
      refine .inl ⟨hp.2.1, ?_, fun id' hid => ?_, ?_, rfl, Iff.rfl⟩
      · exact FiniteMap.get?_insert_ne _ hp.1 _
      · exact Function.update_of_ne (hnew p id' hid) _ _
      · exact (mem_ensureParentDirectories hp.2.2).trans (by simp [hp.1, linkNew])

/-- An operation on directories alone that journals every directory it adds or drops. -/
theorem JournalInv.step_directories {s s' : ResidentState} (h : s.JournalInv)
    (hfiles : s'.files = s.files) (hheap : s'.heap = s.heap) (hnext : s'.nextFile = s.nextFile)
    (hbase : s'.baseline = s.baseline) (hindex : s'.baselineDirectories = s.baselineDirectories)
    (hdir : ∀ p ∉ s'.dirty, p ∉ s.dirty ∧ (p ∈ s'.directories ↔ p ∈ s.directories)) :
    s'.JournalInv :=
  h.step_same_links hfiles hnext hbase hindex fun p hp => .inl ⟨(hdir p hp).1, by rw [hfiles],
    fun id _ => by rw [hheap], (hdir p hp).2, by rw [hbase], by rw [hindex]⟩

/-- A change of one object's content: its path is dirty afterwards, because either this call
raised the flag or the flag was up already. -/
theorem JournalInv.storeContent {s : ResidentState} (h : s.JournalInv) {path : NormalizedPath}
    {id : FileId} (hf : s.files.get? path = some id) {file : ResidentFile}
    (hflag : file.dirty = (s.heap id).dirty) :
    (if file.markDirty.1 then
      { s.setFile id file.markDirty.2 with dirty := insert path s.dirty }
      else s.setFile id file.markDirty.2).JournalInv := by
  have hother : ∀ p, p ≠ path → Untouched s (s.setFile id file.markDirty.2) p := fun p hp =>
    setFile_untouched _ (h.ne_of_linked hf hp)
  split
  next hfirst =>
    refine h.step_same_links rfl rfl rfl rfl ?_
    intro p hp
    simp only [Finset.mem_insert, not_or] at hp
    have hu := hother p hp.1
    exact .inl ⟨hp.2, hu.files, hu.heap, hu.directories, hu.baseline, hu.index⟩
  next hfirst =>
    refine h.step_same_links rfl rfl rfl rfl ?_
    intro p hp
    refine .inl ⟨hp, hother p ?_⟩
    rintro rfl
    have := (h.settled p hp).2 id hf
    simp [ResidentFile.markDirty, hflag, this] at hfirst

theorem JournalInv.setFile_unlinked {s : ResidentState} (h : s.JournalInv) {id : FileId}
    (hf : ∀ p, s.files.get? p ≠ some id) (file : ResidentFile) : (s.setFile id file).JournalInv :=
  h.step_same_links rfl rfl rfl rfl fun p hp => .inl ⟨hp, setFile_untouched file (hf p)⟩

/-- Dropping a linked file journals the removal only through the baseline, so a path that is
also a directory must not become a change by losing its file. -/
def RemovalJournaled (s : ResidentState) (path : NormalizedPath) : Prop :=
  (s.files.get? path).isSome → path ∈ s.directories →
    (s.baseline.get? path).isSome ∨ path ∈ s.baselineDirectories

instance (s : ResidentState) (path : NormalizedPath) : Decidable (s.RemovalJournaled path) :=
  inferInstanceAs (Decidable (_ → _ → _))

/-- A path that is journaled as removed, in a state with no file there. -/
theorem settled_of_journalRemoval {s' : ResidentState} {path : NormalizedPath}
    (hfiles : s'.files.get? path = none) (hbase : s'.baseline.get? path = none)
    (hdir : path ∈ s'.directories → path ∈ s'.baselineDirectories) : s'.Settled path := by
  refine ⟨?_, fun id hid => by rw [hfiles] at hid; cases hid⟩
  simp only [ResidentState.changeFor, ResidentState.fileAt, hfiles, hbase, Option.map_none,
    changeOf, Option.isSome_none]
  by_cases hd : path ∈ s'.directories
  · simp [hd, hdir hd]
  · simp [hd]

theorem JournalInv.removePath {s : ResidentState} (h : s.JournalInv) {path : NormalizedPath}
    (hc : s.RemovalJournaled path) : (s.removePath path).1.JournalInv := by
  cases hf : s.files.get? path with
  | some id =>
    have hother : ∀ p, p ≠ path → (s.files.erase path).get? p = s.files.get? p := fun p hp => by
      rw [FiniteMap.get?_erase, if_neg hp]
    apply h.step <;> simp only [ResidentState.removePath, hf, journalRemoval]
    · exact fun p id hp => h.fresh p id (FiniteMap.get?_erase_some hp).2
    · exact fun p q id hp hq => h.linked p q id (FiniteMap.get?_erase_some hp).2 (FiniteMap.get?_erase_some hq).2
    · exact h.index
    · intro p hp
      by_cases hpath : p = path
      · subst hpath
        refine .inr (settled_of_journalRemoval ?_ ?_ fun hd => ?_)
        · simp [FiniteMap.get?_erase]
        · by_contra hb
          simp [FiniteMap.contains, Option.isSome_iff_ne_none.mpr hb] at hp
        · rcases hc (by simp [hf]) hd with hb | hi
          · simp [FiniteMap.contains, hb] at hp
          · exact hi
      · refine .inl ⟨?_, hother p hpath, fun _ _ => rfl, Iff.rfl, rfl, Iff.rfl⟩
        split at hp
        · exact fun hd => hp (Finset.mem_insert_of_mem hd)
        · exact fun hd => hp (Finset.mem_erase.mpr ⟨hpath, hd⟩)
  | none =>
    by_cases hdir : path ∈ s.directories
    · have hwithin : ∀ p, p ∉ (s.markSubtreeDirty path).dirty → p ∈ s.allPaths →
          ¬p.IsWithin path := fun p hp ha hw => hp (mem_markSubtreeDirty.mpr (.inr (.inr ⟨ha, hw⟩)))
      apply h.step <;> simp only [ResidentState.removePath, hf, hdir, not_true, if_false]
      · intro p id hp
        rw [FiniteMap.get?_retain, Option.filter_eq_some_iff] at hp
        exact h.fresh p id hp.1
      · intro p q id hp hq
        rw [FiniteMap.get?_retain, Option.filter_eq_some_iff] at hp hq
        exact h.linked p q id hp.1 hq.1
      · exact h.index
      · intro p hp
        by_cases hw : p.IsWithin path
        · refine .inr (settled_of_absent ?_)
          intro ha
          simp only [allPaths, Finset.mem_union, FiniteMap.mem_keys, FiniteMap.get?_retain,
            Finset.mem_filter, sameOrDescendant_iff.mpr hw] at ha
          rcases ha with (ha | ha) | ha
          · simp at ha
          · simp at ha
          · refine hwithin p hp ?_ hw
            simp only [allPaths, Finset.mem_union, FiniteMap.mem_keys]
            exact .inr ha
        · have hout : sameOrDescendant p.asStr path.asStr = false := by
            rw [← Bool.not_eq_true, sameOrDescendant_iff]
            exact hw
          refine .inl ⟨fun hd => hp (mem_markSubtreeDirty.mpr (.inr (.inl hd))), ?_,
            fun _ _ => rfl, ?_, rfl, Iff.rfl⟩
          · rw [FiniteMap.get?_retain, hout]
            cases hp : s.files.get? p <;> simp [markSubtreeDirty, hp]
          · simp [hout, markSubtreeDirty]
    · apply h.step_same_links <;>
        simp only [ResidentState.removePath, hf, hdir, not_false_eq_true, if_true, journalRemoval]
      intro p hp
      by_cases hpath : p = path
      · subst hpath
        refine .inr (settled_of_journalRemoval hf ?_ fun hd => absurd hd hdir)
        by_contra hb
        simp [FiniteMap.contains, Option.isSome_iff_ne_none.mpr hb] at hp
      · refine .inl ⟨?_, rfl, fun _ _ => rfl, Iff.rfl, rfl, Iff.rfl⟩
        split at hp
        · exact fun hd => hp (Finset.mem_insert_of_mem hd)
        · exact fun hd => hp (Finset.mem_erase.mpr ⟨hpath, hd⟩)

/-- Links after the single-file rename. -/
theorem get?_renameFile (s : ResidentState) (source destination : NormalizedPath) (id : FileId)
    (p : NormalizedPath) : (s.renameFile source destination id).1.files.get? p =
      if p = destination then some id else if p = source then none else s.files.get? p := by
  change (((s.files.erase source).erase destination).insert destination id).get? p = _
  rw [FiniteMap.get?_insert]
  split
  · rfl
  · rename_i hp
    rw [FiniteMap.get?_erase, if_neg hp, FiniteMap.get?_erase]

theorem JournalInv.renameFile {s : ResidentState} (h : s.JournalInv)
    {source destination : NormalizedPath} {id : FileId} (hf : s.files.get? source = some id) :
    (s.renameFile source destination id).1.JournalInv := by
  have hget : ∀ p, (((s.files.erase source).erase destination).insert destination id).get? p =
      if p = destination then some id else if p = source then none else s.files.get? p :=
    get?_renameFile s source destination id
  apply h.step <;> simp only [ResidentState.renameFile, ensureParentDirectories, setFile]
  · intro p id' hp
    rw [hget] at hp
    split at hp
    · cases hp
      exact h.fresh source id hf
    · split at hp
      · cases hp
      · exact h.fresh p id' hp
  · intro p q id' hp hq
    rw [hget] at hp hq
    split at hp <;> split at hq
    · simp_all
    · cases hp
      split at hq
      · cases hq
      · exact absurd (h.linked q source _ hq hf) ‹_›
    · cases hq
      split at hp
      · cases hp
      · exact absurd (h.linked p source _ hp hf) ‹_›
    · split at hp <;> split at hq <;> try cases hp
      · cases hq
      · exact h.linked p q id' hp hq
  · exact h.index
  · intro p hp
    simp only [Finset.mem_union, Finset.mem_insert, List.mem_toFinset, not_or] at hp
    refine .inl ⟨hp.1.2.2, ?_, fun id' hid => ?_, ?_, rfl, Iff.rfl⟩
    · rw [hget, if_neg hp.1.1, if_neg hp.1.2.1]
    · apply Function.update_of_ne
      rintro rfl
      exact h.ne_of_linked hf hp.1.2.1 hid
    · exact mem_ensureParentDirectories hp.2

theorem mem_replacements {s : ResidentState} {source destination p : NormalizedPath}
    {id : FileId} : (p, id) ∈ s.replacements source destination ↔
      ∃ q, s.files.get? q = some id ∧ q.rewritten source destination = some p := by
  simp only [replacements, List.mem_filterMap, Prod.exists, FiniteMap.mem_toList,
    Option.map_eq_some_iff, Prod.mk.injEq]
  constructor
  · rintro ⟨q, id', hq, p', hp, rfl, rfl⟩
    exact ⟨q, hq, hp⟩
  · rintro ⟨q, hq, hp⟩
    exact ⟨q, id, hq, p, hp, rfl, rfl⟩

omit [Blake3] in
/-- Outside both subtrees, as the program tests it on texts. -/
theorem outside_iff {p source destination : NormalizedPath} :
    (!sameOrDescendant p.asStr destination.asStr && !sameOrDescendant p.asStr source.asStr) = true ↔
      ¬p.IsWithin destination ∧ ¬p.IsWithin source := by
  simp [← sameOrDescendant_iff]

/-- Files after the general rename: the moved ones, and those outside both subtrees. -/
theorem get?_renameSubtree {s : ResidentState} {source destination p : NormalizedPath}
    {id : FileId} : (s.renameSubtree source destination).files.get? p = some id ↔
      (∃ q, s.files.get? q = some id ∧ q.rewritten source destination = some p) ∨
        s.files.get? p = some id ∧ ¬p.IsWithin destination ∧ ¬p.IsWithin source := by
  have hfiles : (s.renameSubtree source destination).files =
      (s.files.retain fun path _ => !sameOrDescendant path.asStr destination.asStr &&
        !sameOrDescendant path.asStr source.asStr).extend (s.replacements source destination) := rfl
  rw [hfiles, ← mem_replacements]
  by_cases hmoved : ∃ id', (p, id') ∈ s.replacements source destination
  · obtain ⟨id', hid'⟩ := hmoved
    obtain ⟨q, hq, hp⟩ := mem_replacements.mp hid'
    have huniq : ∀ e ∈ s.replacements source destination, e.1 = p → e.2 = id' := by
      rintro ⟨p', id''⟩ he rfl
      obtain ⟨q', hq', hp'⟩ := mem_replacements.mp he
      rw [rewritten_inj hp' hp, hq] at hq'
      exact (Option.some.inj hq').symm
    rw [FiniteMap.get?_extend_of_mem _ hid' huniq]
    constructor
    · intro he
      exact .inl (Option.some.inj he ▸ hid')
    · rintro (he | ⟨-, hout, -⟩)
      · exact congrArg some (huniq _ he rfl).symm
      · exact absurd (rewritten_within hp) hout
  · rw [FiniteMap.get?_extend_of_notMem, FiniteMap.get?_retain, Option.filter_eq_some_iff,
      outside_iff]
    · exact ⟨.inr, fun he => he.resolve_left fun hid => hmoved ⟨id, hid⟩⟩
    · rintro ⟨p', id'⟩ he rfl
      exact hmoved ⟨id', he⟩

/-- Directories after the general rename lie outside both subtrees, or are moved, or were
inserted as parents. -/
theorem mem_directories_renameSubtree {s : ResidentState} {source destination p : NormalizedPath} :
    p ∈ (s.renameSubtree source destination).directories ↔
      (p ∈ s.directories ∧ ¬p.IsWithin destination ∧ ¬p.IsWithin source) ∨
        (∃ q ∈ s.directories, q.rewritten source destination = some p) ∨ destination.IsBelow p := by
  simp only [renameSubtree, ensureParentDirectories, markSubtreeDirty, directoryReplacements,
    Finset.mem_union, Finset.mem_filter, List.mem_toFinset, List.mem_filterMap,
    SortedSet.mem_toSorted, List.mem_filter, mem_parents, outside_iff, decide_eq_true_eq]
  have hor : ∀ a b c : Prop, ((a ∨ b) ∨ c ∧ ¬(a ∨ b)) ↔ a ∨ b ∨ c := by
    intros
    tauto
  exact hor _ _ _

/-- What the general rename leaves out of the dirty set. -/
theorem notMem_dirty_renameSubtree {s : ResidentState} {source destination p : NormalizedPath}
    (h : p ∉ (s.renameSubtree source destination).dirty) :
    p ∉ s.dirty ∧ (p ∈ s.allPaths → ¬p.IsWithin source ∧ ¬p.IsWithin destination) ∧
      (p ∈ (s.renameSubtree source destination).allPaths → ¬p.IsWithin destination) ∧
      (destination.IsBelow p → ¬p.IsWithin destination →
        p ∈ s.directories ∧ ¬p.IsWithin source) := by
  have hdirty : (s.renameSubtree source destination).dirty =
      insert destination (((s.markSubtreeDirty source).markSubtreeDirty destination).dirty ∪
        (destination.parents.filter fun parent => parent ∉
          s.directories.filter (fun path => !sameOrDescendant path.asStr destination.asStr &&
            !sameOrDescendant path.asStr source.asStr) ∪
          s.directoryReplacements source destination).toFinset ∪
        (s.renameSubtree source destination).allPaths.filter
          fun path => sameOrDescendant path.asStr destination.asStr) := rfl
  have hpaths : (s.markSubtreeDirty source).allPaths = s.allPaths := rfl
  simp only [hdirty, Finset.mem_insert, Finset.mem_union, mem_markSubtreeDirty, hpaths,
    Finset.mem_filter, sameOrDescendant_iff, List.mem_toFinset, List.mem_filter, mem_parents,
    outside_iff, decide_eq_true_eq, not_or] at h
  refine ⟨?_, ?_, ?_, ?_⟩
  · tauto
  · tauto
  · tauto
  · intro hbelow hdst
    by_contra hd
    refine h.2.1.2 ⟨hbelow, fun hd' => hd ⟨hd'.1, hd'.2.2⟩, fun hmoved => ?_⟩
    simp only [directoryReplacements, List.mem_toFinset, List.mem_filterMap] at hmoved
    obtain ⟨q, -, hq⟩ := hmoved
    exact hdst (rewritten_within hq)

theorem JournalInv.renameSubtree {s : ResidentState} (h : s.JournalInv)
    (source destination : NormalizedPath) :
    (s.renameSubtree source destination).JournalInv := by
  apply h.step
  · intro p id hp
    rcases get?_renameSubtree.mp hp with ⟨q, hq, -⟩ | ⟨hq, -⟩ <;> exact h.fresh _ id hq
  · intro p q id hp hq
    rcases get?_renameSubtree.mp hp with ⟨p', hp', hrp⟩ | ⟨hp', hpd, hps⟩ <;>
      rcases get?_renameSubtree.mp hq with ⟨q', hq', hrq⟩ | ⟨hq', hqd, hqs⟩
    · rw [h.linked p' q' id hp' hq', hrq] at hrp
      exact (Option.some.inj hrp).symm
    · rw [h.linked p' q id hp' hq'] at hrp
      exact absurd (rewritten_isSome.mp (by rw [hrp]; rfl)) hqs
    · rw [h.linked q' p id hq' hp'] at hrq
      exact absurd (rewritten_isSome.mp (by rw [hrq]; rfl)) hps
    · exact h.linked p q id hp' hq'
  · exact h.index
  · intro p hp
    obtain ⟨hold, hsub, hdst, hparent⟩ := notMem_dirty_renameSubtree hp
    by_cases hall : p ∈ (s.renameSubtree source destination).allPaths
    · -- a path of the new tree that is not dirty lies outside both subtrees
      have hd := hdst hall
      have hs : ¬p.IsWithin source := by
        intro hw
        simp only [allPaths, Finset.mem_union, FiniteMap.mem_keys_iff] at hall
        rcases hall with (⟨id, hid⟩ | hdir) | hbase
        · rcases get?_renameSubtree.mp hid with ⟨q, -, hq⟩ | ⟨-, -, hs⟩
          · exact hd (rewritten_within hq)
          · exact hs hw
        · rcases mem_directories_renameSubtree.mp hdir with ⟨-, -, hs⟩ | ⟨q, -, hq⟩ | hb
          · exact hs hw
          · exact hd (rewritten_within hq)
          · exact (hparent hb hd).2 hw
        · refine (hsub ?_).1 hw
          simp only [allPaths, Finset.mem_union, FiniteMap.mem_keys_iff]
          exact .inr hbase
      refine .inl ⟨hold, ?_, fun _ _ => rfl, ?_, rfl, Iff.rfl⟩
      · apply Option.ext
        intro id
        rw [get?_renameSubtree]
        constructor
        · rintro (⟨q, -, hq⟩ | hid)
          · exact absurd (rewritten_within hq) hd
          · exact hid.1
        · exact fun hid => .inr ⟨hid, hd, hs⟩
      · rw [mem_directories_renameSubtree]
        constructor
        · rintro (hdir | ⟨q, -, hq⟩ | hb)
          · exact hdir.1
          · exact absurd (rewritten_within hq) hd
          · exact (hparent hb hd).1
        · exact fun hdir => .inl ⟨hdir, hd, hs⟩
    · exact .inr (settled_of_absent hall)

/-- What a rename that goes through does: nothing, one file, or a subtree. -/
theorem renamePath_cases {s s' : ResidentState} {source destination : NormalizedPath}
    {stats : Option (ℕ × ℕ)} (hr : s.renamePath source destination = .ok (s', stats)) :
    (source = destination ∧ s' = s ∧ stats = some (0, 0)) ∨
      source ≠ destination ∧ ¬destination.IsBelow source ∧
        ((∃ id, s.files.get? source = some id ∧ destination ∉ s.directories ∧
            s' = (s.renameFile source destination id).1 ∧
            stats = some (s.renameFile source destination id).2) ∨
          (s.files.get? source = none ∨ destination ∈ s.directories) ∧
            s' = s.renameSubtree source destination ∧ stats = none) := by
  unfold ResidentState.renamePath at hr
  split at hr
  · cases hr
  · rename_i hleads
    rw [hasPrefix_iff] at hleads
    split at hr
    · rename_i heq
      split at hr
      · cases hr
        exact .inl ⟨heq, rfl, rfl⟩
      · cases hr
    · rename_i hne
      refine .inr ⟨hne, hleads, ?_⟩
      have hgeneral : (if s.replacements source destination = [] ∧
          s.directoryReplacements source destination = ∅
        then .error (.renameSourceMissing source)
        else .ok (s.renameSubtree source destination, none)) =
          (.ok (s', stats) : Except WorkspaceError _) →
            s' = s.renameSubtree source destination ∧ stats = none := by
        intro hg
        split at hg
        · cases hg
        · cases hg
          exact ⟨rfl, rfl⟩
      cases hf : s.files.get? source with
      | none =>
        simp only [hf] at hr
        exact .inr ⟨.inl rfl, hgeneral hr⟩
      | some id =>
        simp only [hf] at hr
        split at hr
        · rename_i hdirectory
          cases hr
          exact .inl ⟨id, rfl, hdirectory, rfl, rfl⟩
        · rename_i hdirectory
          exact .inr ⟨.inr (not_not.mp hdirectory), hgeneral hr⟩

theorem JournalInv.renamePath {s s' : ResidentState} (h : s.JournalInv)
    {source destination : NormalizedPath} {stats : Option (ℕ × ℕ)}
    (hr : s.renamePath source destination = .ok (s', stats)) : s'.JournalInv := by
  rcases renamePath_cases hr with ⟨-, rfl, -⟩ | ⟨-, -, ⟨id, hf, -, rfl, -⟩ | ⟨-, rfl, -⟩⟩
  · exact h
  · exact h.renameFile hf
  · exact h.renameSubtree source destination

/-! Reading the journal. -/

theorem changeOf_congr {path : NormalizedPath} {file file' : Option ResidentFile}
    (h : file'.map ResidentFile.bytes = file.map ResidentFile.bytes) (isDirectory : Bool)
    (record : Option FileRecord) (implied : Bool) :
    changeOf path file' isDirectory record implied =
      changeOf path file isDirectory record implied := by
  cases file <;> cases file' <;> simp only [Option.map_none, Option.map_some, reduceCtorEq,
    Option.some.injEq] at h
  · rfl
  · simp only [changeOf, ResidentFile.hashText_eq, ResidentFile.len_eq, h]

theorem cleanHeap_apply (s : ResidentState) (p : NormalizedPath) (id : FileId) :
    s.cleanHeap p id = if s.files.get? p = some id then (s.heap id).markClean else s.heap id := by
  unfold cleanHeap
  cases hp : s.files.get? p with
  | none => simp
  | some id' =>
    by_cases hid : id' = id
    · subst hid
      simp
    · rw [if_neg (by simpa using hid)]
      exact Function.update_of_ne (Ne.symm hid) _ _

theorem bytes_cleanHeap (s : ResidentState) (p : NormalizedPath) (id : FileId) :
    (s.cleanHeap p id).bytes = (s.heap id).bytes := by
  rw [cleanHeap_apply]
  split <;> rfl

theorem changeFor_settle (s : ResidentState) (p q : NormalizedPath) :
    (s.settle p).changeFor q = s.changeFor q := by
  apply changeOf_congr
  unfold fileAt
  cases hq : s.files.get? q <;> simp [settle, hq, bytes_cleanHeap]

theorem JournalInv.settle {s : ResidentState} (h : s.JournalInv) {p : NormalizedPath}
    (hp : s.changeFor p = none) : (s.settle p).JournalInv := by
  refine h.step_same_links rfl rfl rfl rfl fun q hq => ?_
  by_cases hqp : q = p
  · subst hqp
    refine .inr ⟨(changeFor_settle s q q).trans hp, fun id hid => ?_⟩
    change s.files.get? q = some id at hid
    simp [ResidentState.settle, cleanHeap_apply, hid, ResidentFile.markClean]
  · simp only [ResidentState.settle, Finset.mem_erase, not_and] at hq
    refine .inl ⟨hq hqp, rfl, fun id hid => ?_, Iff.rfl, rfl, Iff.rfl⟩
    simp only [ResidentState.settle, cleanHeap_apply]
    rw [if_neg fun hpid => hqp (h.linked q p id hid hpid)]

/-- The second loop settles what does not differ and reports the rest in order. -/
theorem JournalInv.collectEvaluated (evaluated : List (NormalizedPath × Option Change)) :
    ∀ {s : ResidentState}, s.JournalInv → (∀ e ∈ evaluated, s.changeFor e.1 = e.2) →
      (s.collectEvaluated evaluated).1.JournalInv ∧
        (s.collectEvaluated evaluated).2 = evaluated.filterMap Prod.snd := by
  induction evaluated with
  | nil => intro s h _; exact ⟨h, rfl⟩
  | cons e rest ih =>
    intro s h he
    obtain ⟨p, change⟩ := e
    cases change with
    | some change =>
      obtain ⟨h₁, h₂⟩ := ih h fun e' he' => he e' (List.mem_cons_of_mem _ he')
      exact ⟨h₁, by simp [ResidentState.collectEvaluated, h₂]⟩
    | none =>
      obtain ⟨h₁, h₂⟩ := ih (h.settle (he _ List.mem_cons_self)) fun e' he' => by
        rw [changeFor_settle]
        exact he e' (List.mem_cons_of_mem _ he')
      exact ⟨h₁, by simp [ResidentState.collectEvaluated, h₂]⟩

theorem JournalInv.collectChanges {s : ResidentState} (h : s.JournalInv) :
    s.collectChanges.1.JournalInv ∧ s.collectChanges.2 = s.fullDifference := by
  unfold ResidentState.collectChanges
  obtain ⟨h₁, h₂⟩ := JournalInv.collectEvaluated
    ((SortedSet.toSorted s.dirty).map fun path => (path, s.changeFor path)) h (by simp)
  refine ⟨h₁, ?_⟩
  rw [h₂, ← h.filterMap_dirty, List.filterMap_map]
  rfl

/-! Checkpoints. -/

theorem recordOf_congr {s s' : ResidentState} {p : NormalizedPath}
    (hbytes : (s'.fileAt p).map ResidentFile.bytes = (s.fileAt p).map ResidentFile.bytes)
    (hdir : s'.directories = s.directories) : s'.recordOf p = s.recordOf p := by
  unfold recordOf
  cases hs : s.fileAt p <;> cases hs' : s'.fileAt p <;>
    simp only [hs, hs', Option.map_none, Option.map_some, reduceCtorEq, Option.some.injEq] at hbytes
  · simp [hdir]
  · simp [ResidentFile.len_eq, hbytes]

theorem recordOf_isSome {s : ResidentState} {p : NormalizedPath} :
    (s.recordOf p).isSome ↔ (s.files.get? p).isSome ∨ p ∈ s.directories := by
  unfold recordOf fileAt
  cases s.files.get? p <;> simp

/-- A path whose record is what is resident there has nothing to journal. -/
theorem changeOf_recordOf (s : ResidentState) (p : NormalizedPath) (implied : Bool) :
    changeOf p (s.fileAt p) (decide (p ∈ s.directories)) (s.recordOf p) implied = none := by
  unfold recordOf
  cases s.fileAt p with
  | some file => simp [changeOf]
  | none => by_cases hd : p ∈ s.directories <;> simp [changeOf, hd]

/-- The effect of the checkpoint loop on a selection of paths. -/
structure Checkpointed (s s' : ResidentState) (selected : List NormalizedPath) : Prop where
  files : s'.files = s.files
  directories : s'.directories = s.directories
  nextFile : s'.nextFile = s.nextFile
  dirty : ∀ p, p ∈ s'.dirty ↔ p ∈ s.dirty ∧ p ∉ selected
  baseline : ∀ p, s'.baseline.get? p = if p ∈ selected then s.recordOf p else s.baseline.get? p
  bytes : ∀ id, (s'.heap id).bytes = (s.heap id).bytes
  clean : ∀ p ∈ selected, ∀ id, s.files.get? p = some id → (s'.heap id).dirty = false
  kept : ∀ id, (∀ p ∈ selected, s.files.get? p ≠ some id) → s'.heap id = s.heap id

theorem Checkpointed.fileAt {s s' : ResidentState} {selected : List NormalizedPath}
    (h : Checkpointed s s' selected) (p : NormalizedPath) :
    (s'.fileAt p).map ResidentFile.bytes = (s.fileAt p).map ResidentFile.bytes := by
  unfold ResidentState.fileAt
  rw [h.files]
  cases s.files.get? p <;> simp [h.bytes]

theorem Checkpointed.step {s s' : ResidentState} {selected : List NormalizedPath}
    (h : Checkpointed s s' selected) (path : NormalizedPath) :
    Checkpointed s (s'.checkpointPath path) (selected ++ [path]) where
  files := h.files
  directories := h.directories
  nextFile := h.nextFile
  dirty p := by
    simp only [checkpointPath, Finset.mem_erase, h.dirty, List.mem_append, List.mem_singleton]
    tauto
  baseline p := by
    have hrecord : s'.recordOf path = s.recordOf path := recordOf_congr (h.fileAt path) h.directories
    by_cases hp : p = path
    · subst hp
      rw [if_pos (by simp), checkpointPath]
      simp only [hrecord]
      cases s.recordOf p <;> simp [FiniteMap.get?_erase]
    · have hother : (s'.checkpointPath path).baseline.get? p = s'.baseline.get? p := by
        simp only [checkpointPath]
        cases s'.recordOf path <;> simp [FiniteMap.get?_erase, FiniteMap.get?_insert, hp]
      rw [hother, h.baseline]
      simp [hp]
  bytes id := by rw [← h.bytes, checkpointPath, bytes_cleanHeap]
  clean p hp id hid := by
    simp only [checkpointPath, cleanHeap_apply, h.files]
    split
    · rfl
    · rcases List.mem_append.mp hp with hp | hp
      · exact h.clean p hp id hid
      · rw [List.mem_singleton.mp hp] at hid
        exact absurd hid ‹_›
  kept id hid := by
    simp only [checkpointPath, cleanHeap_apply, h.files]
    rw [if_neg (hid path (by simp))]
    exact h.kept id fun p hp => hid p (by simp [hp])

theorem checkpointed_foldl (s : ResidentState) (selected : List NormalizedPath) :
    Checkpointed s (selected.foldl checkpointPath s) selected := by
  induction selected using List.reverseRecOn with
  | nil => exact ⟨rfl, rfl, rfl, by simp, by simp, fun _ => rfl, by simp, fun _ _ => rfl⟩
  | append_singleton selected path ih =>
    rw [List.foldl_append]
    exact ih.step path

/-- Paths that were reported parse back, so the loop reaches every one of them. -/
theorem checkpointPaths_asStr (s : ResidentState) (selected : List NormalizedPath) :
    s.checkpointPaths (selected.map asStr) = (selected.foldl checkpointPath s, .ok ()) := by
  induction selected generalizing s with
  | nil => rfl
  | cons p rest ih =>
    simp only [List.map_cons, checkpointPaths, ResidentWorkspace.parse, parseStr_asStr,
      Except.mapError, List.foldl_cons, ih]

/-- Every resident directory that only records below it keep out of the journal still has such
a record when the selected paths are recorded as they are now. -/
def KeepsImplied (s : ResidentState) (selected : List NormalizedPath) : Prop :=
  ∀ d ∈ s.directories, d ∉ s.dirty → d ∉ selected → s.files.get? d = none →
    s.baseline.get? d = none → ∃ q ∈ s.allPaths, q.IsBelow d ∧
      if q ∈ selected then (s.files.get? q).isSome ∨ q ∈ s.directories
      else (s.baseline.get? q).isSome

instance (s : ResidentState) (selected : List NormalizedPath) :
    Decidable (s.KeepsImplied selected) :=
  inferInstanceAs (Decidable (∀ d ∈ _, _))

theorem JournalInv.checkpoint {s : ResidentState} (h : s.JournalInv)
    {selected : List NormalizedPath} (hkeep : s.KeepsImplied selected) :
    (selected.foldl checkpointPath s).refreshBaselineDirectories.JournalInv := by
  have hc := checkpointed_foldl s selected
  set s' := selected.foldl checkpointPath s
  refine h.step ?_ ?_ rfl fun p hp => .inr ?_
  · intro p id hp
    rw [show s'.refreshBaselineDirectories.nextFile = s.nextFile from hc.nextFile]
    exact h.fresh p id (hc.files ▸ hp)
  · intro p q id hp hq
    exact h.linked p q id (hc.files ▸ hp) (hc.files ▸ hq)
  have hchange : s'.refreshBaselineDirectories.changeFor p =
      changeOf p (s.fileAt p) (decide (p ∈ s.directories)) (s'.baseline.get? p)
        (decide (p ∈ Workspace.baselineDirectories s'.baseline)) := by
    rw [← hc.directories]
    exact changeOf_congr (hc.fileAt p) _ _ _
  have hfiles : s'.refreshBaselineDirectories.files = s.files := hc.files
  by_cases hsel : p ∈ selected
  · refine ⟨?_, fun id hid => hc.clean p hsel id (hfiles ▸ hid)⟩
    rw [hchange, hc.baseline, if_pos hsel]
    exact changeOf_recordOf s p _
  · have hold : p ∉ s.dirty := fun hd => hp ((hc.dirty p).mpr ⟨hd, hsel⟩)
    obtain ⟨hnone, hflag⟩ := h.settled p hold
    constructor
    · rw [hchange, hc.baseline, if_neg hsel]
      rw [ResidentState.changeFor] at hnone
      -- the index matters only for a directory with neither a file nor a record of its own
      by_cases hcase : p ∈ s.directories ∧ s.files.get? p = none ∧ s.baseline.get? p = none
      · obtain ⟨hdir, hfile, hbase⟩ := hcase
        obtain ⟨q, -, hbelow, hq⟩ := hkeep p hdir hold hsel hfile hbase
        have hrecord : (s'.baseline.get? q).isSome := by
          rw [hc.baseline]
          split at hq
          · rw [if_pos ‹_›]
            exact recordOf_isSome.mpr hq
          · rw [if_neg ‹_›]
            exact hq
        obtain ⟨record, hr⟩ := Option.isSome_iff_exists.mp hrecord
        have himplied : p ∈ Workspace.baselineDirectories s'.baseline :=
          mem_baselineDirectories.mpr ⟨q, record, hr, .inl hbelow⟩
        simp [changeOf, ResidentState.fileAt, hfile, hbase, hdir, himplied]
      · rw [← hnone]
        unfold changeOf
        cases hf : s.files.get? p with
        | some id => simp [ResidentState.fileAt, hf]
        | none =>
          by_cases hd : p ∈ s.directories
          · cases hb : s.baseline.get? p with
            | some record => simp [ResidentState.fileAt, hf]
            | none => exact absurd ⟨hd, hf, hb⟩ hcase
          · simp [ResidentState.fileAt, hf, hd]
    · intro id hid
      rw [hfiles] at hid
      have hkept : s'.heap id = s.heap id := hc.kept id fun q hq hqid =>
        hsel (h.linked p q id hid hqid ▸ hq)
      exact hkept ▸ hflag id hid

end ResidentState
end Workspace
