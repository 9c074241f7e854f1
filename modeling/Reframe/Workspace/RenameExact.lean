import Reframe.Workspace.IndexAgreement
import Reframe.Workspace.RenameMutation
import Reframe.Workspace.SessionInvariant

/-! What a rename does to a resident workspace: the source subtree moves as a whole, nothing else
changes, and the single-file path does what the subtree move does. -/
namespace Workspace
open NormalizedPath

section

variable [Blake3]

namespace ResidentState

/-- A recorded path that is not resident any more is dirty. -/
def RemovalsDirty (s : ResidentState) : Prop :=
  ∀ p, (s.baseline.get? p).isSome = true → ¬s.Resident p → p ∈ s.dirty

variable {s s' : ResidentState}

theorem RemovalsDirty.keep (h : s.RemovalsDirty) (hbase : s'.baseline = s.baseline)
    (hdirty : ∀ p ∈ s.dirty, (s.baseline.get? p).isSome = true → ¬s'.Resident p → p ∈ s'.dirty)
    (hgone : ∀ p, s.Resident p → (s.baseline.get? p).isSome = true → ¬s'.Resident p →
      p ∈ s'.dirty) : s'.RemovalsDirty := by
  intro p hp habsent
  rw [hbase] at hp
  by_cases hres : s.Resident p
  · exact hgone p hres hp habsent
  · exact hdirty p (h p hp hres) hp habsent

/-- More is dirty, and nothing that was resident is gone. -/
theorem RemovalsDirty.grow (h : s.RemovalsDirty) (hbase : s'.baseline = s.baseline)
    (hdirty : s.dirty ⊆ s'.dirty) (hresident : ∀ p, s.Resident p → s'.Resident p) :
    s'.RemovalsDirty :=
  h.keep hbase (fun _ hp _ _ => hdirty hp) fun p hp _ habsent => absurd (hresident p hp) habsent

theorem RemovalsDirty.removePath (h : s.RemovalsDirty) (path : NormalizedPath) :
    (s.removePath path).1.RemovalsDirty := by
  -- a recorded path stays dirty, and the removed path becomes dirty if it is recorded
  have hjournal : ∀ p, (s.baseline.get? p).isSome = true → p ∈ s.dirty ∨ p = path →
      p ∈ (s.journalRemoval path).dirty := by
    intro p hp hor
    simp only [journalRemoval]
    split
    · exact Finset.mem_insert.mpr hor.symm
    · rename_i hrecord
      have hpath : p ≠ path := fun heq => hrecord (heq ▸ hp)
      exact Finset.mem_erase.mpr ⟨hpath, hor.resolve_right hpath⟩
  cases hf : s.files.get? path with
  | some id =>
    simp only [ResidentState.removePath, hf]
    refine h.keep rfl (fun p hp hbase _ => hjournal p hbase (.inl hp)) fun p hp hbase habsent => ?_
    refine hjournal p hbase (.inr ?_)
    by_contra hne
    refine habsent (hp.imp_left fun hfile => ?_)
    change ((s.files.erase path).get? p).isSome = true
    rwa [FiniteMap.get?_erase, if_neg hne]
  | none =>
    simp only [ResidentState.removePath, hf]
    split
    · exact h.keep rfl (fun p hp hbase _ => hjournal p hbase (.inl hp))
        fun p hp _ habsent => absurd hp habsent
    · refine h.keep rfl (fun p hp _ _ => ?_) fun p hp hbase habsent => ?_
      · exact mem_markSubtreeDirty.mpr (.inr (.inl hp))
      · refine mem_markSubtreeDirty.mpr (.inr (.inr ⟨?_, ?_⟩))
        · simp only [allPaths, Finset.mem_union, FiniteMap.mem_keys]
          exact .inr hbase
        · by_contra hout
          have hkeep : sameOrDescendant p.asStr path.asStr = false := by
            rwa [← Bool.not_eq_true, sameOrDescendant_iff]
          refine habsent (hp.imp (fun hfile => ?_) fun hdirectory => ?_)
          · obtain ⟨id, hid⟩ := Option.isSome_iff_exists.mp hfile
            simp only [markSubtreeDirty, FiniteMap.get?_retain, hid, hkeep]
            rfl
          · exact Finset.mem_filter.mpr ⟨hdirectory, by simp [hkeep]⟩

theorem RemovalsDirty.renamePath (h : s.RemovalsDirty) {source destination : NormalizedPath}
    {stats : Option (ℕ × ℕ)} (hr : s.renamePath source destination = .ok (s', stats)) :
    s'.RemovalsDirty := by
  rcases renamePath_cases hr with ⟨-, rfl, -⟩ | ⟨-, -, ⟨id, -, -, rfl, -⟩ | ⟨-, rfl, -⟩⟩
  · exact h
  · have hdirty : ∀ p, p ∈ s.dirty ∨ p = source →
        p ∈ (s.renameFile source destination id).1.dirty := by
      intro p hp
      refine Finset.mem_union_left _ (Finset.mem_insert_of_mem ?_)
      exact Finset.mem_insert.mpr hp.symm
    refine h.keep rfl (fun p hp _ _ => hdirty p (.inl hp)) fun p hp _ habsent => ?_
    refine hdirty p (.inr ?_)
    by_contra hne
    refine habsent (hp.imp (fun hfile => ?_) fun hdirectory => ?_)
    · rw [get?_renameFile, if_neg hne]
      split
      · rfl
      · exact hfile
    · exact mem_directories_renameFile.mpr (.inl hdirectory)
  · refine h.keep rfl (fun p hp _ _ => ?_) fun p hp hbase habsent => ?_
    · by_contra hout
      exact (notMem_dirty_renameSubtree hout).1 hp
    · by_contra hout
      have hall : p ∈ s.allPaths := by
        simp only [allPaths, Finset.mem_union, FiniteMap.mem_keys]
        exact .inr hbase
      obtain ⟨hsource, hdestination⟩ := (notMem_dirty_renameSubtree hout).2.1 hall
      refine habsent (hp.imp (fun hfile => ?_) fun hdirectory => ?_)
      · obtain ⟨id, hid⟩ := Option.isSome_iff_exists.mp hfile
        rw [get?_renameSubtree.mpr (.inr ⟨hid, hdestination, hsource⟩)]
        rfl
      · exact mem_directories_renameSubtree.mpr (.inl ⟨hdirectory, hdestination, hsource⟩)

theorem RemovalsDirty.replaceFile (h : s.RemovalsDirty) {path : NormalizedPath}
    (hdirectory : path ∉ s.directories) (bytes : List UInt8) :
    (s.replaceFile path bytes).1.RemovalsDirty := by
  obtain ⟨hfiles, id, hfile, hdirectories, -⟩ := replaceFile_links hdirectory bytes
  refine h.grow ?_ ?_ fun p hp => ?_
  · cases hf : s.files.get? path <;> simp only [ResidentState.replaceFile, hf] <;> rfl
  · intro p hp
    cases hf : s.files.get? path with
    | some id =>
      simp only [ResidentState.replaceFile, hf]
      exact Finset.mem_insert_of_mem (Finset.mem_union_left _ hp)
    | none =>
      simp only [ResidentState.replaceFile, hf]
      exact Finset.mem_insert_of_mem (Finset.mem_union_left _ hp)
  · by_cases hpath : p = path
    · exact .inl (by rw [hpath, hfile]; rfl)
    · refine hp.imp (fun hsome => ?_) fun hmem => ?_
      · rwa [hfiles p hpath]
      · rw [hdirectories]
        exact mem_directories_ensureParentDirectories.mpr (.inl hmem)

/-- A recorded path that is gone is a change. -/
theorem changeFor_removed {p : NormalizedPath} (hbase : (s.baseline.get? p).isSome = true)
    (habsent : ¬s.Resident p) : (s.changeFor p).isSome = true := by
  obtain ⟨hfile, hdirectory⟩ := not_or.mp habsent
  have hnone : s.fileAt p = none := by
    rw [fileAt, Option.not_isSome_iff_eq_none.mp hfile, Option.map_none]
  simp [changeFor, changeOf, hnone, hdirectory, hbase]

theorem RemovalsDirty.collectChanges (h : s.RemovalsDirty) : s.collectChanges.1.RemovalsDirty := by
  have hfiles := (sameFiles_collectEvaluated
    ((SortedSet.toSorted s.dirty).map fun path => (path, s.changeFor path)) s).files
  have hdirectories := (ResidentWorkspace.index_collectEvaluated
    ((SortedSet.toSorted s.dirty).map fun path => (path, s.changeFor path)) s).1
  have hresident : ∀ p, s.collectChanges.1.Resident p ↔ s.Resident p := fun p => by
    rw [Resident, Resident, ResidentState.collectChanges, hfiles, hdirectories]
  refine h.keep (SameBase.collectEvaluated _ s) (fun p hp hbase habsent => ?_)
    fun p hp _ habsent => absurd ((hresident p).mpr hp) habsent
  refine (mem_dirty_collectEvaluated _ s p).mpr ⟨hp, fun hnone => ?_⟩
  obtain ⟨q, -, hq⟩ := List.mem_map.mp hnone
  obtain ⟨rfl, hchange⟩ := Prod.mk.inj hq
  have hsome := changeFor_removed hbase fun hres => habsent ((hresident q).mpr hres)
  rw [hchange] at hsome
  cases hsome

theorem RemovalsDirty.checkpointPath (h : s.RemovalsDirty) (path : NormalizedPath) :
    (s.checkpointPath path).RemovalsDirty := by
  intro p hbase habsent
  have hpath : p ≠ path := by
    rintro rfl
    have hnone : s.recordOf p = none := by
      rw [← Option.not_isSome_iff_eq_none, recordOf_isSome]
      exact habsent
    simp only [ResidentState.checkpointPath, hnone, FiniteMap.get?_erase, if_true] at hbase
    cases hbase
  refine Finset.mem_erase.mpr ⟨hpath, h p ?_ habsent⟩
  simp only [ResidentState.checkpointPath] at hbase
  split at hbase
  · rwa [FiniteMap.get?_insert_ne _ hpath] at hbase
  · rwa [FiniteMap.get?_erase, if_neg hpath] at hbase

theorem RemovalsDirty.checkpointPaths (paths : List String) :
    ∀ {s : ResidentState}, s.RemovalsDirty → (s.checkpointPaths paths).1.RemovalsDirty := by
  induction paths with
  | nil => exact fun h => h
  | cons path rest ih =>
    intro s h
    unfold ResidentState.checkpointPaths
    split
    next p _ => exact ih (h.checkpointPath p)
    next => exact h

/-- The tree below `source` is now below `destination`, and everything else is where it was, but
for the new parents. -/
structure TreeMoved (s s' : ResidentState) (source destination : NormalizedPath) : Prop where
  moved : ∀ p q, p.rewritten source destination = some q →
    s'.files.get? q = s.files.get? p ∧ (q ∈ s'.directories ↔ p ∈ s.directories)
  gone : ∀ p, p.IsWithin source → ¬s'.Resident p
  others : ∀ p, ¬p.IsWithin source → ¬p.IsWithin destination →
    s'.files.get? p = s.files.get? p ∧ (p ∈ s'.directories ↔ p ∈ s.directories ∨ destination.IsBelow p)

variable {source destination : NormalizedPath}

omit [Blake3] in
/-- Every path within the destination is where some path is moved to. -/
theorem exists_rewritten {q : NormalizedPath} (h : q.IsWithin destination)
    (source : NormalizedPath) :
    ∃ p : NormalizedPath, p.rewritten source destination = some q := by
  obtain ⟨tail, htail⟩ := h
  refine ⟨⟨source.parts ++ tail, fun hnil => source.nonempty (List.append_eq_nil_iff.mp hnil).1⟩, ?_⟩
  simp only [rewritten, List.prefix_append, if_true, List.drop_left, Option.some.injEq]
  exact ext_parts htail

/-- A move determines the files and the directories. -/
theorem TreeMoved.unique {s₁ s₂ : ResidentState} (h₁ : TreeMoved s s₁ source destination)
    (h₂ : TreeMoved s s₂ source destination) :
    (∀ p, s₁.files.get? p = s₂.files.get? p) ∧ s₁.directories = s₂.directories := by
  have hboth : ∀ p, s₁.files.get? p = s₂.files.get? p ∧
      (p ∈ s₁.directories ↔ p ∈ s₂.directories) := by
    intro p
    by_cases hdestination : p.IsWithin destination
    · obtain ⟨origin, horigin⟩ := exists_rewritten hdestination source
      obtain ⟨hfile₁, hdirectory₁⟩ := h₁.moved origin p horigin
      obtain ⟨hfile₂, hdirectory₂⟩ := h₂.moved origin p horigin
      exact ⟨hfile₁.trans hfile₂.symm, hdirectory₁.trans hdirectory₂.symm⟩
    · by_cases hsource : p.IsWithin source
      · obtain ⟨hfile₁, hdirectory₁⟩ := not_or.mp (h₁.gone p hsource)
        obtain ⟨hfile₂, hdirectory₂⟩ := not_or.mp (h₂.gone p hsource)
        rw [Option.not_isSome_iff_eq_none] at hfile₁ hfile₂
        exact ⟨hfile₁.trans hfile₂.symm, iff_of_false hdirectory₁ hdirectory₂⟩
      · obtain ⟨hfile₁, hdirectory₁⟩ := h₁.others p hsource hdestination
        obtain ⟨hfile₂, hdirectory₂⟩ := h₂.others p hsource hdestination
        exact ⟨hfile₁.trans hfile₂.symm, hdirectory₁.trans hdirectory₂.symm⟩
  exact ⟨fun p => (hboth p).1, Finset.ext fun p => (hboth p).2⟩

/-- Nothing is resident below the path. -/
def NothingBelow (s : ResidentState) (path : NormalizedPath) : Prop :=
  ∀ p, p.IsBelow path → ¬s.Resident p

theorem Closed.nothingBelow (h : s.Closed) {path : NormalizedPath} (hpath : path ∉ s.directories) :
    s.NothingBelow path := fun p hbelow hp => hpath (h p path hp hbelow)

/-- A directory with an empty listing has nothing below it. -/
theorem Indexed.nothingBelow (h : s.Indexed) {path : NormalizedPath}
    (hempty : ∀ entries, s.children.get? path.asStr = some entries → entries.size = 0) :
    s.NothingBelow path := by
  rintro p hbelow hp
  obtain ⟨⟨tail, htail⟩, hne⟩ := hbelow
  have htailNe : tail ≠ [] := by
    rintro rfl
    rw [List.append_nil] at htail
    exact hne (ext_parts htail)
  obtain ⟨name, rest, rfl⟩ := List.exists_cons_of_ne_nil htailNe
  -- the entry of the listing on the way to the path
  let child : NormalizedPath := ⟨path.parts ++ [name],
    List.append_ne_nil_of_right_ne_nil _ (List.cons_ne_nil _ _)⟩
  have hchild : s.Resident child := by
    have hwithin : p.IsWithin child := ⟨rest, by simp [child, ← htail]⟩
    rcases isWithin_iff.mp hwithin with rfl | hdeep
    · exact hp
    · exact .inr (h.closed p child hp hdeep)
  have hlook := h.lists.look child
  have hname : ChildIndex.parentAndName child = (path.asStr, name.1) := by
    simp [ChildIndex.parentAndName, child, asStr]
  have hentry : (entryOf s.files s.directories child).isSome = true := by
    unfold entryOf
    cases hf : s.files.get? child with
    | some id => rfl
    | none =>
      have hdirectory := hchild.resolve_left (by simp [hf])
      simp [hdirectory]
  rw [hname, ChildIndex.look] at hlook
  cases hget : s.children.get? path.asStr with
  | none =>
    rw [hget] at hlook
    rw [← hlook] at hentry
    cases hentry
  | some entries =>
    have hnil : entries.toList = [] := by
      have hzero := hempty entries hget
      rw [FiniteMap.size] at hzero
      simp [FiniteMap.toList, List.length_eq_zero_iff.mp hzero]
    rw [hget, Option.bind_some] at hlook
    rw [← hlook] at hentry
    obtain ⟨entry, hmem⟩ := Option.isSome_iff_exists.mp hentry
    rw [← FiniteMap.mem_toList, hnil] at hmem
    cases hmem

/-- Neither path is within the other. -/
def Apart (source destination : NormalizedPath) : Prop :=
  ¬destination.IsWithin source ∧ ¬source.IsWithin destination

omit [Blake3] in
theorem Apart.not_both (h : Apart source destination) {p : NormalizedPath}
    (hsource : p.IsWithin source) : ¬p.IsWithin destination := by
  intro hdestination
  rcases hsource.total hdestination with hbelow | hwithin
  · exact h.1 hbelow.1
  · exact h.2 hwithin

theorem apart_of_resident (hres : s.Resident source) (hne : source ≠ destination)
    (hbelow : ¬destination.IsBelow source) (hnothing : s.NothingBelow destination) :
    Apart source destination := by
  constructor
  · intro hwithin
    rcases isWithin_iff.mp hwithin with heq | hdeep
    · exact hne heq.symm
    · exact hbelow hdeep
  · intro hwithin
    rcases isWithin_iff.mp hwithin with heq | hdeep
    · exact hne heq
    · exact hnothing source hdeep hres

theorem treeMoved_renameSubtree (h : Apart source destination) :
    TreeMoved s (s.renameSubtree source destination) source destination where
  moved p q hq := by
    have hwithin := rewritten_within hq
    constructor
    · refine Option.ext fun id => get?_renameSubtree.trans ?_
      constructor
      · rintro (⟨p', hp', hq'⟩ | ⟨-, hout, -⟩)
        · rwa [← rewritten_inj hq' hq]
        · exact absurd hwithin hout
      · exact fun hid => .inl ⟨p, hid, hq⟩
    · rw [mem_directories_renameSubtree]
      constructor
      · rintro (⟨-, hout, -⟩ | ⟨p', hp', hq'⟩ | habove)
        · exact absurd hwithin hout
        · rwa [← rewritten_inj hq' hq]
        · exact absurd (habove.trans_within hwithin) (not_isBelow_self destination)
      · exact fun hp => .inr (.inl ⟨p, hp, hq⟩)
  gone p hp hres := by
    have hnot := h.not_both hp
    rcases hres with hfile | hdirectory
    · obtain ⟨id, hid⟩ := Option.isSome_iff_exists.mp hfile
      rcases get?_renameSubtree.mp hid with ⟨q, -, hq⟩ | ⟨-, -, hout⟩
      · exact hnot (rewritten_within hq)
      · exact hout hp
    · rcases mem_directories_renameSubtree.mp hdirectory with ⟨-, -, hout⟩ | ⟨q, -, hq⟩ | habove
      · exact hout hp
      · exact hnot (rewritten_within hq)
      · exact h.1 (habove.1.trans hp)
  others p hsource hdestination := by
    constructor
    · refine Option.ext fun id => get?_renameSubtree.trans ?_
      constructor
      · rintro (⟨q, -, hq⟩ | ⟨hid, -⟩)
        · exact absurd (rewritten_within hq) hdestination
        · exact hid
      · exact fun hid => .inr ⟨hid, hdestination, hsource⟩
    · rw [mem_directories_renameSubtree]
      constructor
      · rintro (⟨hp, -⟩ | ⟨q, -, hq⟩ | habove)
        · exact .inl hp
        · exact absurd (rewritten_within hq) hdestination
        · exact .inr habove
      · rintro (hp | habove)
        · exact .inl ⟨hp, hdestination, hsource⟩
        · exact .inr (.inr habove)

/-- The single-file rename moves a file that is no directory as the subtree it is. -/
theorem treeMoved_renameFile (h : Apart source destination) {id : FileId}
    (hf : s.files.get? source = some id) (hone : source ∉ s.directories)
    (hdirectory : destination ∉ s.directories) (hclosed : s.Closed) :
    TreeMoved s (s.renameFile source destination id).1 source destination := by
  have hget := get?_renameFile s source destination id
  have hmem : ∀ p, p ∈ (s.renameFile source destination id).1.directories ↔
      p ∈ s.directories ∨ destination.IsBelow p := fun p => mem_directories_renameFile
  have hfrom := hclosed.nothingBelow hone
  have hto := hclosed.nothingBelow hdirectory
  refine ⟨fun p q hq => ?_, fun p hp => ?_, fun p hsource hdestination => ?_⟩
  · have hwithin := rewritten_within hq
    have hp : p.IsWithin source := rewritten_isSome.mp (by rw [hq]; rfl)
    have hmemq : q ∈ (s.renameFile source destination id).1.directories ↔ q ∈ s.directories := by
      rw [hmem]
      exact or_iff_left fun habove => not_isBelow_self destination (habove.trans_within hwithin)
    rcases isWithin_iff.mp hp with rfl | hbelow
    · obtain rfl : q = destination := by
        simp only [rewritten, List.prefix_rfl, if_true, List.drop_length, List.append_nil] at hq
        exact (Option.some.inj hq).symm
      exact ⟨by rw [hget, if_pos rfl, hf], hmemq.trans (iff_of_false hdirectory hone)⟩
    · -- neither the path nor its image is resident
      have hq' : q.IsBelow destination := by
        refine ⟨hwithin, ?_⟩
        rintro rfl
        have hself : source.rewritten source destination = some destination := by
          simp [rewritten]
        exact hbelow.2 (rewritten_inj hself hq)
      have hnone := not_or.mp (hfrom p hbelow)
      have hnoneq := not_or.mp (hto q hq')
      rw [Option.not_isSome_iff_eq_none] at hnone hnoneq
      refine ⟨?_, hmemq.trans (iff_of_false hnoneq.2 hnone.2)⟩
      rw [hget, if_neg hq'.2.symm, hnone.1, hnoneq.1, ite_self]
  · have hnot := h.not_both hp
    have hne : p ≠ destination := fun heq => hnot (heq ▸ .refl p)
    have habove : ¬destination.IsBelow p := fun habove => h.1 (habove.1.trans hp)
    rintro (hfile | hdirectory')
    · rw [hget, if_neg hne] at hfile
      split at hfile
      · cases hfile
      · rename_i hsource
        exact hfrom p ((isWithin_iff.mp hp).resolve_left hsource) (.inl hfile)
    · have hold := ((hmem p).mp hdirectory').resolve_right habove
      rcases isWithin_iff.mp hp with rfl | hbelow
      · exact hone hold
      · exact hfrom p hbelow (.inr hold)
  · have hne : p ≠ destination := fun heq => hdestination (heq ▸ .refl p)
    have hne' : p ≠ source := fun heq => hsource (heq ▸ .refl p)
    exact ⟨by rw [hget, if_neg hne, if_neg hne'], hmem p⟩

theorem mem_dirty_renameSubtree {p : NormalizedPath} :
    p ∈ (s.renameSubtree source destination).dirty ↔
      p ∈ s.dirty ∨ p = source ∨ p = destination ∨
        (p ∈ s.allPaths ∧ (p.IsWithin source ∨ p.IsWithin destination)) ∨
        (destination.IsBelow p ∧ ¬(p ∈ s.directories ∧ ¬p.IsWithin destination ∧ ¬p.IsWithin source) ∧
          p ∉ s.directoryReplacements source destination) ∨
        (p ∈ (s.renameSubtree source destination).allPaths ∧ p.IsWithin destination) := by
  have hdirty : (s.renameSubtree source destination).dirty =
      insert destination (((s.markSubtreeDirty source).markSubtreeDirty destination).dirty ∪
        (destination.parents.filter fun parent => parent ∉
          s.directories.filter (fun path => !sameOrDescendant path.asStr destination.asStr &&
            !sameOrDescendant path.asStr source.asStr) ∪
          s.directoryReplacements source destination).toFinset ∪
        (s.renameSubtree source destination).allPaths.filter
          fun path => sameOrDescendant path.asStr destination.asStr) := rfl
  have hpaths : (s.markSubtreeDirty source).allPaths = s.allPaths := rfl
  simp only [hdirty, Finset.mem_insert, Finset.mem_union, mem_markSubtreeDirty, hpaths,
    Finset.mem_filter, sameOrDescendant_iff, List.mem_toFinset, List.mem_filter, mem_parents,
    outside_iff, decide_eq_true_eq, not_or]
  tauto

/-- A recorded path that is not resident is dirty, so the wider marking of the subtree move adds
nothing when the source is a single file. -/
theorem dirty_renameFile_eq (h : Apart source destination) (id : FileId)
    (hone : source ∉ s.directories) (hdirectory : destination ∉ s.directories)
    (hclosed : s.Closed) (hremovals : s.RemovalsDirty) :
    (s.renameFile source destination id).1.dirty = (s.renameSubtree source destination).dirty := by
  have hfile : ∀ p, p ∈ (s.renameFile source destination id).1.dirty ↔
      p ∈ s.dirty ∨ p = source ∨ p = destination ∨ destination.IsBelow p ∧ p ∉ s.directories := by
    intro p
    have hdirty : (s.renameFile source destination id).1.dirty =
        insert destination (insert source s.dirty) ∪
          (destination.parents.filter fun parent => parent ∉ s.directories).toFinset := rfl
    simp only [hdirty, Finset.mem_union, Finset.mem_insert, List.mem_toFinset, List.mem_filter,
      mem_parents, decide_eq_true_eq]
    tauto
  have hrecorded : ∀ p, p ∈ s.allPaths → ¬s.Resident p → p ∈ s.dirty := by
    intro p hp habsent
    simp only [allPaths, Finset.mem_union, FiniteMap.mem_keys] at hp
    exact hremovals p (hp.resolve_left habsent) habsent
  have hbelow : ∀ p, p ∈ s.allPaths → p.IsBelow source ∨ p.IsBelow destination → p ∈ s.dirty := by
    rintro p hp (hdeep | hdeep)
    · exact hrecorded p hp (hclosed.nothingBelow hone p hdeep)
    · exact hrecorded p hp (hclosed.nothingBelow hdirectory p hdeep)
  have habove : ∀ p, destination.IsBelow p → ¬p.IsWithin destination ∧ ¬p.IsWithin source := by
    intro p hp
    exact ⟨fun hin => not_isBelow_self destination (hp.trans_within hin),
      fun hin => h.1 (hp.1.trans hin)⟩
  ext p
  rw [hfile, mem_dirty_renameSubtree]
  constructor
  · rintro (hp | hp | hp | ⟨hp, hmissing⟩)
    · exact .inl hp
    · exact .inr (.inl hp)
    · exact .inr (.inr (.inl hp))
    · refine .inr (.inr (.inr (.inr (.inl ⟨hp, fun hin => hmissing hin.1, fun hmoved => ?_⟩))))
      simp only [directoryReplacements, List.mem_toFinset, List.mem_filterMap] at hmoved
      obtain ⟨q, -, hq⟩ := hmoved
      exact (habove p hp).1 (rewritten_within hq)
  · rintro (hp | hp | hp | ⟨hp, hwithin⟩ | ⟨hp, hout, -⟩ | ⟨hp, hwithin⟩)
    · exact .inl hp
    · exact .inr (.inl hp)
    · exact .inr (.inr (.inl hp))
    · rcases hwithin with hwithin | hwithin <;> rcases isWithin_iff.mp hwithin with heq | hdeep
      · exact .inr (.inl heq)
      · exact .inl (hbelow p hp (.inl hdeep))
      · exact .inr (.inr (.inl heq))
      · exact .inl (hbelow p hp (.inr hdeep))
    · exact .inr (.inr (.inr ⟨hp, fun hin => hout ⟨hin, habove p hp⟩⟩))
    · rcases isWithin_iff.mp hwithin with heq | hdeep
      · exact .inr (.inr (.inl heq))
      · -- below the destination the new tree has what was below the source: nothing
        refine .inl (hbelow p ?_ (.inr hdeep))
        obtain ⟨q, hq⟩ := exists_rewritten hwithin source
        obtain ⟨hfiles, hdirectories⟩ := (treeMoved_renameSubtree h).moved q p hq
        have hdeepq : q.IsBelow source := by
          refine ⟨rewritten_isSome.mp (by rw [hq]; rfl), ?_⟩
          rintro rfl
          have hself : source.rewritten source destination = some destination := by
            simp [rewritten]
          exact hdeep.2 (Option.some.inj (hself.symm.trans hq))
        have habsent : ¬(s.renameSubtree source destination).Resident p := by
          rw [Resident, hfiles, hdirectories]
          exact hclosed.nothingBelow hone q hdeepq
        simp only [allPaths, Finset.mem_union, FiniteMap.mem_keys] at hp ⊢
        exact .inr (hp.resolve_left habsent)

end ResidentState

namespace ResidentWorkspace
open ResidentState

variable {ws ws' : ResidentWorkspace} {op : ResidentOp}

theorem removalsDirty_step (h : ws.state.RemovalsDirty) (hwritten : ws.WritesFiles op)
    (heffect : ws.Effect op ws') : ws'.state.RemovalsDirty := by
  cases heffect with
  | refused => exact h
  | directory hscratch hparse hfile =>
    unfold withDirectory
    simp only
    split
    · refine h.grow rfl (fun p hp => ?_) fun p hp => hp.imp_right fun hmem => ?_
      · exact Finset.mem_insert_of_mem (Finset.mem_union_left _ hp)
      · exact Finset.mem_insert_of_mem (mem_directories_ensureParentDirectories.mpr (.inl hmem))
    · refine h.grow rfl (fun p hp => Finset.mem_union_left _ hp) fun p hp => hp.imp_right fun hmem => ?_
      exact mem_directories_ensureParentDirectories.mpr (.inl hmem)
  | replaced hop hscratch hparse hsize => exact h.replaceFile (hwritten _ hop _ hparse) _
  | stored hf hreports hsize =>
    unfold storeContent
    simp only [updateByteCount]
    split
    · exact h.grow rfl (Finset.subset_insert _ _) fun p hp => hp
    · exact h.grow rfl (Finset.Subset.refl _) fun p hp => hp
  | unlinked file hunlinked => exact h.grow rfl (Finset.Subset.refl _) fun p hp => hp
  | removed hdropped =>
    rw [state_withStats]
    exact h.removePath _
  | renamed hmoves hrename =>
    rw [state_withStats]
    exact h.renamePath hrename
  | observed => exact h.collectChanges
  | checkpointed paths =>
    have hpaths := h.checkpointPaths paths
    unfold markCheckpointed
    split
    next state heq =>
      rw [heq] at hpaths
      exact hpaths
    next state e heq =>
      rw [heq] at hpaths
      exact hpaths

/-- The same tree with the same index, journal and counters. Of the file objects the contents are
compared: `rename_file` also raises the flag of the object it moves, to a path that is journaled. -/
structure SameWorkspace (a b : ResidentWorkspace) : Prop where
  baseline : a.state.baseline = b.state.baseline
  files : ∀ p, a.state.files.get? p = b.state.files.get? p
  directories : a.state.directories = b.state.directories
  children : ChildIndex.Same a.state.children b.state.children
  dirty : a.state.dirty = b.state.dirty
  contents : ∀ id, (a.state.heap id).bytes = (b.state.heap id).bytes
  fileCount : a.fileCount % 2 ^ 64 = b.fileCount % 2 ^ 64
  byteCount : a.byteCount = b.byteCount

/-- The source and everything below it is at the same place below the destination, only the target
itself is replaced, and the state is the one the general subtree move gives. -/
structure Renames (ws ws' : ResidentWorkspace) (outcome : RenameOutcome)
    (source destination : NormalizedPath) : Prop where
  tree : TreeMoved ws.state ws'.state source destination
  contents : ∀ id, (ws'.state.heap id).bytes = (ws.state.heap id).bytes
  target : ws.state.NothingBelow destination
  outcome : outcome =
    ⟨ws.state.files.get? destination, decide (destination ∈ ws.state.directories)⟩
  general : SameWorkspace ws' (ws.withStats (ws.state.renameSubtree source destination) none)

/-- A rename that succeeds renames, and one that fails changes nothing. -/
def RenameKeeps (ws : ResidentWorkspace) (source destination : String) (replace : Bool) : Prop :=
  match ws.renameWithReplaceMut source destination replace with
  | (ws', .error _) => ws' = ws
  | (ws', .ok outcome) => ∀ origin target, parseStr source = .ok origin →
      parseStr destination = .ok target →
        if origin = target then ws' = ws else Renames ws ws' outcome origin target

/-- A file that is renamed is no directory as well, and no file is where a directory above the
destination is missing. -/
def MovesWhole (ws : ResidentWorkspace) (source destination : String) (replace : Bool) : Prop :=
  ∀ origin target, ws.RenameAllowed source destination replace origin target →
    (ws.state.files.get? origin).isSome = true → origin ≠ target → ¬target.IsBelow origin →
      origin ∉ ws.state.directories ∧ ws.state.ParentsFree target

variable {source destination : String} {replace : Bool} {origin target : NormalizedPath}

/-- A rename to another path that passes the checks is the rename of the tree. -/
theorem renameWithReplace_of_allowed (h : ws.RenameAllowed source destination replace origin target)
    (hne : origin ≠ target) : ws.renameWithReplace source destination replace =
      (ws.state.renamePath origin target).map fun r => (ws.withStats r.1 r.2,
        ⟨ws.state.files.get? target, decide (target ∈ ws.state.directories)⟩) := by
  have hpresent : (!ws.state.files.contains origin && !decide (origin ∈ ws.state.directories)) =
      false := by
    rcases h.present with hfile | hdirectory
    · simp [FiniteMap.contains, hfile]
    · simp [hdirectory]
  have hreplaces : (((ws.state.files.get? target).isSome || decide (target ∈ ws.state.directories)) &&
      !replace) = false := by
    by_cases hres : ws.state.Resident target
    · simp [h.replaces hres]
    · obtain ⟨hfile, hdirectory⟩ := not_or.mp hres
      simp [hfile, hdirectory]
  have hfile : (ws.state.files.contains origin && decide (target ∈ ws.state.directories)) = false := by
    by_cases hfile : (ws.state.files.get? origin).isSome = true
    · simp [h.fileOver hfile]
    · simp [FiniteMap.contains, hfile]
  have hdirectory : (decide (origin ∈ ws.state.directories) &&
      (ws.state.files.get? target).isSome) = false := by
    by_cases hdirectory : origin ∈ ws.state.directories
    · simp [h.directoryOver hdirectory]
    · simp [hdirectory]
  have hempty : (decide (origin ∈ ws.state.directories) && decide (target ∈ ws.state.directories) &&
      (ws.state.children.get? target.asStr).any fun entries => entries.size ≠ 0) = false := by
    by_cases hboth : origin ∈ ws.state.directories ∧ target ∈ ws.state.directories
    · have hsize := h.empty hboth.1 hboth.2
      cases hget : ws.state.children.get? target.asStr with
      | none => simp
      | some entries => simp [hsize entries hget]
    · rw [← Bool.decide_and, decide_eq_false hboth, Bool.false_and]
  unfold renameWithReplace rejectScratch
  rw [h.scratch.1, h.scratch.2, parse_eq_ok.mpr h.parsed.1, parse_eq_ok.mpr h.parsed.2]
  simp only [bind, Except.bind, Bool.false_eq_true, if_false, hpresent, hne, hreplaces, hfile,
    hdirectory, hempty]
  cases ws.state.renamePath origin target <;> rfl

/-- The state of a workspace whose index, counters and journal are kept. -/
structure Kept (ws : ResidentWorkspace) : Prop where
  indexed : ws.state.Indexed
  counted : ws.Counted
  removals : ws.state.RemovalsDirty

/-- The single-file rename gives the state of the subtree move. -/
theorem Kept.renameFile_general (h : ws.Kept) (hapart : Apart origin target) {id : FileId}
    (hf : ws.state.files.get? origin = some id) (hone : origin ∉ ws.state.directories)
    (hdirectory : target ∉ ws.state.directories) (hfree : ws.state.ParentsFree target) :
    SameWorkspace (ws.withStats (ws.state.renameFile origin target id).1
        (some (ws.state.renameFile origin target id).2))
      (ws.withStats (ws.state.renameSubtree origin target) none) := by
  have hclosed := h.indexed.closed
  have hne : origin ≠ target := fun heq => hapart.1 (heq ▸ .refl origin)
  have hbelow : ¬target.IsBelow origin := fun hin => hapart.1 hin.1
  have htree := (treeMoved_renameFile hapart hf hone hdirectory hclosed).unique
    (treeMoved_renameSubtree hapart)
  have hbytes : ∀ id', ((ws.state.renameFile origin target id).1.heap id').bytes =
      (ws.state.heap id').bytes := by
    intro id'
    change (Function.update ws.state.heap id (ws.state.heap id).markDirty.2 id').bytes = _
    by_cases hid : id' = id
    · rw [hid, Function.update_self]
      rfl
    · rw [Function.update_of_ne hid]
  have hweight : ∀ weigh : ResidentFile → ℕ, (∀ f g : ResidentFile, f.bytes = g.bytes →
      weigh f = weigh g) → (ws.state.renameFile origin target id).1.weight weigh =
        (ws.state.renameSubtree origin target).weight weigh := by
    intro weigh hweigh
    refine weight_congr fun p => weightAt_congr (htree.1 p) fun id' _ => ?_
    exact hweigh _ _ (hbytes id')
  have hmoved := h.counted.linked.renameFile hf hne
  have hcounted := h.counted.withStats hmoved.1 hmoved.2
  have hrecount : ({ ws with state := ws.state.renameSubtree origin target } : ResidentWorkspace).recount.Counted :=
    .recount (h.counted.linked.renameSubtree origin target)
  refine ⟨rfl, htree.1, htree.2, ?_,
    dirty_renameFile_eq hapart id hone hdirectory hclosed h.removals, hbytes, ?_, ?_⟩
  · have hgeneral : (ws.state.renameSubtree origin target).Indexed :=
      .rebuilt (hclosed.renameSubtree origin target) rfl
    have hfile : (ws.state.renameFile origin target id).1.Indexed :=
      h.indexed.renameFile hfree hone hbelow
    have hlists := hfile.lists
    have hentries : entryOf (ws.state.renameFile origin target id).1.files
        (ws.state.renameFile origin target id).1.directories =
          entryOf (ws.state.renameSubtree origin target).files
            (ws.state.renameSubtree origin target).directories := by
      funext p
      rw [entryOf, entryOf, htree.1 p, htree.2]
    rw [hentries, htree.2] at hlists
    exact hlists.same hgeneral.lists
  · refine hcounted.files.trans (Eq.trans ?_ hrecount.files.symm)
    exact congrArg (· % 2 ^ 64) (hweight _ fun _ _ _ => rfl)
  · refine hcounted.bytes.trans (Eq.trans ?_ hrecount.bytes.symm)
    refine congrArg (· % 2 ^ 64) (hweight _ fun f g heq => ?_)
    rw [ResidentFile.len_eq, ResidentFile.len_eq, heq]

/-- A rename that passes the checks, of a file under the condition. -/
theorem Kept.renames (h : ws.Kept)
    (hallowed : ws.RenameAllowed source destination replace origin target) (hne : origin ≠ target)
    (hwhole : (ws.state.files.get? origin).isSome = true → ¬target.IsBelow origin →
      origin ∉ ws.state.directories ∧ ws.state.ParentsFree target)
    {state : ResidentState} {stats : Option (ℕ × ℕ)}
    (hrename : ws.state.renamePath origin target = .ok (state, stats)) :
    Renames ws (ws.withStats state stats)
      ⟨ws.state.files.get? target, decide (target ∈ ws.state.directories)⟩ origin target := by
  rcases renamePath_cases hrename with
    ⟨heq, -⟩ | ⟨-, hbelow, ⟨id, hf, hdirectory, rfl, rfl⟩ | ⟨hkind, rfl, rfl⟩⟩
  · exact absurd heq hne
  · obtain ⟨hone, hfree⟩ := hwhole (by rw [hf]; rfl) hbelow
    have hnothing := h.indexed.closed.nothingBelow hdirectory
    have hapart := apart_of_resident hallowed.present hne hbelow hnothing
    have hgeneral := h.renameFile_general hapart hf hone hdirectory hfree
    exact ⟨treeMoved_renameFile hapart hf hone hdirectory h.indexed.closed, hgeneral.contents,
      hnothing, rfl, hgeneral⟩
  · -- the source is a directory only, and a target that is a directory is empty
    have hnofile : ¬(ws.state.files.get? origin).isSome = true := by
      intro hfile
      rcases hkind with hnone | hdirectory
      · rw [hnone] at hfile
        cases hfile
      · exact hallowed.fileOver hfile hdirectory
    have horigin := hallowed.present.resolve_left hnofile
    have hnothing : ws.state.NothingBelow target := by
      by_cases hdirectory : target ∈ ws.state.directories
      · exact h.indexed.nothingBelow (hallowed.empty horigin hdirectory)
      · exact h.indexed.closed.nothingBelow hdirectory
    have hapart := apart_of_resident hallowed.present hne hbelow hnothing
    exact ⟨treeMoved_renameSubtree hapart, fun _ => rfl, hnothing, rfl,
      ⟨rfl, fun _ => rfl, rfl, fun _ => rfl, rfl, fun _ => rfl, rfl, rfl⟩⟩

/-- A rename that renames the source as a whole has met the condition. -/
theorem Kept.whole_of_renames (h : ws.Kept) {outcome : RenameOutcome} {id : FileId}
    (hne : origin ≠ target) (hbelow : ¬target.IsBelow origin)
    (hrenames : Renames ws (ws.withStats (ws.state.renameFile origin target id).1
      (some (ws.state.renameFile origin target id).2)) outcome origin target) :
    origin ∉ ws.state.directories ∧ ws.state.ParentsFree target := by
  have htree := hrenames.tree
  rw [state_withStats] at htree
  constructor
  · intro hmem
    refine htree.gone origin (.refl origin) (.inr ?_)
    exact mem_directories_renameFile.mpr (.inl hmem)
  · intro q hq hmissing
    have habove : target.IsBelow q := mem_parents.mp hq
    have houtTarget : ¬q.IsWithin target := fun hin =>
      not_isBelow_self target (habove.trans_within hin)
    have houtOrigin : ¬q.IsWithin origin := by
      intro hin
      rcases isWithin_iff.mp (habove.1.trans hin) with heq | hdeep
      · exact hne heq.symm
      · exact hbelow hdeep
    -- the kept index lists a new directory there, and the rebuilt one what is linked
    have hkept := (h.indexed.lists_renameFile origin target id).look q
    have hrebuilt := (ChildIndex.lists_buildChildren (h.indexed.closed.renameSubtree origin target)).look q
    have hsame := hrenames.general.children.look (ChildIndex.parentAndName q).1
      (ChildIndex.parentAndName q).2
    rw [state_withStats, state_withStats] at hsame
    have hne' : q ≠ target := fun heq => houtTarget (heq ▸ .refl q)
    simp only [if_neg hne', if_pos (And.intro habove hmissing)] at hkept
    have hentry := hrebuilt.symm.trans (hsame.symm.trans hkept)
    have hfiles := hrenames.general.files q
    rw [state_withStats, state_withStats, (htree.others q houtOrigin houtTarget).1] at hfiles
    rw [entryOf, ← hfiles] at hentry
    cases hfile : ws.state.files.get? q with
    | none => rfl
    | some linked =>
      rw [hfile] at hentry
      cases hentry

theorem renamePath_file {id : FileId} (hf : ws.state.files.get? origin = some id)
    (hne : origin ≠ target) (hbelow : ¬target.IsBelow origin)
    (hdirectory : target ∉ ws.state.directories) :
    ws.state.renamePath origin target = .ok ((ws.state.renameFile origin target id).1,
      some (ws.state.renameFile origin target id).2) := by
  have hleads : ¬hasPrefix target.asStr origin.asStr = true := by
    rwa [hasPrefix_iff]
  unfold renamePath
  rw [if_neg hleads, if_neg hne]
  simp only [hf, if_pos hdirectory]

theorem Kept.renameKeeps_iff (h : ws.Kept) :
    ws.RenameKeeps source destination replace ↔ ws.MovesWhole source destination replace := by
  unfold RenameKeeps
  rw [renameWithReplaceMut_eq]
  constructor
  · intro hkeeps origin target hallowed hfile hne hbelow
    obtain ⟨id, hf⟩ := Option.isSome_iff_exists.mp hfile
    rw [renameWithReplace_of_allowed hallowed hne,
      renamePath_file hf hne hbelow (hallowed.fileOver hfile)] at hkeeps
    have hrenames := hkeeps origin target hallowed.parsed.1 hallowed.parsed.2
    rw [if_neg hne] at hrenames
    exact h.whole_of_renames hne hbelow hrenames
  · intro hwhole
    cases hresult : ws.renameWithReplace source destination replace with
    | error e => rfl
    | ok result =>
      obtain ⟨ws', outcome⟩ := result
      intro origin target hsource hdestination
      obtain ⟨origin', target', hsource', hdestination', hcases⟩ := renameWithReplace_eq_ok hresult
      obtain rfl : origin = origin' := Except.ok.inj (hsource.symm.trans hsource')
      obtain rfl : target = target' := Except.ok.inj (hdestination.symm.trans hdestination')
      rcases hcases with ⟨heq, rfl⟩ | ⟨hmoves, -⟩
      · rw [if_pos heq]
      · have hallowed := hmoves.allowed
        rw [if_neg hmoves.apart]
        rw [renameWithReplace_of_allowed hallowed hmoves.apart] at hresult
        obtain ⟨⟨state, stats⟩, hrename, hresult⟩ := Run.map_eq_ok.mp hresult
        cases hresult
        exact h.renames hallowed hmoves.apart
          (fun hf hb => hwhole origin target hallowed hf hmoves.apart hb) hrename

end ResidentWorkspace

open ResidentState ResidentWorkspace JournaledWorkspace

/-- In a loaded tree every record is resident. -/
theorem LoadedState.removalsDirty {records : Baseline} {s : ResidentState}
    (h : LoadedState records s) : s.RemovalsDirty := by
  intro p hp habsent
  rw [h.baseline] at hp
  obtain ⟨r, hr⟩ := Option.isSome_iff_exists.mp hp
  refine absurd ?_ habsent
  by_cases hdirectory : r.source = .directory
  · rw [Resident, h.directories, mem_baselineDirectories]
    exact .inr ⟨p, r, hr, .inr ⟨rfl, hdirectory⟩⟩
  · exact .inl (h.files p r hr hdirectory)

/-- After every run of checked operations that drop no file entry of a directory, a rename moves
the whole source and nothing else, or changes nothing, exactly if a file it moves is no directory
as well and no file is where a directory above the destination is missing. -/
theorem rename_keeps_iff {content : ContentSource}
    {cached : (hash : String) → Option {blob : SoundBlob // blob.1.hashHex = hash}}
    (hsmall : content.Small cached) {baseline : Baseline} {scratch : String → Bool}
    (hcanon : CanonicalRecords baseline) {ws : ResidentWorkspace}
    (hload : loadCached content cached baseline scratch = .ok ws) (ops : List ResidentOp)
    (hops : Run.Along (fun j op => (j.workspace.Checked op ∧ op.Sized) ∧ j.workspace.DropsOneKind op)
      step ⟨ws, []⟩ ops) (source destination : String) (replace : Bool) :
    (ops.foldl step ⟨ws, []⟩).workspace.RenameKeeps source destination replace ↔
      (ops.foldl step ⟨ws, []⟩).workspace.MovesWhole source destination replace := by
  obtain ⟨hcounted, hchildren⟩ := loadCached_counted hsmall hload
  have hloaded := (loadCached_spec hcanon hload).1
  have hrun := Run.foldl_invariant (I := fun j : JournaledWorkspace => j.workspace.Kept)
    (fun j op hop h => ⟨indexed_step h.indexed hop.1.1 hop.2 (j.effect_step op),
      h.counted.step hop.1.2 (j.effect_step op),
      removalsDirty_step h.removals hop.1.1.2 (j.effect_step op)⟩) ops ⟨ws, []⟩ hops
    ⟨.rebuilt hloaded.closed hchildren, hcounted, hloaded.removalsDirty⟩
  exact hrun.renameKeeps_iff

end

namespace TestVectors
open ResidentWorkspace JournaledWorkspace

def movedDirectory : NormalizedPath := ⟨[⟨"e", by decide⟩], List.cons_ne_nil _ _⟩

/-- A tree that holds a file `d` and a file `d/f`: a rename of `d` leaves `d/f` behind. -/
theorem rename_leaves_descendant :
    buildBaseline (fun _ => false) layeredSources ∅ = .ok layeredBaseline ∧
      layeredLoad = .ok layeredWorkspace ∧
      (layeredWorkspace.renameWithReplaceMut "d" "e" true).2.isOk = true ∧
      (layeredWorkspace.renameWithReplaceMut "d" "e" true).1.state.files.contains nestedPath = true ∧
      ¬layeredWorkspace.RenameKeeps "d" "e" true := by
  have hok : (layeredWorkspace.renameWithReplaceMut "d" "e" true).2.isOk = true := by
    decide +kernel
  have hleft : (layeredWorkspace.renameWithReplaceMut "d" "e" true).1.state.files.contains
      nestedPath = true := by
    decide +kernel
  refine ⟨rfl, layeredLoad_eq, hok, hleft, fun h => ?_⟩
  unfold RenameKeeps at h
  rcases hresult : layeredWorkspace.renameWithReplaceMut "d" "e" true with ⟨ws', e | outcome⟩
  · rw [hresult] at hok
    cases hok
  · rw [hresult] at h hleft
    have hrenames := h nestedDirectory movedDirectory rfl rfl
    rw [if_neg (by decide)] at hrenames
    exact hrenames.tree.gone nestedPath (List.prefix_append _ _) (.inl hleft)

/-- A file moves to a place with two missing directories. -/
theorem rename_keeps_file :
    ([.createDirectory "e", .replace "g" [0, 0], .rename "g" "h/g" false].foldl step
      ⟨nestedWorkspace, []⟩).workspace.RenameKeeps "h/g" "d/k/m" true := by
  refine (rename_keeps_iff nestedContent_small nestedBaseline_canonical nestedLoad_eq
    [.createDirectory "e", .replace "g" [0, 0], .rename "g" "h/g" false] (by decide +kernel)
    "h/g" "d/k/m" true).mpr ?_
  intro origin target hallowed _ _ _
  obtain rfl : ⟨[⟨"h", by decide⟩, ⟨"g", by decide⟩], List.cons_ne_nil _ _⟩ = origin :=
    Except.ok.inj hallowed.parsed.1
  obtain rfl : ⟨[⟨"d", by decide⟩, ⟨"k", by decide⟩, ⟨"m", by decide⟩], List.cons_ne_nil _ _⟩ =
    target := Except.ok.inj hallowed.parsed.2
  decide +kernel

end TestVectors
end Workspace
