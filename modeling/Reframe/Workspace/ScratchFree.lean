import Reframe.Workspace.TreeShape

/-! Scratch content stays out of a resident workspace: no path of the tree, of the baseline or of
the journal matches a scratch rule. -/
namespace Workspace
open NormalizedPath

variable [Blake3]

namespace ResidentWorkspace
open ResidentState

/-- Nothing the workspace holds or journals is scratch. -/
structure ScratchFree (ws : ResidentWorkspace) : Prop where
  resident : ∀ p, ws.state.Resident p → ws.scratch p.asStr = false
  baseline : ∀ p, (ws.state.baseline.get? p).isSome = true → ws.scratch p.asStr = false
  dirty : ∀ p ∈ ws.state.dirty, ws.scratch p.asStr = false

/-- What is brought in has a workspace path, below directories that are no scratch. -/
def CreatesFree (ws : ResidentWorkspace) (op : ResidentOp) : Prop :=
  ∀ path ∈ op.created, ∃ p : NormalizedPath, path = p.asStr ∧
    ∀ q, p.IsBelow q → ws.scratch q.asStr = false

/-- Nothing from below the source matches a scratch rule at its place below the destination. -/
def CarriesFree (ws : ResidentWorkspace) (source destination : NormalizedPath) : Prop :=
  ∀ p ∈ ws.state.files.keys ∪ ws.state.directories, p.IsBelow source →
    ∀ q ∈ p.rewritten source destination, ws.scratch q.asStr = false

instance (ws : ResidentWorkspace) (source destination : NormalizedPath) :
    Decidable (ws.CarriesFree source destination) :=
  inferInstanceAs (Decidable (∀ p ∈ ws.state.files.keys ∪ ws.state.directories, p.IsBelow source →
    ∀ q ∈ p.rewritten source destination, _))

/-- A rename that goes through puts nothing from below its source under a scratch path. -/
def MovesFree (ws : ResidentWorkspace) : ResidentOp → Prop
  | .rename source destination replace => ∀ origin target,
      ws.Moves source destination replace origin target → ws.CarriesFree origin target
  | _ => True

variable {ws ws' : ResidentWorkspace} {op : ResidentOp}

theorem resident_iff_mem {s : ResidentState} {p : NormalizedPath} :
    s.Resident p ↔ p ∈ s.files.keys ∪ s.directories := by
  rw [Finset.mem_union, FiniteMap.mem_keys, Resident]

/-- A mutation of the state that brings in only paths that are no scratch. -/
theorem ScratchFree.step (h : ws.ScratchFree) (hscratch : ws'.scratch = ws.scratch)
    (hresident : ∀ p, ws'.state.Resident p → ws.state.Resident p ∨ ws.scratch p.asStr = false)
    (hbaseline : ∀ p, (ws'.state.baseline.get? p).isSome = true →
      (ws.state.baseline.get? p).isSome = true ∨ ws.scratch p.asStr = false)
    (hdirty : ∀ p ∈ ws'.state.dirty, p ∈ ws.state.dirty ∨ ws.scratch p.asStr = false) :
    ws'.ScratchFree := by
  refine ⟨fun p hp => ?_, fun p hp => ?_, fun p hp => ?_⟩ <;> rw [hscratch]
  · exact (hresident p hp).elim (h.resident p) id
  · exact (hbaseline p hp).elim (h.baseline p) id
  · exact (hdirty p hp).elim (h.dirty p) id

/-- New paths are the one brought in and those above it. -/
theorem ScratchFree.bring (h : ws.ScratchFree) {path : NormalizedPath}
    (hpath : ∀ q, path.IsWithin q → ws.scratch q.asStr = false)
    (hscratch : ws'.scratch = ws.scratch)
    (hresident : ∀ p, ws'.state.Resident p → ws.state.Resident p ∨ path.IsWithin p)
    (hbaseline : ws'.state.baseline = ws.state.baseline)
    (hdirty : ∀ p ∈ ws'.state.dirty, p ∈ ws.state.dirty ∨ path.IsWithin p) :
    ws'.ScratchFree :=
  h.step hscratch (fun p hp => (hresident p hp).imp_right (hpath p))
    (fun _ hp => .inl (hbaseline ▸ hp)) fun p hp => (hdirty p hp).imp_right (hpath p)

theorem mem_ensured {s : ResidentState} {path p : NormalizedPath}
    (h : p ∈ (s.ensureParentDirectories path).2) : path.IsWithin p :=
  (mem_parents.mp (List.mem_filter.mp h).1).1

theorem withDirectory_brings (s : ResidentState) (path : NormalizedPath) :
    (∀ p, (withDirectory s path).Resident p → s.Resident p ∨ path.IsWithin p) ∧
      (withDirectory s path).baseline = s.baseline ∧
      ∀ p ∈ (withDirectory s path).dirty, p ∈ s.dirty ∨ path.IsWithin p := by
  refine ⟨fun p hp => ?_, ?_, fun p hp => ?_⟩
  · rw [Resident, withDirectory_files, withDirectory_directories, Finset.mem_insert,
      mem_directories_ensureParentDirectories] at hp
    rcases hp with hfile | rfl | hold | hbelow
    · exact .inl (.inl hfile)
    · exact .inr (.refl p)
    · exact .inl (.inr hold)
    · exact .inr hbelow.1
  · unfold withDirectory
    simp only
    split <;> rfl
  · have hdirty : p = path ∨ p ∈ s.dirty ∪ (s.ensureParentDirectories path).2.toFinset := by
      unfold withDirectory at hp
      simp only at hp
      split at hp
      · exact Finset.mem_insert.mp hp
      · exact .inr hp
    rcases hdirty with rfl | hdirty
    · exact .inr (.refl p)
    · exact (Finset.mem_union.mp hdirty).imp_right fun hin => mem_ensured (List.mem_toFinset.mp hin)

theorem replaceFile_brings (s : ResidentState) (path : NormalizedPath) (bytes : List UInt8) :
    (∀ p, (s.replaceFile path bytes).1.Resident p → s.Resident p ∨ path.IsWithin p) ∧
      (s.replaceFile path bytes).1.baseline = s.baseline ∧
      ∀ p ∈ (s.replaceFile path bytes).1.dirty, p ∈ s.dirty ∨ path.IsWithin p := by
  -- whether the file is there or new, parents are ensured in the tree without a directory here
  have hdirectory : ∀ {t : ResidentState} {p : NormalizedPath},
      t.directories = s.directories.erase path →
      p ∈ (t.ensureParentDirectories path).1.directories → p ∈ s.directories ∨ path.IsWithin p := by
    intro t p ht hp
    refine (mem_directories_ensureParentDirectories.mp hp).imp (fun hold => ?_) (·.1)
    rw [ht] at hold
    exact Finset.mem_of_mem_erase hold
  have hdirty : ∀ {inserted : List NormalizedPath} {p : NormalizedPath},
      (∀ q ∈ inserted, path.IsWithin q) → p ∈ insert path (s.dirty ∪ inserted.toFinset) →
      p ∈ s.dirty ∨ path.IsWithin p := by
    intro inserted p hinserted hp
    rw [Finset.mem_insert, Finset.mem_union, List.mem_toFinset] at hp
    rcases hp with rfl | hold | hnew
    · exact .inr (.refl p)
    · exact .inl hold
    · exact .inr (hinserted p hnew)
  cases hf : s.files.get? path with
  | some id =>
    simp only [ResidentState.replaceFile, hf]
    refine ⟨fun p hp => ?_, rfl, fun p hp => hdirty (fun q hq => mem_ensured hq) hp⟩
    rcases hp with hfile | hp
    · exact .inl (.inl hfile)
    · exact (hdirectory rfl hp).imp_left .inr
  | none =>
    simp only [ResidentState.replaceFile, hf]
    refine ⟨fun p hp => ?_, rfl, fun p hp => hdirty (fun q hq => mem_ensured hq) hp⟩
    rcases hp with hfile | hp
    · by_cases hpath : p = path
      · exact .inr (hpath ▸ .refl p)
      · refine .inl (.inl ?_)
        have hget : (s.files.insert path s.nextFile).get? p = s.files.get? p :=
          FiniteMap.get?_insert_ne _ hpath _
        exact hget ▸ hfile
    · exact (hdirectory rfl hp).imp_left .inr

theorem mem_allPaths {s : ResidentState} {p : NormalizedPath} :
    p ∈ s.allPaths ↔ s.Resident p ∨ (s.baseline.get? p).isSome = true := by
  rw [allPaths, Finset.mem_union, ← resident_iff_mem, FiniteMap.mem_keys]

theorem removePath_keeps (s : ResidentState) (path : NormalizedPath) :
    (∀ p, (s.removePath path).1.Resident p → s.Resident p) ∧
      (s.removePath path).1.baseline = s.baseline ∧
      ∀ p ∈ (s.removePath path).1.dirty, p ∈ s.dirty ∨ p ∈ s.allPaths := by
  have hjournal : ∀ {t : ResidentState} {p : NormalizedPath}, t.baseline = s.baseline →
      t.dirty = s.dirty → p ∈ (t.journalRemoval path).dirty → p ∈ s.dirty ∨ p ∈ s.allPaths := by
    intro t p hbaseline hdirty hp
    simp only [journalRemoval, hbaseline, hdirty] at hp
    split at hp
    · rename_i hcontains
      rcases Finset.mem_insert.mp hp with rfl | hp
      · exact .inr (mem_allPaths.mpr (.inr hcontains))
      · exact .inl hp
    · exact .inl (Finset.mem_of_mem_erase hp)
  cases hf : s.files.get? path with
  | some id =>
    simp only [ResidentState.removePath, hf]
    refine ⟨fun p hp => ?_, rfl, fun p hp => hjournal rfl rfl hp⟩
    refine hp.imp_left fun hfile => ?_
    obtain ⟨id', hid'⟩ := Option.isSome_iff_exists.mp hfile
    rw [(FiniteMap.get?_erase_some hid').2]
    rfl
  | none =>
    simp only [ResidentState.removePath, hf]
    split
    · exact ⟨fun p hp => hp, rfl, fun p hp => hjournal rfl rfl hp⟩
    · rename_i hdirectory
      refine ⟨fun p hp => ?_, rfl, fun p hp => ?_⟩
      · refine hp.imp (fun hfile => ?_) fun hp => (Finset.mem_filter.mp hp).1
        simp only [markSubtreeDirty, FiniteMap.get?_retain] at hfile
        obtain ⟨id, hid⟩ := Option.isSome_iff_exists.mp hfile
        rw [(Option.filter_eq_some_iff.mp hid).1]
        rfl
      · rcases mem_markSubtreeDirty.mp hp with rfl | hold | ⟨hall, -⟩
        · exact .inr (mem_allPaths.mpr (.inl (.inr (not_not.mp hdirectory))))
        · exact .inl hold
        · exact .inr hall

theorem storeContent_keeps (ws : ResidentWorkspace) {path : NormalizedPath} {id : FileId}
    (hf : ws.state.files.get? path = some id) (change : ResidentFile × ℕ × ℕ) :
    (∀ p, (ws.storeContent path id change).state.Resident p → ws.state.Resident p) ∧
      (ws.storeContent path id change).state.baseline = ws.state.baseline ∧
      ∀ p ∈ (ws.storeContent path id change).state.dirty,
        p ∈ ws.state.dirty ∨ ws.state.Resident p := by
  obtain ⟨hfiles, hdirectories⟩ := storeContent_state ws path id change
  refine ⟨fun p hp => ?_, ?_, fun p hp => ?_⟩
  · rwa [Resident, hfiles, hdirectories] at hp
  · unfold storeContent
    simp only [updateByteCount]
    split <;> rfl
  · unfold storeContent at hp
    simp only [updateByteCount] at hp
    split at hp
    · rcases Finset.mem_insert.mp hp with rfl | hold
      · exact .inr (.inl (by rw [hf]; rfl))
      · exact .inl hold
    · exact .inl hp

theorem storeContent_scratch (ws : ResidentWorkspace) (path : NormalizedPath) (id : FileId)
    (change : ResidentFile × ℕ × ℕ) : (ws.storeContent path id change).scratch = ws.scratch := rfl

theorem scratch_withStats (ws : ResidentWorkspace) (state : ResidentState)
    (stats : Option (ℕ × ℕ)) : (ws.withStats state stats).scratch = ws.scratch := by
  cases stats <;> rfl

theorem renameFile_brings (s : ResidentState) (source destination : NormalizedPath) (id : FileId) :
    (∀ p, (s.renameFile source destination id).1.Resident p →
        s.Resident p ∨ destination.IsWithin p) ∧
      ∀ p ∈ (s.renameFile source destination id).1.dirty,
        p ∈ s.dirty ∨ p = source ∨ destination.IsWithin p := by
  refine ⟨fun p hp => ?_, fun p hp => ?_⟩
  · rcases hp with hfile | hdirectory
    · rw [get?_renameFile] at hfile
      split at hfile
      · rename_i heq
        exact .inr (heq ▸ .refl p)
      · split at hfile
        · cases hfile
        · exact .inl (.inl hfile)
    · exact (mem_directories_renameFile.mp hdirectory).imp .inr (·.1)
  · rcases Finset.mem_union.mp hp with hp | hnew
    · rcases Finset.mem_insert.mp hp with rfl | hp
      · exact .inr (.inr (.refl p))
      · exact (Finset.mem_insert.mp hp).elim (fun heq => .inr (.inl heq)) .inl
    · exact .inr (.inr (mem_ensured (List.mem_toFinset.mp hnew)))

theorem renameSubtree_brings (s : ResidentState) (source destination : NormalizedPath) :
    (∀ p, (s.renameSubtree source destination).Resident p → s.Resident p ∨
        destination.IsWithin p ∨ ∃ q, s.Resident q ∧ q.rewritten source destination = some p) ∧
      ∀ p ∈ (s.renameSubtree source destination).dirty, p ∈ s.dirty ∨ p ∈ s.allPaths ∨
        p = source ∨ destination.IsWithin p ∨
          p ∈ (s.renameSubtree source destination).allPaths := by
  refine ⟨fun p hp => ?_, fun p hp => ?_⟩
  · rcases hp with hfile | hdirectory
    · obtain ⟨id, hid⟩ := Option.isSome_iff_exists.mp hfile
      rcases get?_renameSubtree.mp hid with ⟨q, hq, hmoved⟩ | ⟨hq, -⟩
      · exact .inr (.inr ⟨q, .inl (by rw [hq]; rfl), hmoved⟩)
      · exact .inl (.inl (by rw [hq]; rfl))
    · rcases mem_directories_renameSubtree.mp hdirectory with ⟨hq, -⟩ | ⟨q, hq, hmoved⟩ | habove
      · exact .inl (.inr hq)
      · exact .inr (.inr ⟨q, .inr hq, hmoved⟩)
      · exact .inr (.inl habove.1)
  · by_contra hnone
    simp only [not_or] at hnone
    obtain ⟨hdirty, hall, hsource, hwithin, hall'⟩ := hnone
    refine absurd hp ?_
    -- the journal gains the two roots, what lay below them, the new parents, and the moved tree
    have hdestination : p ≠ destination := by
      rintro rfl
      exact hwithin (.refl p)
    change p ∉ (ResidentState.markSubtreeDirty _ destination).dirty
    rw [mem_markSubtreeDirty]
    rintro (heq | hp | ⟨hp, -⟩)
    · exact hdestination heq
    · rcases Finset.mem_union.mp hp with hp | hnew
      · rcases mem_markSubtreeDirty.mp hp with heq | hp | ⟨hp, -⟩
        · exact hdestination heq
        · rcases mem_markSubtreeDirty.mp hp with heq | hp | ⟨hp, -⟩
          · exact hsource heq
          · exact hdirty hp
          · exact hall hp
        · exact hall hp
      · exact hwithin (mem_ensured (List.mem_toFinset.mp hnew))
    · exact hall' hp

theorem baseline_renamePath {s s' : ResidentState} {source destination : NormalizedPath}
    {stats : Option (ℕ × ℕ)} (hr : s.renamePath source destination = .ok (s', stats)) :
    s'.baseline = s.baseline := by
  rcases renamePath_cases hr with ⟨-, rfl, -⟩ | ⟨-, -, ⟨id, -, -, rfl, -⟩ | ⟨-, rfl, -⟩⟩ <;> rfl

theorem ScratchFree.renamePath (h : ws.ScratchFree) {source destination : NormalizedPath}
    (hsource : ws.state.Resident source)
    (hdestination : ∀ q, destination.IsWithin q → ws.scratch q.asStr = false)
    (hmoves : ∀ p, ws.state.Resident p → ∀ q, p.rewritten source destination = some q →
      ws.scratch q.asStr = false) {state : ResidentState} {stats : Option (ℕ × ℕ)}
    (hr : ws.state.renamePath source destination = .ok (state, stats))
    (hscratch : ws'.scratch = ws.scratch) (hstate : ws'.state = state) : ws'.ScratchFree := by
  have hbaseline := baseline_renamePath hr
  have hall : ∀ p ∈ ws.state.allPaths, ws.scratch p.asStr = false := fun p hp =>
    (mem_allPaths.mp hp).elim (h.resident p) (h.baseline p)
  subst hstate
  rcases renamePath_cases hr with ⟨-, heq, -⟩ | ⟨-, -, ⟨id, -, -, heq, -⟩ | ⟨-, heq, -⟩⟩
  · refine h.step hscratch (fun p hp => ?_) (fun p hp => ?_) fun p hp => ?_ <;> rw [heq] at hp
    all_goals exact .inl hp
  · obtain ⟨hresident, hdirty⟩ := renameFile_brings ws.state source destination id
    refine h.step hscratch (fun p hp => ?_) (fun p hp => .inl (hbaseline ▸ hp)) fun p hp => ?_
    · rw [heq] at hp
      exact (hresident p hp).imp_right (hdestination p)
    · rw [heq] at hp
      rcases hdirty p hp with hold | rfl | hwithin
      · exact .inl hold
      · exact .inr (h.resident p hsource)
      · exact .inr (hdestination p hwithin)
  · obtain ⟨hresident, hdirty⟩ := renameSubtree_brings ws.state source destination
    have hnew : ∀ p, (ws.state.renameSubtree source destination).Resident p →
        ws.scratch p.asStr = false := by
      intro p hp
      rcases hresident p hp with hold | hwithin | ⟨q, hq, hmoved⟩
      · exact h.resident p hold
      · exact hdestination p hwithin
      · exact hmoves q hq p hmoved
    refine h.step hscratch (fun p hp => ?_) (fun p hp => .inl (hbaseline ▸ hp)) fun p hp => ?_
    · rw [heq] at hp
      exact .inr (hnew p hp)
    · rw [heq] at hp
      rcases hdirty p hp with hold | hold | rfl | hwithin | hp'
      · exact .inl hold
      · exact .inr (hall p hold)
      · exact .inr (h.resident p hsource)
      · exact .inr (hdestination p hwithin)
      · exact .inr ((mem_allPaths.mp hp').elim (hnew p) (h.baseline p))

theorem ScratchFree.checkpointPaths (scratch : String → Bool) (paths : List String) :
    ∀ s : ResidentState,
      (∀ p, s.Resident p → scratch p.asStr = false) →
      (∀ p, (s.baseline.get? p).isSome = true → scratch p.asStr = false) →
      (∀ p ∈ s.dirty, scratch p.asStr = false) →
      (∀ p, ((s.checkpointPaths paths).1.baseline.get? p).isSome = true →
          scratch p.asStr = false) ∧
        ∀ p ∈ (s.checkpointPaths paths).1.dirty, scratch p.asStr = false := by
  induction paths with
  | nil =>
    intro s _ hbaseline hdirty
    exact ⟨hbaseline, hdirty⟩
  | cons path rest ih =>
    intro s hresident hbaseline hdirty
    unfold ResidentState.checkpointPaths
    split
    next p _ =>
      refine ih (s.checkpointPath p) hresident (fun q hq => ?_) fun q hq =>
        hdirty q (Finset.mem_of_mem_erase hq)
      simp only [checkpointPath] at hq
      split at hq
      next record hrecord =>
        rw [FiniteMap.get?_insert] at hq
        split at hq
        · rename_i heq
          rw [heq]
          exact hresident p (recordOf_isSome.mp (by rw [hrecord]; rfl))
        · exact hbaseline q hq
      next =>
        rw [FiniteMap.get?_erase] at hq
        split at hq
        · cases hq
        · exact hbaseline q hq
    next => exact ⟨hbaseline, hdirty⟩

theorem dirty_collectEvaluated (evaluated : List (NormalizedPath × Option Change)) :
    ∀ s : ResidentState, (s.collectEvaluated evaluated).1.dirty ⊆ s.dirty ∧
      (s.collectEvaluated evaluated).1.baseline = s.baseline := by
  induction evaluated with
  | nil =>
    intro s
    exact ⟨Finset.Subset.refl _, rfl⟩
  | cons e rest ih =>
    intro s
    obtain ⟨path, _ | change⟩ := e
    · exact ⟨(ih (s.settle path)).1.trans (Finset.erase_subset _ _), (ih (s.settle path)).2⟩
    · exact ih s

theorem scratchFree_step (h : ws.ScratchFree) (hcreates : ws.CreatesFree op)
    (hmoves : ws.MovesFree op) (heffect : ws.Effect op ws') : ws'.ScratchFree := by
  -- the path brought in, as the call parsed it, is the normalized one
  have hwithin : ∀ {path : String} {p : NormalizedPath}, op.created = some path →
      ws.scratch path = false → parseStr path = .ok p →
      ∀ q, p.IsWithin q → ws.scratch q.asStr = false := by
    intro path p hcreated hfree hparse q hq
    obtain ⟨p', rfl, habove⟩ := hcreates path hcreated
    rw [parseStr_asStr] at hparse
    cases hparse
    rcases isWithin_iff.mp hq with rfl | hbelow
    · exact hfree
    · exact habove q hbelow
  cases heffect with
  | refused => exact h
  | directory hfree hparse hfile =>
    obtain ⟨hresident, hbaseline, hdirty⟩ := withDirectory_brings ws.state _
    exact h.bring (hwithin rfl hfree hparse) rfl hresident hbaseline hdirty
  | replaced hop hfree hparse hsize =>
    obtain ⟨hresident, hbaseline, hdirty⟩ := replaceFile_brings ws.state _ _
    exact h.bring (hwithin (created_of_written hop) hfree hparse) rfl hresident hbaseline hdirty
  | stored hf hreports hsize =>
    obtain ⟨hresident, hbaseline, hdirty⟩ := storeContent_keeps ws hf _
    exact h.step (storeContent_scratch ws _ _ _) (fun p hp => .inl (hresident p hp))
      (fun p hp => .inl (hbaseline ▸ hp)) fun p hp => (hdirty p hp).imp_right (h.resident p)
  | unlinked file hunlinked =>
    exact h.step rfl (fun p hp => .inl hp) (fun p hp => .inl hp) fun p hp => .inl hp
  | removed hdropped =>
    obtain ⟨hresident, hbaseline, hdirty⟩ := removePath_keeps ws.state _
    refine h.step (scratch_withStats ws _ _) (fun p hp => ?_) (fun p hp => ?_) fun p hp => ?_ <;>
      rw [state_withStats] at hp
    · exact .inl (hresident p hp)
    · exact .inl (hbaseline ▸ hp)
    · refine (hdirty p hp).imp_right fun hall => ?_
      exact (mem_allPaths.mp hall).elim (h.resident p) (h.baseline p)
  | renamed hmoved hrename =>
    have hallowed := hmoved.allowed
    have hdestination := hwithin rfl hallowed.scratch.2 hallowed.parsed.2
    refine h.renamePath hallowed.present hdestination (fun p hp q hq => ?_) hrename
      (scratch_withStats ws _ _) (state_withStats ws _ _)
    -- the destination itself was asked of the rules
    rcases rewritten_cases hq with rfl | hbelow
    · exact hdestination q (.refl q)
    · exact hmoves _ _ hmoved p (resident_iff_mem.mp hp) hbelow q hq
  | observed =>
    obtain ⟨hfiles, hdirectories⟩ := changes_state ws
    obtain ⟨hdirty, hbaseline⟩ := dirty_collectEvaluated
      ((SortedSet.toSorted ws.state.dirty).map fun path => (path, ws.state.changeFor path)) ws.state
    refine h.step rfl (fun p hp => .inl ?_) (fun p hp => .inl (hbaseline ▸ hp))
      fun p hp => .inl (hdirty hp)
    rwa [Resident, hfiles, hdirectories] at hp
  | checkpointed paths =>
    obtain ⟨hfiles, hdirectories⟩ := markCheckpointed_state ws paths
    obtain ⟨hbaseline, hdirty⟩ := ScratchFree.checkpointPaths ws.scratch paths ws.state h.resident
      h.baseline h.dirty
    have hrest : (ws.markCheckpointed paths).1.scratch = ws.scratch ∧
        (ws.markCheckpointed paths).1.state.baseline = (ws.state.checkpointPaths paths).1.baseline ∧
        (ws.markCheckpointed paths).1.state.dirty = (ws.state.checkpointPaths paths).1.dirty := by
      unfold markCheckpointed
      split <;> (rename_i hpaths; rw [hpaths]; exact ⟨rfl, rfl, rfl⟩)
    refine h.step hrest.1 (fun p hp => .inl ?_) (fun p hp => .inr ?_) fun p hp => .inr ?_
    · rwa [Resident, hfiles, hdirectories] at hp
    · rw [hrest.2.1] at hp
      exact hbaseline p hp
    · rw [hrest.2.2] at hp
      exact hdirty p hp

/-- The journal reports dirty paths. -/
theorem changes_dirty (ws : ResidentWorkspace) {change : Change} (h : change ∈ ws.changes.2) :
    ∃ p ∈ ws.state.dirty, change.path = p.asStr := by
  have hmem : ∀ (evaluated : List (NormalizedPath × Option Change)) (s : ResidentState),
      change ∈ (s.collectEvaluated evaluated).2 → ∃ e ∈ evaluated, e.2 = some change := by
    intro evaluated
    induction evaluated with
    | nil =>
      intro s hc
      cases hc
    | cons e rest ih =>
      intro s hc
      obtain ⟨path, _ | first⟩ := e
      · obtain ⟨e', he', heq⟩ := ih _ hc
        exact ⟨e', List.mem_cons_of_mem _ he', heq⟩
      · rcases List.mem_cons.mp hc with rfl | hc
        · exact ⟨_, List.mem_cons_self, rfl⟩
        · obtain ⟨e', he', heq⟩ := ih _ hc
          exact ⟨e', List.mem_cons_of_mem _ he', heq⟩
  obtain ⟨e, he, hchange⟩ := hmem _ _ h
  obtain ⟨p, hp, rfl⟩ := List.mem_map.mp he
  exact ⟨p, SortedSet.mem_toSorted.mp hp, JournaledWorkspace.changeFor_path hchange⟩

theorem ScratchFree.reported (h : ws.ScratchFree) {change : Change} (hc : change ∈ ws.changes.2) :
    ws.scratch change.path = false := by
  obtain ⟨p, hp, hpath⟩ := changes_dirty ws hc
  rw [hpath]
  exact h.dirty p hp

end ResidentWorkspace
end Workspace
