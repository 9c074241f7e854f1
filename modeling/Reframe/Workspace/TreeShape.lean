import Reframe.Workspace.IndexAgreement
import Reframe.Workspace.SessionInvariant

/-! The shape of a resident tree along runs: whatever is resident lies in resident directories, and
no path is both a file and a directory. -/
namespace Workspace
open NormalizedPath

variable [Blake3]

namespace ResidentState

/-- No directory is a file. -/
def Separate (s : ResidentState) : Prop := ∀ p ∈ s.directories, s.files.get? p = none

theorem fileAt_isSome {s : ResidentState} {p : NormalizedPath} :
    (s.fileAt p).isSome = true ↔ (s.files.get? p).isSome = true := by
  rw [fileAt, Option.isSome_map]

/-- The two halves of the shape. -/
theorem shaped_iff_separate {s : ResidentState} : Shaped s ↔ s.Separate ∧ s.Closed := by
  constructor
  · intro h
    refine ⟨fun p hp => ?_, fun p q hp hbelow => h.parents p q ?_ hbelow⟩
    · rw [← Option.not_isSome_iff_eq_none, ← fileAt_isSome]
      exact fun hfile => h.disjoint p hfile hp
    · exact hp.imp_left fileAt_isSome.mpr
  · rintro ⟨hseparate, hclosed⟩
    refine ⟨fun p hfile hp => ?_, fun p q hp hbelow => hclosed p q ?_ hbelow⟩
    · rw [fileAt_isSome, hseparate p hp] at hfile
      cases hfile
    · exact hp.imp_left fileAt_isSome.mp

variable {s s' : ResidentState}

/-- Files that were linked before and directories that were resident before, or new directories
where no file is. -/
theorem Separate.of_subset (h : s.Separate) (hfiles : ∀ p, (s'.files.get? p).isSome = true →
      (s.files.get? p).isSome = true)
    (hdirectories : ∀ p ∈ s'.directories, p ∈ s.directories ∨ s.files.get? p = none) :
    s'.Separate := by
  intro p hp
  have hnone : s.files.get? p = none := (hdirectories p hp).elim (h p) id
  by_contra hsome
  have hfile := hfiles p (Option.isSome_iff_ne_none.mpr hsome)
  rw [hnone] at hfile
  cases hfile

theorem Separate.ensureParentDirectories (h : s.Separate) {path : NormalizedPath}
    (hclear : s.ClearAbove path) : (s.ensureParentDirectories path).1.Separate := by
  refine h.of_subset (fun _ hp => hp) fun p hp => ?_
  exact (mem_directories_ensureParentDirectories.mp hp).imp_right fun hbelow =>
    hclear p (mem_parents.mpr hbelow)

/-- Linking a file at a path that is no directory, with its parents. -/
theorem Separate.linkFile (h : s.Separate) (path : NormalizedPath) (hclear : s.ClearAbove path)
    (hdirectory : path ∉ s.directories)
    (hfiles : ∀ p, p ≠ path → (s'.files.get? p).isSome = true → (s.files.get? p).isSome = true)
    (hdirectories : s'.directories = (s.ensureParentDirectories path).1.directories) :
    s'.Separate := by
  intro p hp
  rw [hdirectories] at hp
  have hne : p ≠ path := by
    rintro rfl
    exact (mem_directories_ensureParentDirectories.mp hp).elim hdirectory (not_isBelow_self p)
  have hnone := h.ensureParentDirectories hclear p hp
  by_contra hsome
  have hfile := hfiles p hne (Option.isSome_iff_ne_none.mpr hsome)
  rw [show s.files.get? p = none from hnone] at hfile
  cases hfile

theorem Separate.replaceFile (h : s.Separate) {path : NormalizedPath} (hclear : s.ClearAbove path)
    (hdirectory : path ∉ s.directories) (bytes : List UInt8) :
    (s.replaceFile path bytes).1.Separate := by
  obtain ⟨hfiles, id, -, hdirectories, -⟩ := replaceFile_links hdirectory bytes
  refine h.linkFile path hclear hdirectory (fun p hp hsome => ?_) hdirectories
  rwa [hfiles p hp] at hsome

theorem Separate.removePath (h : s.Separate) (path : NormalizedPath) :
    (s.removePath path).1.Separate := by
  cases hf : s.files.get? path with
  | some id =>
    simp only [ResidentState.removePath, hf, journalRemoval]
    refine h.of_subset (fun p hp => ?_) fun p hp => .inl hp
    rw [FiniteMap.get?_erase] at hp
    split at hp
    · cases hp
    · exact hp
  | none =>
    simp only [ResidentState.removePath, hf]
    split
    · exact h.of_subset (fun _ hp => hp) fun p hp => .inl hp
    · refine h.of_subset (fun p hp => ?_) fun p hp => .inl (Finset.mem_filter.mp hp).1
      simp only [markSubtreeDirty, FiniteMap.get?_retain] at hp
      obtain ⟨id, hid⟩ := Option.isSome_iff_exists.mp hp
      rw [(Option.filter_eq_some_iff.mp hid).1]
      rfl

theorem Separate.renameFile (h : s.Separate) {source destination : NormalizedPath} {id : FileId}
    (hclear : s.ClearAbove destination) (hdirectory : destination ∉ s.directories) :
    (s.renameFile source destination id).1.Separate := by
  refine h.linkFile destination hclear hdirectory (fun p hp hsome => ?_) rfl
  rw [get?_renameFile, if_neg hp] at hsome
  split at hsome
  · cases hsome
  · exact hsome

theorem Separate.renameSubtree (h : s.Separate) {source destination : NormalizedPath}
    (hclear : s.ClearAbove destination) : (s.renameSubtree source destination).Separate := by
  intro p hp
  rw [← Option.not_isSome_iff_eq_none]
  intro hfile
  obtain ⟨id, hid⟩ := Option.isSome_iff_exists.mp hfile
  -- a file and a directory at one path have one origin, inside the moved tree or outside
  rcases get?_renameSubtree.mp hid with ⟨q, hq, hmoved⟩ | ⟨hq, hdest, hsource⟩
  · rcases mem_directories_renameSubtree.mp hp with ⟨-, hout, -⟩ | ⟨q', hq', hmoved'⟩ | habove
    · exact hout (rewritten_within hmoved)
    · rw [rewritten_inj hmoved hmoved', h q' hq'] at hq
      cases hq
    · exact not_isBelow_self destination (habove.trans_within (rewritten_within hmoved))
  · rcases mem_directories_renameSubtree.mp hp with ⟨hq', -, -⟩ | ⟨q', -, hmoved'⟩ | habove
    · rw [h p hq'] at hq
      cases hq
    · exact hdest (rewritten_within hmoved')
    · rw [hclear p (mem_parents.mpr habove)] at hq
      cases hq

end ResidentState

namespace ResidentWorkspace
open ResidentState

variable {ws ws' : ResidentWorkspace} {op : ResidentOp}

omit [Blake3] in
theorem created_of_written {path : String} (h : op.written = some path) :
    op.created = some path := by
  cases op <;> first | exact h | cases h

theorem withDirectory_directories (s : ResidentState) (path : NormalizedPath) :
    (withDirectory s path).directories =
      insert path (s.ensureParentDirectories path).1.directories := by
  unfold withDirectory
  simp only
  split
  · rfl
  · rename_i hmem
    exact (Finset.insert_eq_of_mem (not_not.mp hmem)).symm

theorem withDirectory_files (s : ResidentState) (path : NormalizedPath) :
    (withDirectory s path).files = s.files := by
  unfold withDirectory
  simp only
  split <;> rfl

theorem storeContent_state (ws : ResidentWorkspace) (p : NormalizedPath) (id : FileId)
    (change : ResidentFile × ℕ × ℕ) :
    (ws.storeContent p id change).state.files = ws.state.files ∧
      (ws.storeContent p id change).state.directories = ws.state.directories := by
  unfold storeContent
  simp only [updateByteCount]
  split <;> exact ⟨rfl, rfl⟩

theorem markCheckpointed_state (ws : ResidentWorkspace) (paths : List String) :
    (ws.markCheckpointed paths).1.state.files = ws.state.files ∧
      (ws.markCheckpointed paths).1.state.directories = ws.state.directories := by
  have hfiles := (sameFiles_checkpointPaths paths ws.state).files
  have hdirectories := (index_checkpointPaths paths ws.state).1
  unfold markCheckpointed
  split
  next state hpaths =>
    rw [hpaths] at hfiles hdirectories
    exact ⟨hfiles, hdirectories⟩
  next state e hpaths =>
    rw [hpaths] at hfiles hdirectories
    exact ⟨hfiles, hdirectories⟩

theorem changes_state (ws : ResidentWorkspace) : ws.changes.1.state.files = ws.state.files ∧
    ws.changes.1.state.directories = ws.state.directories :=
  ⟨(sameFiles_collectEvaluated _ _).files, (index_collectEvaluated _ _).1⟩

theorem closed_step (h : ws.state.Closed) (hwritten : ws.WritesFiles op)
    (heffect : ws.Effect op ws') : ws'.state.Closed := by
  cases heffect with
  | refused => exact h
  | directory hscratch hparse hfile =>
    refine (h.ensureParentDirectories _).insertDirectory (fun q hq => ?_)
      (withDirectory_files ws.state _) (withDirectory_directories ws.state _)
    exact mem_directories_ensureParentDirectories.mpr (.inr hq)
  | replaced hop hscratch hparse hsize => exact h.replaceFile (hwritten _ hop _ hparse) _
  | stored hf hreports hsize =>
    obtain ⟨hfiles, hdirectories⟩ := storeContent_state ws _ _ _
    exact h.shrink hdirectories fun p hp => hfiles ▸ hp
  | unlinked file hunlinked => exact h.shrink rfl fun _ hp => hp
  | removed hdropped =>
    rw [state_withStats]
    exact h.removePath _
  | renamed hmoves hrename =>
    rw [state_withStats]
    exact h.renamePath hrename
  | observed => exact h.shrink (changes_state ws).2 fun p hp => (changes_state ws).1 ▸ hp
  | checkpointed paths =>
    obtain ⟨hfiles, hdirectories⟩ := markCheckpointed_state ws paths
    exact h.shrink hdirectories fun p hp => hfiles ▸ hp

theorem separate_step (h : ws.state.Separate) (hchecked : ws.Checked op)
    (heffect : ws.Effect op ws') : ws'.state.Separate := by
  cases heffect with
  | refused => exact h
  | directory hscratch hparse hfile =>
    refine (h.ensureParentDirectories (hchecked.1 _ rfl _ hparse)).of_subset (fun p hp => ?_)
      fun p hp => ?_
    · rwa [withDirectory_files] at hp
    · rw [withDirectory_directories, Finset.mem_insert] at hp
      rcases hp with rfl | hp
      · exact .inr hfile
      · exact .inl hp
  | replaced hop hscratch hparse hsize =>
    exact h.replaceFile (hchecked.1 _ (created_of_written hop) _ hparse)
      (hchecked.2 _ hop _ hparse) _
  | stored hf hreports hsize =>
    obtain ⟨hfiles, hdirectories⟩ := storeContent_state ws _ _ _
    exact h.of_subset (fun p hp => hfiles ▸ hp) fun p hp => .inl (hdirectories ▸ hp)
  | unlinked file hunlinked => exact h.of_subset (fun _ hp => hp) fun p hp => .inl hp
  | removed hdropped =>
    rw [state_withStats]
    exact h.removePath _
  | renamed hmoves hrename =>
    have hclear := hchecked.1 _ rfl _ hmoves.allowed.parsed.2
    rw [state_withStats]
    rcases renamePath_cases hrename with ⟨-, rfl, -⟩ | ⟨-, -, ⟨id, hf, hdirectory, rfl, -⟩ | ⟨-, rfl, -⟩⟩
    · exact h
    · exact h.renameFile hclear hdirectory
    · exact h.renameSubtree hclear
  | observed =>
    obtain ⟨hfiles, hdirectories⟩ := changes_state ws
    exact h.of_subset (fun p hp => hfiles ▸ hp) fun p hp => .inl (hdirectories ▸ hp)
  | checkpointed paths =>
    obtain ⟨hfiles, hdirectories⟩ := markCheckpointed_state ws paths
    exact h.of_subset (fun p hp => hfiles ▸ hp) fun p hp => .inl (hdirectories ▸ hp)

theorem shaped_step (h : Shaped ws.state) (hchecked : ws.Checked op)
    (heffect : ws.Effect op ws') : Shaped ws'.state := by
  rw [shaped_iff_separate] at h ⊢
  exact ⟨separate_step h.1 hchecked heffect, closed_step h.2 hchecked.2 heffect⟩

end ResidentWorkspace
end Workspace
