import Reframe.Workspace.Checkpoint
import Reframe.Workspace.Counters
import Reframe.Workspace.TreeIndex

/-! Along runs of workspace operations the child index is the one a rebuild would compute, and the
counters are the number and the size of the linked files. -/
namespace Workspace
open NormalizedPath

section

variable [Blake3]

/-- The stored buffers have 64-bit lengths. -/
structure ContentSource.Small (content : ContentSource)
    (cached : (hash : String) → Option {blob : SoundBlob // blob.1.hashHex = hash}) : Prop where
  read : ∀ record bytes, readRecord content record = some bytes → bytes.length < 2 ^ 64
  cached : ∀ hash blob, cached hash = some blob → blob.1.1.bytes.length < 2 ^ 64

namespace ResidentWorkspace
open ResidentState

/-- No file lies above a path that is to be created. -/
def CreatesClear (ws : ResidentWorkspace) (op : ResidentOp) : Prop :=
  ∀ path ∈ op.created, Run.OnOk (parseStr path) ws.state.ClearAbove

/-- Contents do not go to a directory. -/
def WritesFiles (ws : ResidentWorkspace) (op : ResidentOp) : Prop :=
  ∀ path ∈ op.written, Run.OnOk (parseStr path) fun p => p ∉ ws.state.directories

/-- What the callers check before they call. -/
def Checked (ws : ResidentWorkspace) (op : ResidentOp) : Prop :=
  ws.CreatesClear op ∧ ws.WritesFiles op

instance (ws : ResidentWorkspace) (op : ResidentOp) : Decidable (ws.Checked op) :=
  inferInstanceAs (Decidable ((∀ path ∈ op.created, _) ∧ ∀ path ∈ op.written, _))

/-- No path loses its file entry while it is a directory as well. -/
def DropsOneKind (ws : ResidentWorkspace) (op : ResidentOp) : Prop :=
  ∀ p ∈ ws.dropped op, (ws.state.files.get? p).isSome = true → p ∉ ws.state.directories

instance (ws : ResidentWorkspace) (op : ResidentOp) : Decidable (ws.DropsOneKind op) :=
  inferInstanceAs (Decidable (∀ p ∈ ws.dropped op, _ → _))

/-- The index is the rebuilt one, and the counters count. -/
structure IndexAgrees (ws : ResidentWorkspace) : Prop where
  children : ChildIndex.Same ws.state.children
    (ChildIndex.buildChildren ws.state.files ws.state.directories)
  files : ws.state.files.size < 2 ^ 64 → ws.fileCount = ws.state.files.size
  bytes : ws.byteCount = (ws.state.files.toList.map fun e => (ws.state.heap e.2).len).sum % 2 ^ 64

theorem index_collectEvaluated (evaluated : List (NormalizedPath × Option Change)) :
    ∀ s : ResidentState, (s.collectEvaluated evaluated).1.directories = s.directories ∧
      (s.collectEvaluated evaluated).1.children = s.children := by
  induction evaluated with
  | nil =>
    intro s
    exact ⟨rfl, rfl⟩
  | cons e rest ih =>
    intro s
    obtain ⟨path, _ | change⟩ := e
    · exact ih (s.settle path)
    · exact ih s

theorem index_checkpointPaths (paths : List String) :
    ∀ s : ResidentState, (s.checkpointPaths paths).1.directories = s.directories ∧
      (s.checkpointPaths paths).1.children = s.children := by
  induction paths with
  | nil =>
    intro s
    exact ⟨rfl, rfl⟩
  | cons path rest ih =>
    intro s
    unfold checkpointPaths
    split
    next p _ => exact ih (s.checkpointPath p)
    next => exact ⟨rfl, rfl⟩

theorem indexed_withDirectory {s : ResidentState} (h : s.Indexed) {path : NormalizedPath}
    (hclear : s.ClearAbove path) (hfile : s.files.get? path = none) :
    (withDirectory s path).Indexed := by
  have hparents := h.ensureParentDirectories hclear
  unfold withDirectory
  simp only
  split
  · refine hparents.insertDirectory hfile (fun q hq => ?_) _
    exact mem_directories_ensureParentDirectories.mpr (.inr hq)
  · exact hparents.congr rfl rfl rfl

theorem indexed_step {ws ws' : ResidentWorkspace} {op : ResidentOp} (h : ws.state.Indexed)
    (hchecked : ws.Checked op) (hkind : ws.DropsOneKind op) (heffect : ws.Effect op ws') :
    ws'.state.Indexed := by
  cases heffect with
  | refused => exact h
  | directory hscratch hparse hfile =>
    exact indexed_withDirectory h (hchecked.1 _ rfl _ hparse) hfile
  | replaced hwritten hscratch hparse hsize =>
    have hcreated : op.created = op.written := by
      cases op <;> first | rfl | cases hwritten
    exact h.replaceFile (hchecked.1 _ (hcreated.trans hwritten) _ hparse)
      (hchecked.2 _ hwritten _ hparse) _
  | stored hf hreports hsize =>
    unfold storeContent
    simp only [updateByteCount]
    split <;> exact h.congr rfl rfl rfl
  | unlinked file hunlinked => exact h.congr rfl rfl rfl
  | removed hdropped =>
    rw [state_withStats]
    exact h.removePath (hkind _ hdropped)
  | renamed hmoves hrename =>
    rw [state_withStats]
    have hparsed := hmoves.allowed.parsed
    refine h.renamePath (hchecked.1 _ rfl _ hparsed.2) (hkind _ ?_) hrename
    rw [Option.mem_def, dropped, hparsed.1, hparsed.2]
    exact if_pos hmoves
  | observed =>
    obtain ⟨hdirectories, hchildren⟩ := index_collectEvaluated
      ((SortedSet.toSorted ws.state.dirty).map fun path => (path, ws.state.changeFor path)) ws.state
    exact h.congr (sameFiles_collectEvaluated _ _).files hdirectories hchildren
  | checkpointed paths =>
    obtain ⟨hdirectories, hchildren⟩ := index_checkpointPaths paths ws.state
    have hfiles := (sameFiles_checkpointPaths paths ws.state).files
    unfold markCheckpointed
    split
    next state hpaths =>
      rw [hpaths] at hdirectories hchildren hfiles
      exact h.congr hfiles hdirectories hchildren
    next state e hpaths =>
      rw [hpaths] at hdirectories hchildren hfiles
      exact h.congr hfiles hdirectories hchildren

end ResidentWorkspace

/-! The loaded workspace, where index and counters are computed. -/

section Loaded
open ResidentState

variable {content : ContentSource}
  {cached : (hash : String) → Option {blob : SoundBlob // blob.1.hashHex = hash}}

theorem loadVerified_small (hread : ∀ record bytes, readRecord content record = some bytes →
      bytes.length < 2 ^ 64) {record : FileRecord} {blob : SoundBlob}
    (h : loadVerified content record = .ok blob) : blob.1.bytes.length < 2 ^ 64 := by
  unfold loadVerified at h
  split at h
  · cases h
  next bytes hbytes =>
    split at h
    next hverify =>
      cases h
      obtain ⟨rfl, -⟩ := VerifiedBlob.verify_eq_ok hverify
      exact hread record bytes hbytes
    · cases h

theorem linkFiles_linked {byHash : ByHash}
    (hsmall : byHash.All fun _ blob => blob.1.bytes.length < 2 ^ 64) :
    ∀ (records : List FileRecord) {s out : ResidentState}, s.Linked →
      linkFiles byHash records s = .ok out → out.Linked := by
  intro records
  induction records with
  | nil =>
    intro s out h hout
    cases hout
    exact h
  | cons record rest ih =>
    intro s out h hout
    unfold linkFiles at hout
    split at hout
    · exact ih h hout
    · cases hb : byHash.get? record.hash with
      | none => simp [hb] at hout
      | some blob =>
        simp only [hb] at hout
        exact ih (h.linkNew record.path (.shared blob.1 blob.2)
          (by rw [ResidentFile.len_eq]; exact hsmall _ _ hb)) hout

/-- The index and the counters of a loaded workspace are computed at the end of the load. -/
theorem loadCached_counted (hsmall : content.Small cached) {baseline : Baseline}
    {scratch : String → Bool} {ws : ResidentWorkspace}
    (h : loadCached content cached baseline scratch = .ok ws) :
    ws.Counted ∧ ws.state.children =
      ChildIndex.buildChildren ws.state.files ws.state.directories := by
  unfold loadCached at h
  obtain ⟨⟨byHash, cold⟩, hplan, h⟩ := Run.bind_eq_ok.mp h
  obtain ⟨byHash', hload, h⟩ := Run.bind_eq_ok.mp h
  obtain ⟨state, hlink, h⟩ := Run.bind_eq_ok.mp h
  cases h
  have hplanned := planLoads_all (P := fun _ blob => blob.1.bytes.length < 2 ^ 64) hsmall.cached
    (recordsInOrder (withoutTombstones baseline)) ∅ [] (fun _ _ hget => by cases hget) hplan
  have hloaded := loadRecords_all (fun _ _ => loadVerified_small hsmall.read) cold byHash hplanned hload
  have hempty : (emptyState (withoutTombstones baseline)
      (loadDirectories (recordsInOrder (withoutTombstones baseline)))).Linked :=
    ⟨fun _ _ hp => (by cases hp), fun _ _ _ hp => (by cases hp), fun _ _ hp => (by cases hp)⟩
  have hlinked := linkFiles_linked hloaded _ hempty hlink
  exact ⟨.recount ⟨hlinked.fresh, hlinked.once, hlinked.sized⟩, rfl⟩

/-- A loaded tree has everything above a record. -/
theorem LoadedState.closed {records : Baseline} {s : ResidentState} (h : LoadedState records s) :
    s.Closed := by
  intro p q hp hbelow
  rw [h.directories, mem_baselineDirectories]
  rcases hp with hfile | hdirectory
  · obtain ⟨id, hid⟩ := Option.isSome_iff_exists.mp hfile
    obtain ⟨-, r, hr, -⟩ := h.linkedFrom.content p id hid
    exact ⟨p, r, hr, .inl hbelow⟩
  · rw [h.directories, mem_baselineDirectories] at hdirectory
    obtain ⟨p', r, hr, hbelow' | ⟨rfl, -⟩⟩ := hdirectory
    · exact ⟨p', r, hr, .inl (hbelow'.trans_within hbelow.1)⟩
    · exact ⟨_, r, hr, .inl hbelow⟩

end Loaded

open ResidentWorkspace JournaledWorkspace in
/-- Along every run of checked operations that drop no file entry of a directory, the child index
is the one a rebuild computes, and the counters are the number and the size of the files. -/
theorem index_agrees {content : ContentSource}
    {cached : (hash : String) → Option {blob : SoundBlob // blob.1.hashHex = hash}}
    (hsmall : content.Small cached) {baseline : Baseline} {scratch : String → Bool}
    (hcanon : CanonicalRecords baseline) {ws : ResidentWorkspace}
    (hload : loadCached content cached baseline scratch = .ok ws) (ops : List ResidentOp)
    (hops : Run.Along (fun j op => (j.workspace.Checked op ∧ op.Sized) ∧ j.workspace.DropsOneKind op)
      step ⟨ws, []⟩ ops) :
    (ops.foldl step ⟨ws, []⟩).workspace.IndexAgrees := by
  obtain ⟨hcounted, hchildren⟩ := loadCached_counted hsmall hload
  have hindexed : ws.state.Indexed := .rebuilt (loadCached_spec hcanon hload).1.closed hchildren
  have hrun := Run.foldl_invariant
    (I := fun j : JournaledWorkspace => j.workspace.state.Indexed ∧ j.workspace.Counted)
    (fun j op hop h => ⟨indexed_step h.1 hop.1.1 hop.2 (j.effect_step op),
      h.2.step hop.1.2 (j.effect_step op)⟩) ops ⟨ws, []⟩ hops ⟨hindexed, hcounted⟩
  refine ⟨hrun.1.same, hrun.2.fileCount_eq, ?_⟩
  rw [ResidentState.sum_files]
  exact hrun.2.bytes

end

namespace TestVectors
open ResidentWorkspace JournaledWorkspace

/-- One source has a file `d`, the next one a file `d/f`. -/
def layeredSources : List MemorySource :=
  [.checkpoint "base" [⟨nestedDirectory, empty, 0, .blob⟩],
    .checkpoint "upper" [⟨nestedPath, empty, 0, .blob⟩]]

def layeredBaseline : Baseline :=
  ((∅ : Baseline).insert nestedDirectory ⟨nestedDirectory, empty, 0, .backingBlob ⟨"base", empty⟩⟩).insert
    nestedPath ⟨nestedPath, empty, 0, .backingBlob ⟨"upper", empty⟩⟩

def layeredLoad : Except LoadError ResidentWorkspace :=
  loadCached nestedContent (fun _ => none) layeredBaseline fun _ => false

def layeredWorkspace : ResidentWorkspace :=
  match layeredLoad with
  | .ok ws => ws
  | .error _ => ⟨emptyState ∅ ∅, fun _ => false, 0, 0⟩

theorem layeredLoad_eq : layeredLoad = .ok layeredWorkspace := by
  have hok : layeredLoad.isOk = true := by decide +kernel
  unfold layeredWorkspace
  cases h : layeredLoad with
  | ok ws => rfl
  | error e =>
    rw [h] at hok
    cases hok

/-- Removing the file `d` takes the directory `d` out of the top listing. -/
theorem index_misses_directory :
    buildBaseline (fun _ => false) layeredSources ∅ = .ok layeredBaseline ∧
      layeredLoad = .ok layeredWorkspace ∧
      Run.Along (fun j op => j.workspace.Checked op ∧ op.Sized) step ⟨layeredWorkspace, []⟩
        [.remove "d"] ∧
      ¬([.remove "d"].foldl step ⟨layeredWorkspace, []⟩).workspace.IndexAgrees := by
  refine ⟨rfl, layeredLoad_eq, by decide +kernel, fun h => ?_⟩
  exact absurd (h.children.look "" "d") (by decide +kernel)

theorem nestedContent_small : nestedContent.Small fun _ => none := by
  refine ⟨fun record bytes h => ?_, fun _ _ h => by cases h⟩
  have hempty : bytes = [] := by
    unfold readRecord nestedContent at h
    split at h <;> simp_all
  rw [hempty]
  exact Nat.two_pow_pos 64

/-- Directories and files come, move and go, and index and counters follow. -/
theorem index_agrees_along_moves :
    ([.createDirectory "e", .replace "e/g" [0, 0], .rename "e" "h" true, .resizeOpen "h/g" 1 3,
      .remove "d"].foldl step ⟨nestedWorkspace, []⟩).workspace.IndexAgrees := by
  exact index_agrees nestedContent_small nestedBaseline_canonical nestedLoad_eq _ (by decide +kernel)

end TestVectors
end Workspace
