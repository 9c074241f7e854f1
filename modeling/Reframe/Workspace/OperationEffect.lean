import Reframe.Workspace.JournalRun
import Reframe.Workspace.TreeIndex

/-! What one workspace operation can do, said once: the mutation of the resident state it comes
down to, with the checks that were made before it. -/
namespace Workspace
open NormalizedPath

variable [Blake3]

namespace ResidentFile

/-- A content change reports the lengths before and after it, and leaves the flag. -/
structure Reports (f : ResidentFile) (change : ResidentFile × ℕ × ℕ) : Prop where
  previous : change.2.1 = f.len
  current : change.2.2 = change.1.len
  dirty : change.1.dirty = f.dirty

theorem reports_replace (f : ResidentFile) (bytes : List UInt8) : f.Reports (f.replace bytes) :=
  ⟨rfl, rfl, rfl⟩

theorem reports_resize (f : ResidentFile) (size : ℕ) : f.Reports (f.resize size) := by
  refine ⟨rfl, ?_, rfl⟩
  rw [len_eq, bytes_resize, ByteVector.length_resize]
  rfl

theorem reports_write {f : ResidentFile} {offset : ℕ} {data : List UInt8}
    {change : ResidentFile × ℕ × ℕ} (h : f.write offset data = .ok change) : f.Reports change := by
  unfold write at h
  split at h
  · split at h
    · cases h
      exact ⟨rfl, rfl, rfl⟩
    · split at h
      · cases h
        exact ⟨rfl, rfl, rfl⟩
      · cases h
  · cases h

theorem len_write_lt {f : ResidentFile} {offset : ℕ} {data : List UInt8}
    {change : ResidentFile × ℕ × ℕ} (h : f.write offset data = .ok change)
    (hlen : f.len < 2 ^ 64) : change.1.len < 2 ^ 64 := by
  by_cases hfit : offset + data.length < 2 ^ 64
  · obtain ⟨f', lens, hw, hbytes, -⟩ := f.write_spec offset data hfit
    rw [h] at hw
    cases hw
    rw [len_eq] at hlen ⊢
    rw [hbytes]
    by_cases hdata : data = []
    · rwa [hdata, ByteVector.write_nil]
    · rw [ByteVector.length_write 0 f.bytes offset hdata]
      exact Nat.max_lt.mpr ⟨hlen, hfit⟩
  · rw [write, if_neg hfit] at h
    cases h

end ResidentFile

namespace ResidentOp

/-- The path a call writes to. -/
def written : ResidentOp → Option String
  | .replace path _ | .write path _ _ | .resize path _ => some path
  | _ => none

/-- The path a call may bring into the tree. -/
def created : ResidentOp → Option String
  | .createDirectory path | .replace path _ | .write path _ _ | .resize path _ => some path
  | .rename _ destination _ => some destination
  | _ => none

/-- Sizes and the lengths of buffers are 64-bit numbers. -/
def Sized : ResidentOp → Prop
  | .replace _ bytes | .replaceOpen _ _ bytes => bytes.length < 2 ^ 64
  | .resize _ size | .resizeOpen _ _ size => size < 2 ^ 64
  | _ => True

instance : DecidablePred Sized
  | .replace _ bytes | .replaceOpen _ _ bytes => inferInstanceAs (Decidable (bytes.length < 2 ^ 64))
  | .resize _ size | .resizeOpen _ _ size => inferInstanceAs (Decidable (size < 2 ^ 64))
  | .createDirectory _ | .write _ _ _ | .remove _ | .rename _ _ _ | .writeOpen _ _ _ _
  | .removeOpen _ _ | .changes | .markCheckpointed _ => isTrue trivial

end ResidentOp

namespace ResidentWorkspace

/-- The state after `create_directory` on a path with no file. -/
def withDirectory (s : ResidentState) (path : NormalizedPath) : ResidentState :=
  let (state, insertedParents) := s.ensureParentDirectories path
  let state := { state with dirty := state.dirty ∪ insertedParents.toFinset }
  if path ∉ state.directories then
    { state with
      directories := insert path state.directories
      children := ChildIndex.insertDirectory state.children path
      dirty := insert path state.dirty }
  else state

/-- The workspace after `replace` on a path. -/
def replaced (ws : ResidentWorkspace) (path : NormalizedPath) (bytes : List UInt8) :
    ResidentWorkspace :=
  let (state, _, previous, current, inserted) := ws.state.replaceFile path bytes
  let ws := { ws with
    state
    fileCount := if inserted then (ws.fileCount + 1) % 2 ^ 64 else ws.fileCount }
  ws.updateByteCount previous current

/-- The checks of `rename_with_replace`. -/
structure RenameAllowed (ws : ResidentWorkspace) (source destination : String) (replace : Bool)
    (origin target : NormalizedPath) : Prop where
  scratch : ws.scratch source = false ∧ ws.scratch destination = false
  parsed : parseStr source = .ok origin ∧ parseStr destination = .ok target
  present : ws.state.Resident origin
  replaces : ws.state.Resident target → replace = true
  fileOver : (ws.state.files.get? origin).isSome = true → target ∉ ws.state.directories
  directoryOver : origin ∈ ws.state.directories → ws.state.files.get? target = none
  empty : origin ∈ ws.state.directories → target ∈ ws.state.directories →
    ∀ entries, ws.state.children.get? target.asStr = some entries → entries.size = 0

/-- A rename that passes the checks, to another path that is not below the source. -/
structure Moves (ws : ResidentWorkspace) (source destination : String) (replace : Bool)
    (origin target : NormalizedPath) : Prop where
  allowed : ws.RenameAllowed source destination replace origin target
  apart : origin ≠ target
  outside : ¬target.IsBelow origin

instance (ws : ResidentWorkspace) (source destination : String) (replace : Bool)
    (origin target : NormalizedPath) :
    Decidable (ws.RenameAllowed source destination replace origin target) :=
  decidable_of_iff
    ((ws.scratch source = false ∧ ws.scratch destination = false) ∧
      (parseStr source = .ok origin ∧ parseStr destination = .ok target) ∧
      ws.state.Resident origin ∧ (ws.state.Resident target → replace = true) ∧
      ((ws.state.files.get? origin).isSome = true → target ∉ ws.state.directories) ∧
      (origin ∈ ws.state.directories → ws.state.files.get? target = none) ∧
      (origin ∈ ws.state.directories → target ∈ ws.state.directories →
        ∀ entries ∈ ws.state.children.get? target.asStr, entries.size = 0))
    ⟨fun ⟨h₁, h₂, h₃, h₄, h₅, h₆, h₇⟩ => ⟨h₁, h₂, h₃, h₄, h₅, h₆, h₇⟩,
      fun ⟨h₁, h₂, h₃, h₄, h₅, h₆, h₇⟩ => ⟨h₁, h₂, h₃, h₄, h₅, h₆, h₇⟩⟩

instance (ws : ResidentWorkspace) (source destination : String) (replace : Bool)
    (origin target : NormalizedPath) :
    Decidable (ws.Moves source destination replace origin target) :=
  decidable_of_iff
    (ws.RenameAllowed source destination replace origin target ∧ origin ≠ target ∧
      ¬target.IsBelow origin)
    ⟨fun ⟨h₁, h₂, h₃⟩ => ⟨h₁, h₂, h₃⟩, fun ⟨h₁, h₂, h₃⟩ => ⟨h₁, h₂, h₃⟩⟩

/-- The path whose entry a removal or a rename drops. A rename that is refused drops none. -/
def dropped (ws : ResidentWorkspace) : ResidentOp → Option NormalizedPath
  | .remove path => if ws.scratch path then none else (parseStr path).toOption
  | .removeOpen pathHint id => linkedFilePath ws.state.files pathHint id
  | .rename source destination replace =>
    match parseStr source, parseStr destination with
    | .ok origin, .ok target =>
      if ws.Moves source destination replace origin target then some origin else none
    | _, _ => none
  | _ => none

/-- The data effects of an operation; a refused call has none. -/
inductive Effect (ws : ResidentWorkspace) : ResidentOp → ResidentWorkspace → Prop
  | refused (op : ResidentOp) : Effect ws op ws
  | directory {path : String} {p : NormalizedPath} (hscratch : ws.scratch path = false)
      (hparse : parseStr path = .ok p) (hfile : ws.state.files.get? p = none) :
      Effect ws (.createDirectory path) { ws with state := withDirectory ws.state p }
  | replaced {op : ResidentOp} {path : String} {p : NormalizedPath} {bytes : List UInt8}
      (hop : op.written = some path) (hscratch : ws.scratch path = false)
      (hparse : parseStr path = .ok p) (hsize : op.Sized → bytes.length < 2 ^ 64) :
      Effect ws op (ws.replaced p bytes)
  | stored {op : ResidentOp} {p : NormalizedPath} {id : FileId} {change : ResidentFile × ℕ × ℕ}
      (hlinked : ws.state.files.get? p = some id)
      (hreports : (ws.state.heap id).Reports change)
      (hsize : op.Sized → (ws.state.heap id).len < 2 ^ 64 → change.1.len < 2 ^ 64) :
      Effect ws op (ws.storeContent p id change)
  | unlinked {op : ResidentOp} {id : FileId} (file : ResidentFile)
      (hunlinked : ∀ p, ws.state.files.get? p ≠ some id) :
      Effect ws op { ws with state := ws.state.setFile id file }
  | removed {op : ResidentOp} {p : NormalizedPath} (hdropped : ws.dropped op = some p) :
      Effect ws op (ws.withStats (ws.state.removePath p).1 (ws.state.removePath p).2)
  | renamed {source destination : String} {replace : Bool} {origin target : NormalizedPath}
      {state : ResidentState} {stats : Option (ℕ × ℕ)}
      (hmoves : ws.Moves source destination replace origin target)
      (hrename : ws.state.renamePath origin target = .ok (state, stats)) :
      Effect ws (.rename source destination replace) (ws.withStats state stats)
  | observed : Effect ws .changes ws.changes.1
  | checkpointed (paths : List String) :
      Effect ws (.markCheckpointed paths) (ws.markCheckpointed paths).1

variable {ws ws' : ResidentWorkspace}

/-- A call on a path that may not be scratch. -/
theorem rejectScratch_eq_ok {α : Type} {path : String} {rest : Unit → Except WorkspaceError α}
    {a : α} (h : (ws.rejectScratch path >>= rest) = .ok a) :
    ws.scratch path = false ∧ rest () = .ok a := by
  obtain ⟨_, hscratch, hrest⟩ := Run.bind_eq_ok.mp h
  unfold rejectScratch at hscratch
  split at hscratch
  · cases hscratch
  · exact ⟨Bool.eq_false_iff.mpr ‹_›, hrest⟩

theorem createDirectory_effect {path : String} (h : ws.createDirectory path = .ok ws') :
    ws.Effect (.createDirectory path) ws' := by
  obtain ⟨hscratch, h⟩ := rejectScratch_eq_ok h
  obtain ⟨p, hparse, h⟩ := parse_bind h
  split at h
  · cases h
  · rename_i hfile
    rw [Bool.not_eq_true, FiniteMap.contains_eq_false] at hfile
    have hws : ws' = { ws with state := withDirectory ws.state p } := by
      simp only at h
      unfold withDirectory
      simp only
      split at h
      · rename_i hnew
        rw [if_pos hnew]
        exact (Except.ok.inj h).symm
      · rename_i hnew
        rw [if_neg hnew]
        exact (Except.ok.inj h).symm
    rw [hws]
    exact .directory hscratch hparse hfile

theorem replace_eq {path : String} {bytes : List UInt8} {kind : ChangeKind}
    (h : ws.replace path bytes = .ok (ws', kind)) :
    ws.scratch path = false ∧ ∃ p, parseStr path = .ok p ∧ ws' = ws.replaced p bytes := by
  obtain ⟨hscratch, h⟩ := rejectScratch_eq_ok h
  obtain ⟨p, hparse, h⟩ := parse_bind h
  cases h
  exact ⟨hscratch, p, hparse, rfl⟩

/-- Calls on a missing file go on as a replacement under the parsed text. -/
theorem replace_parsed {p : NormalizedPath} {bytes : List UInt8} {kind : ChangeKind}
    (h : ws.replace p.asStr bytes = .ok (ws', kind)) : ws' = ws.replaced p bytes := by
  obtain ⟨-, q, hq, rfl⟩ := replace_eq h
  rw [parseStr_asStr] at hq
  cases hq
  rfl

omit [Blake3] in
theorem mapError_eq_ok {α : Type} {x : Except FileError α} {a : α}
    (h : x.mapError WorkspaceError.file = .ok a) : x = .ok a := by
  cases x with
  | ok b =>
    cases h
    rfl
  | error e => cases h

theorem write_effect {path : String} {offset : ℕ} {data : List UInt8} {kind : ChangeKind}
    (h : ws.write path offset data = .ok (ws', kind)) :
    ws.Effect (.write path offset data) ws' := by
  obtain ⟨hscratch, h⟩ := rejectScratch_eq_ok h
  obtain ⟨p, hparse, h⟩ := parse_bind h
  cases hf : ws.state.files.get? p with
  | none =>
    simp only [hf] at h
    split at h
    · rename_i hfit
      rw [replace_parsed h]
      exact .replaced rfl hscratch hparse fun _ => by
        rwa [List.length_append, List.length_replicate]
    · cases h
  | some id =>
    simp only [hf] at h
    obtain ⟨change, hw, h⟩ := Run.bind_eq_ok.mp h
    cases h
    have hw := mapError_eq_ok hw
    exact .stored hf (ResidentFile.reports_write hw) fun _ => ResidentFile.len_write_lt hw

theorem resize_effect {path : String} {size : ℕ} {kind : ChangeKind}
    (h : ws.resize path size = .ok (ws', kind)) : ws.Effect (.resize path size) ws' := by
  obtain ⟨hscratch, h⟩ := rejectScratch_eq_ok h
  obtain ⟨p, hparse, h⟩ := parse_bind h
  cases hf : ws.state.files.get? p with
  | none =>
    simp only [hf] at h
    rw [replace_parsed h]
    exact .replaced rfl hscratch hparse fun hsize => by rwa [List.length_replicate]
  | some id =>
    simp only [hf] at h
    cases h
    have hreports := (ws.state.heap id).reports_resize size
    exact .stored hf hreports fun hsize _ => hreports.current ▸ hsize

/-- A change through an open object is stored at its path, or stays with the object. -/
theorem storeOpen_effect {op : ResidentOp} {pathHint : String} {id : FileId}
    {change : ResidentFile × ℕ × ℕ} (hreports : (ws.state.heap id).Reports change)
    (hsize : op.Sized → (ws.state.heap id).len < 2 ^ 64 → change.1.len < 2 ^ 64) :
    ws.Effect op (ws.storeOpen pathHint id change) := by
  unfold storeOpen
  split
  next path hp => exact .stored (linkedFilePath_eq_some hp) hreports hsize
  next hp => exact .unlinked change.1 (linkedFilePath_eq_none hp)

theorem remove_effect {path : String} (h : ws.remove path = .ok ws') :
    ws.Effect (.remove path) ws' := by
  unfold remove at h
  split at h
  · cases h
    exact .refused _
  · rename_i hscratch
    obtain ⟨p, hparse, h⟩ := parse_bind h
    cases h
    exact .removed (by rw [dropped, if_neg hscratch, hparse]; rfl)

theorem removeOpenFile_effect (ws : ResidentWorkspace) (pathHint : String) (id : FileId) :
    ws.Effect (.removeOpen pathHint id) (ws.removeOpenFile pathHint id).1 := by
  unfold removeOpenFile
  split
  next => exact .refused _
  next path hp => exact .removed hp

omit [Blake3] in
theorem parse_eq_ok {path : String} {p : NormalizedPath} :
    parse path = .ok p ↔ parseStr path = .ok p := by
  unfold parse
  cases parseStr path <;> simp [Except.mapError]

/-- A rename that succeeds is one to the same path, or moves the source. -/
theorem renameWithReplace_eq_ok {source destination : String} {replace : Bool}
    {outcome : RenameOutcome}
    (h : ws.renameWithReplace source destination replace = .ok (ws', outcome)) :
    ∃ origin target, parseStr source = .ok origin ∧ parseStr destination = .ok target ∧
      (origin = target ∧ ws' = ws ∨
        ws.Moves source destination replace origin target ∧ ∃ state stats,
          ws.state.renamePath origin target = .ok (state, stats) ∧
            ws' = ws.withStats state stats) := by
  obtain ⟨hfrom, h⟩ := rejectScratch_eq_ok h
  obtain ⟨hto, h⟩ := rejectScratch_eq_ok h
  obtain ⟨origin, hsource, h⟩ := parse_bind h
  obtain ⟨target, hdestination, h⟩ := parse_bind h
  refine ⟨origin, target, hsource, hdestination, ?_⟩
  simp only at h
  split at h
  · cases h
  rename_i hpresent
  split at h
  · rename_i heq
    cases h
    exact .inl ⟨heq, rfl⟩
  rename_i hne
  split at h
  · cases h
  rename_i hreplaces
  split at h
  · cases h
  rename_i hfile
  split at h
  · cases h
  rename_i hdirectory
  split at h
  · cases h
  rename_i hempty
  obtain ⟨⟨state, stats⟩, hrename, h⟩ := Run.bind_eq_ok.mp h
  cases h
  have hout : ¬target.IsBelow origin := by
    rcases ResidentState.renamePath_cases hrename with ⟨heq, -⟩ | ⟨-, hbelow, -⟩
    · exact absurd heq hne
    · exact hbelow
  refine .inr ⟨⟨⟨⟨hfrom, hto⟩, ⟨hsource, hdestination⟩, ?_, fun hres => ?_, fun hf => ?_,
    fun hd => ?_, fun hd ht entries hentries => ?_⟩, hne, hout⟩, state, stats, hrename, rfl⟩
  · by_contra hnone
    obtain ⟨hnofile, hnodirectory⟩ := not_or.mp hnone
    exact hpresent (by simp [FiniteMap.contains, hnofile, hnodirectory])
  · rcases hres with hres | hres
    · simpa [hres] using hreplaces
    · simpa [hres] using hreplaces
  · simpa [FiniteMap.contains, hf] using hfile
  · simpa [hd] using hdirectory
  · simpa [hd, ht, hentries] using hempty

theorem rename_effect {source destination : String} {replace : Bool} {outcome : RenameOutcome}
    (h : ws.renameWithReplace source destination replace = .ok (ws', outcome)) :
    ws.Effect (.rename source destination replace) ws' := by
  obtain ⟨origin, target, -, -, ⟨-, rfl⟩ | ⟨hmoves, state, stats, hrename, rfl⟩⟩ :=
    renameWithReplace_eq_ok h
  · exact .refused _
  · exact .renamed hmoves hrename

/-- Every step of a run has one of these effects. -/
theorem effect_after {op : ResidentOp} {result : Except WorkspaceError ResidentWorkspace}
    (h : ∀ ws', result = .ok ws' → ws.Effect op ws') : ws.Effect op (ws.after result) := by
  cases result with
  | ok ws' => exact h ws' rfl
  | error e => exact .refused op

end ResidentWorkspace

open ResidentWorkspace JournaledWorkspace in
theorem JournaledWorkspace.effect_step (j : JournaledWorkspace) (op : ResidentOp) :
    j.workspace.Effect op (j.step op).workspace := by
  cases op with
  | createDirectory path => exact effect_after fun ws' hr => createDirectory_effect hr
  | replace path bytes =>
    refine effect_after fun ws' hr => ?_
    obtain ⟨kind, hr⟩ := map_fst_eq_ok hr
    obtain ⟨hscratch, p, hparse, rfl⟩ := replace_eq hr
    exact .replaced rfl hscratch hparse id
  | write path offset data =>
    refine effect_after fun ws' hr => ?_
    obtain ⟨kind, hr⟩ := map_fst_eq_ok hr
    exact write_effect hr
  | resize path size =>
    refine effect_after fun ws' hr => ?_
    obtain ⟨kind, hr⟩ := map_fst_eq_ok hr
    exact resize_effect hr
  | remove path => exact effect_after fun ws' hr => remove_effect hr
  | rename source destination replace =>
    refine effect_after fun ws' hr => ?_
    obtain ⟨outcome, hr⟩ := map_fst_eq_ok hr
    exact rename_effect hr
  | writeOpen pathHint id offset data =>
    refine effect_after fun ws' hr => ?_
    obtain ⟨change, hw, hr⟩ := Run.bind_eq_ok.mp hr
    cases hr
    have hw := mapError_eq_ok hw
    exact storeOpen_effect (ResidentFile.reports_write hw) fun _ => ResidentFile.len_write_lt hw
  | resizeOpen pathHint id size =>
    have hreports := (j.workspace.state.heap id).reports_resize size
    exact storeOpen_effect hreports fun hsize _ => hreports.current ▸ hsize
  | replaceOpen pathHint id bytes =>
    exact storeOpen_effect ((j.workspace.state.heap id).reports_replace bytes) fun hsize _ => hsize
  | removeOpen pathHint id => exact removeOpenFile_effect j.workspace pathHint id
  | changes => exact .observed
  | markCheckpointed paths => exact .checkpointed paths

end Workspace
