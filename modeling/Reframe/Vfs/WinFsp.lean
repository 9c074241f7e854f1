import Mathlib
import Reframe.Workspace.ScratchFree

/-! The WinFsp runtime: callbacks on a resident workspace and on handles that follow their file or
directory. Paths arrive normalized, and the empty path is the root of the volume. -/
namespace Workspace
open NormalizedPath

/-- A normalized path of the mounted tree; `none` is the root. -/
abbrev VfsPath := Option NormalizedPath

namespace VfsPath

def text : VfsPath → String
  | none => ""
  | some p => p.asStr

/-- `rsplit_once('/')`: the part before the last separator. -/
def parent : VfsPath → VfsPath
  | none => none
  | some p => p.takeParts (p.parts.length - 1)

end VfsPath

namespace ResidentWorkspace

variable [Blake3]

def isDirectory (ws : ResidentWorkspace) : VfsPath → Bool
  | none => true
  | some p => decide (p ∈ ws.state.directories)

def containsPath (ws : ResidentWorkspace) : VfsPath → Bool
  | none => true
  | some p => decide (p ∈ ws.state.directories) || ws.state.files.contains p

/-- `file`: the object linked at a path. -/
def fileOf (ws : ResidentWorkspace) : VfsPath → Option FileId
  | none => none
  | some p => ws.state.files.get? p

/-- Whether `entries` of a directory is empty. -/
def hasNoEntries (ws : ResidentWorkspace) (path : VfsPath) : Bool :=
  match ws.state.children.get? path.text with
  | some entries => entries.size = 0
  | none => true

end ResidentWorkspace

namespace WinFsp

variable [Blake3]

/-- Refusals of the runtime; `status::mutation` maps a workspace error to a code by its text. -/
inductive Status where
  | invalidParameter
  | accessDenied
  | objectNameNotFound
  | objectNameCollision
  | objectPathNotFound
  | fileIsADirectory
  | directoryNotEmpty
  | notADirectory
  | mutation (error : WorkspaceError)
  deriving DecidableEq

inductive HandleKind where
  | residentFile (file : FileId)
  | residentDirectory
  deriving DecidableEq

structure Handle where
  path : VfsPath
  kind : HandleKind
  linked : Bool
  deriving DecidableEq

/-- Handles are named by their position, in the order they were opened. -/
structure Runtime where
  resident : ResidentWorkspace
  handles : List Handle

namespace Runtime

/-- Whether a path is a directory, if it is there. -/
def lookup (r : Runtime) (path : VfsPath) : Except Status Bool :=
  if r.resident.isDirectory path then .ok true
  else if (r.resident.fileOf path).isSome then .ok false
  else .error .objectNameNotFound

def openHandle (r : Runtime) (path : VfsPath) (isDirectory : Bool) :
    Runtime × Except Status ℕ :=
  let opened (kind : HandleKind) : Runtime × Except Status ℕ :=
    ({ r with handles := r.handles ++ [⟨path, kind, true⟩] }, .ok r.handles.length)
  if isDirectory then opened .residentDirectory
  else match r.resident.fileOf path with
    | some file => opened (.residentFile file)
    | none => (r, .error .objectNameNotFound)

def requireParent (r : Runtime) (path : VfsPath) : Except Status Unit :=
  if r.resident.isDirectory path.parent then .ok () else .error .objectPathNotFound

/-- A call of the resident workspace; a refused one leaves it as it was. -/
def mutate {α : Type} (r : Runtime) (result : Except WorkspaceError (ResidentWorkspace × α)) :
    Runtime × Except Status α :=
  match result with
  | .ok (resident, a) => ({ r with resident }, .ok a)
  | .error e => (r, .error (.mutation e))

/-- `create`, with the directory bit of its options. -/
def create (r : Runtime) (path : VfsPath) (isDirectory : Bool) : Runtime × Except Status ℕ :=
  if r.resident.containsPath path then (r, .error .objectNameCollision)
  else match r.requireParent path with
    | .error e => (r, .error e)
    | .ok () =>
      let result :=
        if isDirectory then (r.resident.createDirectory path.text).map fun ws => (ws, ())
        else (r.resident.replace path.text []).map fun (ws, _) => (ws, ())
      match r.mutate result with
      | (r, .error e) => (r, .error e)
      | (r, .ok ()) => r.openHandle path isDirectory

/-- `open`, with the two kind bits of its options. -/
def openPath (r : Runtime) (path : VfsPath) (directoryFile nonDirectoryFile : Bool) :
    Runtime × Except Status ℕ :=
  match r.lookup path with
  | .error e => (r, .error e)
  | .ok isDirectory =>
    if directoryFile && !isDirectory then (r, .error .notADirectory)
    else if nonDirectoryFile && isDirectory then (r, .error .fileIsADirectory)
    else r.openHandle path isDirectory

def overwrite (r : Runtime) (handle : Handle) : Runtime × Except Status Unit :=
  match handle.kind with
  | .residentDirectory => (r, .error .fileIsADirectory)
  | .residentFile file =>
    ({ r with resident := r.resident.replaceOpenFile handle.path.text file [] }, .ok ())

/-- The number of bytes written. -/
def write (r : Runtime) (handle : Handle) (input : List UInt8) (offset : ℕ)
    (append constrained : Bool) : Runtime × Except Status ℕ :=
  match handle.kind with
  | .residentDirectory => (r, .error .fileIsADirectory)
  | .residentFile file =>
    let len := (r.resident.state.heap file).len
    let offset := if append then len else offset
    let input := if constrained then input.take (len - offset) else input
    if input = [] then (r, .ok 0)
    else r.mutate ((r.resident.writeOpenFile handle.path.text file offset input).map
      fun ws => (ws, input.length))

def resize (r : Runtime) (handle : Handle) (size : ℕ) (allocationOnly : Bool) :
    Runtime × Except Status Unit :=
  match handle.kind with
  | .residentDirectory => (r, .error .fileIsADirectory)
  | .residentFile file =>
    if !allocationOnly || size < (r.resident.state.heap file).len then
      ({ r with resident := r.resident.resizeOpenFile handle.path.text file size }, .ok ())
    else (r, .ok ())

/-- Handles on what a rename replaced are unlinked. -/
def markReplacedHandles (r : Runtime) (destination : VfsPath) (outcome : RenameOutcome) : Runtime :=
  { r with
    handles := r.handles.map fun handle =>
      let replaced : Bool := match handle.kind, outcome.replacedFile with
        | .residentFile file, some replaced => decide (file = replaced)
        | .residentDirectory, _ => outcome.replacedDirectory && decide (handle.path = destination)
        | _, _ => false
      if replaced then { handle with linked := false } else handle }

/-- Linked handles below the source follow it. -/
def rewriteOpenPaths (r : Runtime) (source destination : VfsPath) : Runtime :=
  { r with
    handles := r.handles.map fun handle =>
      match handle.linked, handle.path, source, destination with
      | true, some path, some source, some destination =>
        { handle with path := (path.rewritten source destination).or (some path) }
      | _, _, _, _ => handle }

def rename (r : Runtime) (source destination : VfsPath) (replace : Bool) :
    Runtime × Except Status Unit :=
  if destination = none then (r, .error .accessDenied)
  else match r.requireParent destination with
    | .error e => (r, .error e)
    | .ok () =>
      match r.mutate (r.resident.renameWithReplace source.text destination.text replace) with
      | (r, .error e) => (r, .error e)
      | (r, .ok outcome) =>
        ((r.markReplacedHandles destination outcome).rewriteOpenPaths source destination, .ok ())

def canDelete (r : Runtime) (handle : Handle) : Except Status Unit :=
  if !handle.linked then .ok ()
  else if handle.path = none then .error .accessDenied
  else if handle.kind = .residentDirectory ∧ ¬r.resident.hasNoEntries handle.path then
    .error .directoryNotEmpty
  else .ok ()

/-- Handles on the node of a deleted handle are unlinked. -/
def markNodeUnlinked (r : Runtime) (target : Handle) : Runtime :=
  { r with
    handles := r.handles.map fun handle =>
      let sameNode : Bool := match handle.kind, target.kind with
        | .residentFile left, .residentFile right => decide (left = right)
        | .residentDirectory, .residentDirectory => decide (handle.path = target.path)
        | _, _ => false
      if sameNode then { handle with linked := false } else handle }

def delete (r : Runtime) (handle : Handle) : Runtime × Except Status Unit :=
  match r.canDelete handle with
  | .error e => (r, .error e)
  | .ok () =>
    if !handle.linked then (r, .ok ())
    else match handle.kind with
      | .residentFile file =>
        let r := { r with resident := (r.resident.removeOpenFile handle.path.text file).1 }
        (r.markNodeUnlinked handle, .ok ())
      | .residentDirectory =>
        match r.mutate ((r.resident.remove handle.path.text).map fun ws => (ws, ())) with
        | (r, .error e) => (r, .error e)
        | (r, .ok ()) => (r.markNodeUnlinked handle, .ok ())

end Runtime

/-- Callbacks, and the daemon's readings and checkpoints of the journal between them. -/
inductive Op where
  | create (path : VfsPath) (isDirectory : Bool)
  | openPath (path : VfsPath) (directoryFile nonDirectoryFile : Bool)
  | overwrite (handle : ℕ)
  | write (handle : ℕ) (input : List UInt8) (offset : ℕ) (append constrained : Bool)
  | resize (handle : ℕ) (size : ℕ) (allocationOnly : Bool)
  | rename (source destination : VfsPath) (replace : Bool)
  | delete (handle : ℕ)
  | changes
  | markCheckpointed (paths : List String)
  deriving DecidableEq

namespace Runtime

/-- A callback on an open handle. -/
def onHandle {α : Type} (r : Runtime) (handle : ℕ) (callback : Handle → Runtime × α) : Runtime :=
  match r.handles[handle]? with
  | some handle => (callback handle).1
  | none => r

def step (r : Runtime) : Op → Runtime
  | .create path isDirectory => (r.create path isDirectory).1
  | .openPath path directoryFile nonDirectoryFile =>
    (r.openPath path directoryFile nonDirectoryFile).1
  | .overwrite handle => r.onHandle handle r.overwrite
  | .write handle input offset append constrained =>
    r.onHandle handle fun handle => r.write handle input offset append constrained
  | .resize handle size allocationOnly =>
    r.onHandle handle fun handle => r.resize handle size allocationOnly
  | .rename source destination replace => (r.rename source destination replace).1
  | .delete handle => r.onHandle handle r.delete
  | .changes => { r with resident := r.resident.changes.1 }
  | .markCheckpointed paths => { r with resident := (r.resident.markCheckpointed paths).1 }

/-- The call of the resident workspace a callback comes down to, with what was checked first. -/
inductive Calls (r : Runtime) : Op → ResidentOp → Prop
  | createDirectory {p : NormalizedPath} (hnew : r.resident.containsPath (some p) = false)
      (hparent : r.resident.isDirectory (VfsPath.parent (some p)) = true) :
      Calls r (.create (some p) true) (.createDirectory p.asStr)
  | createFile {p : NormalizedPath} (hnew : r.resident.containsPath (some p) = false)
      (hparent : r.resident.isDirectory (VfsPath.parent (some p)) = true) :
      Calls r (.create (some p) false) (.replace p.asStr [])
  | rename {source : VfsPath} {p : NormalizedPath} {replace : Bool}
      (hparent : r.resident.isDirectory (VfsPath.parent (some p)) = true) :
      Calls r (.rename source (some p) replace) (.rename source.text p.asStr replace)
  | inPlace {op : Op} {call : ResidentOp} (hcreated : call.created = none) : Calls r op call

theorem mutate_resident {α : Type} (r : Runtime)
    (result : Except WorkspaceError (ResidentWorkspace × α)) :
    (r.mutate result).1.resident = r.resident.after (result.map Prod.fst) := by
  cases result <;> rfl

theorem openHandle_resident (r : Runtime) (path : VfsPath) (isDirectory : Bool) :
    (r.openHandle path isDirectory).1.resident = r.resident := by
  unfold openHandle
  simp only
  split
  · rfl
  · split <;> rfl

/-- The resident workspace is as it was, or one call with these checks was made. -/
def Follows (r : Runtime) (op : Op) (ws : ResidentWorkspace) : Prop :=
  ws = r.resident ∨ ∃ call, Calls r op call ∧ r.resident.Effect call ws

theorem follows_onHandle {α : Type} {r : Runtime} {op : Op} (i : ℕ)
    {callback : Handle → Runtime × α} (h : ∀ handle, r.Follows op (callback handle).1.resident) :
    r.Follows op (r.onHandle i callback).resident := by
  unfold onHandle
  split
  · exact h _
  · exact .inl rfl

/-- A call of the resident workspace, whatever became of it. -/
theorem follows_call {r : Runtime} {op : Op} {call : ResidentOp} (hcalls : Calls r op call) :
    r.Follows op (JournaledWorkspace.step ⟨r.resident, []⟩ call).workspace :=
  .inr ⟨call, hcalls, JournaledWorkspace.effect_step ⟨r.resident, []⟩ call⟩

theorem map_map_fst {α : Type} (a : α) (result : Except WorkspaceError ResidentWorkspace) :
    (result.map fun ws => (ws, a)).map Prod.fst = result := by
  cases result <;> rfl

theorem follows_create (r : Runtime) (path : VfsPath) (isDirectory : Bool) :
    r.Follows (.create path isDirectory) (r.create path isDirectory).1.resident := by
  unfold create
  split
  · exact .inl rfl
  · rename_i hnew
    rw [Bool.not_eq_true] at hnew
    cases path with
    | none => cases hnew
    | some p =>
      unfold requireParent
      by_cases hparent : r.resident.isDirectory (VfsPath.parent (some p)) = true
      · simp only [hparent, if_true]
        have hcalls : r.Follows (.create (some p) isDirectory) (r.mutate (if isDirectory = true
            then (r.resident.createDirectory (VfsPath.text (some p))).map fun ws => (ws, ())
            else (r.resident.replace (VfsPath.text (some p)) []).map fun x => (x.1, ()))).1.resident := by
          rw [mutate_resident]
          cases isDirectory with
          | true =>
            rw [if_pos rfl, map_map_fst]
            exact follows_call (.createDirectory hnew hparent)
          | false =>
            have hmap : ((r.resident.replace (VfsPath.text (some p)) []).map
                fun x => (x.1, ())).map Prod.fst =
                  (r.resident.replace p.asStr []).map (·.1) := by
              cases h : r.resident.replace (VfsPath.text (some p)) [] <;>
                (rw [show VfsPath.text (some p) = p.asStr from rfl] at h; rw [h]; rfl)
            rw [if_neg Bool.false_ne_true, hmap]
            exact follows_call (.createFile hnew hparent)
        split
        · rename_i heq
          rwa [heq] at hcalls
        · rename_i heq
          rw [openHandle_resident]
          rwa [heq] at hcalls
      · simp only [hparent]
        exact .inl rfl

theorem follows_rename (r : Runtime) (source destination : VfsPath) (replace : Bool) :
    r.Follows (.rename source destination replace)
      (r.rename source destination replace).1.resident := by
  unfold rename
  cases destination with
  | none => exact .inl rfl
  | some p =>
    rw [if_neg (by simp)]
    unfold requireParent
    by_cases hparent : r.resident.isDirectory (VfsPath.parent (some p)) = true
    · simp only [hparent, if_true]
      have hcalls : r.Follows (.rename source (some p) replace) (r.mutate
          (r.resident.renameWithReplace source.text (VfsPath.text (some p)) replace)).1.resident := by
        rw [mutate_resident]
        exact follows_call (.rename hparent)
      split
      · rename_i heq
        rwa [heq] at hcalls
      · rename_i heq
        rwa [heq] at hcalls
    · simp only [hparent]
      exact .inl rfl

/-- One callback makes at most one call that changes the resident workspace. -/
theorem follows_step (r : Runtime) (op : Op) : r.Follows op (r.step op).resident := by
  cases op with
  | create path isDirectory => exact follows_create r path isDirectory
  | openPath path directoryFile nonDirectoryFile =>
    refine .inl ?_
    simp only [step, openPath]
    split
    · rfl
    · split
      · rfl
      · split
        · rfl
        · exact openHandle_resident r path _
  | overwrite i =>
    refine follows_onHandle i fun handle => ?_
    unfold overwrite
    split
    next => exact .inl rfl
    next file _ =>
      have hcalls : Calls r (.overwrite i) (.replaceOpen handle.path.text file []) := .inPlace rfl
      exact follows_call hcalls
  | write i input offset append constrained =>
    refine follows_onHandle i fun handle => ?_
    unfold write
    split
    next => exact .inl rfl
    next file _ =>
      simp only
      generalize (if append = true then (r.resident.state.heap file).len else offset) = start
      generalize (if constrained = true then
        input.take ((r.resident.state.heap file).len - start) else input) = data
      split
      · exact .inl rfl
      · rw [mutate_resident, map_map_fst]
        have hcalls : Calls r (.write i input offset append constrained)
            (.writeOpen handle.path.text file start data) := .inPlace rfl
        exact follows_call hcalls
  | resize i size allocationOnly =>
    refine follows_onHandle i fun handle => ?_
    unfold resize
    split
    next => exact .inl rfl
    next file _ =>
      split
      · have hcalls : Calls r (.resize i size allocationOnly)
            (.resizeOpen handle.path.text file size) := .inPlace rfl
        exact follows_call hcalls
      · exact .inl rfl
  | rename source destination replace => exact follows_rename r source destination replace
  | delete i =>
    refine follows_onHandle i fun handle => ?_
    unfold delete
    split
    · exact .inl rfl
    · split
      · exact .inl rfl
      · split
        next file _ =>
          have hcalls : Calls r (.delete i) (.removeOpen handle.path.text file) := .inPlace rfl
          exact follows_call hcalls
        next =>
          have hcalls : Calls r (.delete i) (.remove handle.path.text) := .inPlace rfl
          have hremove : r.Follows (.delete i) (r.mutate
              ((r.resident.remove handle.path.text).map fun ws => (ws, ()))).1.resident := by
            rw [mutate_resident, map_map_fst]
            exact follows_call hcalls
          split
          · rename_i heq
            rwa [heq] at hremove
          · rename_i heq
            rwa [heq] at hremove
  | changes =>
    have hcalls : Calls r .changes .changes := .inPlace rfl
    exact follows_call hcalls
  | markCheckpointed paths =>
    have hcalls : Calls r (.markCheckpointed paths) (.markCheckpointed paths) := .inPlace rfl
    exact follows_call hcalls

end Runtime

end WinFsp
end Workspace
