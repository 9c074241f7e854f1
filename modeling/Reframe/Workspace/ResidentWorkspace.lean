import Reframe.Workspace.ResidentState

/-! The operations of a resident workspace: scratch and path checks, the mutation of the
resident state, and the file and byte counters. -/
namespace Workspace

variable [Blake3]

structure ResidentWorkspace where
  state : ResidentState
  scratch : String → Bool
  fileCount : ℕ
  byteCount : ℕ

structure RenameOutcome where
  replacedFile : Option FileId
  replacedDirectory : Bool
  deriving DecidableEq

namespace ResidentWorkspace

/-- Wrapping 64-bit atomics. -/
def updateByteCount (ws : ResidentWorkspace) (previous current : ℕ) : ResidentWorkspace :=
  { ws with
    byteCount :=
      if previous ≤ current then (ws.byteCount + (current - previous)) % 2 ^ 64
      else (ws.byteCount + 2 ^ 64 - (previous - current)) % 2 ^ 64 }

def subtractStats (ws : ResidentWorkspace) (files bytes : ℕ) : ResidentWorkspace :=
  { ws with
    fileCount := (ws.fileCount + 2 ^ 64 - files) % 2 ^ 64
    byteCount := (ws.byteCount + 2 ^ 64 - bytes) % 2 ^ 64 }

/-- `state_stats` followed by `replace_stats`. -/
def recount (ws : ResidentWorkspace) : ResidentWorkspace :=
  { ws with
    fileCount := ws.state.files.size
    byteCount := (ws.state.files.toList.map fun e => (ws.state.heap e.2).len).sum % 2 ^ 64 }

/-- Counters after a mutation: adjusted by its statistics, or recounted. -/
def withStats (ws : ResidentWorkspace) (state : ResidentState) (stats : Option (ℕ × ℕ)) :
    ResidentWorkspace :=
  match stats with
  | some (files, bytes) => { ws with state }.subtractStats files bytes
  | none => { ws with state }.recount

def parse (path : String) : Except WorkspaceError NormalizedPath :=
  (NormalizedPath.parseStr path).mapError .path

def rejectScratch (ws : ResidentWorkspace) (path : String) : Except WorkspaceError Unit :=
  if ws.scratch path then .error (.scratchContent path) else .ok ()

def createDirectory (ws : ResidentWorkspace) (path : String) :
    Except WorkspaceError ResidentWorkspace := do
  ws.rejectScratch path
  let path ← parse path
  if ws.state.files.contains path then .error (.directoryOverFile path)
  else
    let (state, insertedParents) := ws.state.ensureParentDirectories path
    let state := { state with dirty := state.dirty ∪ insertedParents.toFinset }
    if path ∉ state.directories then
      .ok { ws with state := { state with
        directories := insert path state.directories
        children := ChildIndex.insertDirectory state.children path
        dirty := insert path state.dirty } }
    else .ok { ws with state }

def replace (ws : ResidentWorkspace) (path : String) (bytes : List UInt8) :
    Except WorkspaceError (ResidentWorkspace × ChangeKind) := do
  ws.rejectScratch path
  let path ← parse path
  let (state, kind, previous, current, inserted) := ws.state.replaceFile path bytes
  let ws := { ws with
    state
    fileCount := if inserted then (ws.fileCount + 1) % 2 ^ 64 else ws.fileCount }
  .ok (ws.updateByteCount previous current, kind)

/-- After a content change through a shared object: the object, the byte counter, and the dirty
entry that only the call that sets the flag makes. -/
def storeContent (ws : ResidentWorkspace) (path : NormalizedPath) (id : FileId)
    (change : ResidentFile × ℕ × ℕ) : ResidentWorkspace :=
  let (file, previous, current) := change
  let ws := ws.updateByteCount previous current
  let (first, file) := file.markDirty
  let state := ws.state.setFile id file
  { ws with state := if first then { state with dirty := insert path state.dirty } else state }

def write (ws : ResidentWorkspace) (path : String) (offset : ℕ) (data : List UInt8) :
    Except WorkspaceError (ResidentWorkspace × ChangeKind) := do
  ws.rejectScratch path
  let path ← parse path
  match ws.state.files.get? path with
  | none =>
    if offset + data.length < 2 ^ 64 then
      ws.replace path.asStr (List.replicate offset 0 ++ data)
    else .error (.file .writeLengthOverflow)
  | some id => do
    let kind := ws.state.kindOfWrite path
    let change ← ((ws.state.heap id).write offset data).mapError .file
    .ok (ws.storeContent path id change, kind)

def resize (ws : ResidentWorkspace) (path : String) (size : ℕ) :
    Except WorkspaceError (ResidentWorkspace × ChangeKind) := do
  ws.rejectScratch path
  let path ← parse path
  match ws.state.files.get? path with
  | none => ws.replace path.asStr (List.replicate size 0)
  | some id =>
    let kind := ws.state.kindOfWrite path
    .ok (ws.storeContent path id ((ws.state.heap id).resize size), kind)

/-- The path an object is linked at, tried first under the hint. -/
def linkedFilePath (files : FiniteMap NormalizedPath FileId) (pathHint : String) (id : FileId) :
    Option NormalizedPath :=
  ((files.toList.find? fun e => e.1.asStr = pathHint ∧ e.2 = id).or
    (files.toList.find? fun e => e.2 = id)).map Prod.fst

/-- A content change through an open object: an unlinked object changes alone. -/
def storeOpen (ws : ResidentWorkspace) (pathHint : String) (id : FileId)
    (change : ResidentFile × ℕ × ℕ) : ResidentWorkspace :=
  match linkedFilePath ws.state.files pathHint id with
  | some path => ws.storeContent path id change
  | none => { ws with state := ws.state.setFile id change.1 }

def writeOpenFile (ws : ResidentWorkspace) (pathHint : String) (id : FileId) (offset : ℕ)
    (data : List UInt8) : Except WorkspaceError ResidentWorkspace := do
  let change ← ((ws.state.heap id).write offset data).mapError .file
  .ok (ws.storeOpen pathHint id change)

def resizeOpenFile (ws : ResidentWorkspace) (pathHint : String) (id : FileId) (size : ℕ) :
    ResidentWorkspace :=
  ws.storeOpen pathHint id ((ws.state.heap id).resize size)

def replaceOpenFile (ws : ResidentWorkspace) (pathHint : String) (id : FileId)
    (bytes : List UInt8) : ResidentWorkspace :=
  ws.storeOpen pathHint id ((ws.state.heap id).replace bytes)

def remove (ws : ResidentWorkspace) (path : String) : Except WorkspaceError ResidentWorkspace :=
  if ws.scratch path then .ok ws
  else do
    let path ← parse path
    let (state, stats) := ws.state.removePath path
    .ok (ws.withStats state stats)

/-- Whether the object was linked and has been removed. -/
def removeOpenFile (ws : ResidentWorkspace) (pathHint : String) (id : FileId) :
    ResidentWorkspace × Bool :=
  match linkedFilePath ws.state.files pathHint id with
  | none => (ws, false)
  | some path =>
    let (state, stats) := ws.state.removePath path
    (ws.withStats state stats, true)

def renameWithReplace (ws : ResidentWorkspace) (source destination : String) (replace : Bool) :
    Except WorkspaceError (ResidentWorkspace × RenameOutcome) := do
  ws.rejectScratch source
  ws.rejectScratch destination
  let source ← parse source
  let destination ← parse destination
  let sourceIsFile := ws.state.files.contains source
  let sourceIsDirectory := decide (source ∈ ws.state.directories)
  let destinationFile := ws.state.files.get? destination
  let destinationIsDirectory := decide (destination ∈ ws.state.directories)
  if !sourceIsFile && !sourceIsDirectory then .error (.renameSourceMissing source)
  else if source = destination then .ok (ws, ⟨none, false⟩)
  else if (destinationFile.isSome || destinationIsDirectory) && !replace then
    .error (.renameDestinationExists destination)
  else if sourceIsFile && destinationIsDirectory then
    .error (.renameFileOverDirectory destination)
  else if sourceIsDirectory && destinationFile.isSome then
    .error (.renameDirectoryOverFile destination)
  else if sourceIsDirectory && destinationIsDirectory &&
      (ws.state.children.get? destination.asStr).any (fun entries => entries.size ≠ 0) then
    .error (.renameDestinationNotEmpty destination)
  else do
    let (state, stats) ← ws.state.renamePath source destination
    .ok (ws.withStats state stats, ⟨destinationFile, destinationIsDirectory⟩)

def changes (ws : ResidentWorkspace) : ResidentWorkspace × List Change :=
  let (state, changes) := ws.state.collectChanges
  ({ ws with state }, changes)

end ResidentWorkspace

namespace ResidentState

/-- The record of what is resident at a path. -/
def recordOf (s : ResidentState) (path : NormalizedPath) : Option FileRecord :=
  match s.fileAt path with
  | some file => some ⟨path, file.hashText, file.len, .resident⟩
  | none => if path ∈ s.directories then some ⟨path, "", 0, .directory⟩ else none

/-- One turn of the `mark_checkpointed` loop: the record of a path becomes its current state. -/
def checkpointPath (s : ResidentState) (path : NormalizedPath) : ResidentState :=
  { s with
    baseline := match s.recordOf path with
      | some record => s.baseline.insert path record
      | none => s.baseline.erase path
    heap := s.cleanHeap path
    dirty := s.dirty.erase path }

/-- A path that does not parse stops the loop; what was done so far stays. -/
def checkpointPaths (s : ResidentState) :
    List String → ResidentState × Except WorkspaceError Unit
  | [] => (s, .ok ())
  | path :: rest =>
    match ResidentWorkspace.parse path with
    | .ok path => (s.checkpointPath path).checkpointPaths rest
    | .error e => (s, .error e)

def refreshBaselineDirectories (s : ResidentState) : ResidentState :=
  { s with baselineDirectories := Workspace.baselineDirectories s.baseline }

end ResidentState

namespace ResidentWorkspace

def markCheckpointed (ws : ResidentWorkspace) (paths : List String) :
    ResidentWorkspace × Except WorkspaceError Unit :=
  match ws.state.checkpointPaths paths with
  | (state, .ok ()) => ({ ws with state := state.refreshBaselineDirectories }, .ok ())
  | (state, .error e) => ({ ws with state }, .error e)

end ResidentWorkspace
end Workspace
