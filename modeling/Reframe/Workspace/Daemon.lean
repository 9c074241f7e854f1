import Reframe.Workspace.Checkpoint

/-! One session as the daemon serves it: durable rows, the worktree on disk, and the resident
workspace and mount that live only in memory. The worktree is scanned when no workspace is
resident (the Unix branch, without projection placeholders). -/
namespace Workspace
open NormalizedPath

/-- What the host file system shows under the worktree while nothing is mounted there. -/
structure Worktree where
  files : FiniteMap NormalizedPath (List UInt8)
  directories : Finset NormalizedPath

namespace Worktree

def empty : Worktree := ⟨∅, ∅⟩

def pathExists (worktree : Worktree) (path : NormalizedPath) : Bool :=
  worktree.files.contains path || decide (path ∈ worktree.directories)

variable [Blake3]

def scanWorktree (worktree : Worktree) (scratch : String → Bool) : List FileRecord :=
  (SortedSet.toSorted worktree.files.keys).filterMap fun path =>
    if scratch path.asStr then none
    else (worktree.files.get? path).map fun bytes =>
      ⟨path, hexHash bytes, bytes.length, .overlay⟩

/-- A commit without a resident workspace reads the worktree. -/
def reader (worktree : Worktree) : Session.Reader where
  persistFile path blobs :=
    match worktree.files.get? path with
    | none => .error (.unreadable path)
    | some bytes =>
      .ok (⟨path, hexHash bytes, bytes.length, .blob⟩, putBlob blobs (hexHash bytes) bytes)
  isDirectory path := decide (path ∈ worktree.directories)

end Worktree

/-- The rows of one session in the durable store. -/
structure SessionRows where
  active : Bool
  scratch : String → Bool
  baseline : Baseline
  journal : List Change
  /-- The entries of the head manifest; empty before the first checkpoint. -/
  manifest : Baseline
  blobs : BlobStore

structure CheckpointResult where
  retainedPaths : List String
  remainingChanges : List Change
  deriving DecidableEq

namespace SessionRows

def byPath (left right : Change) : Prop := left.path ≤ right.path

instance : DecidableRel byPath := fun left right => inferInstanceAs (Decidable (left.path ≤ right.path))

/-- One row, whose path is parsed again. -/
def journalRow (change : Change) : Except SessionError Change := do
  let path ← (parseStr change.path).mapError SessionError.path
  .ok { change with path := path.asStr }

def readJournal (rows : SessionRows) : Except SessionError (List Change) :=
  (rows.journal.insertionSort byPath).mapM journalRow

/-- A file of the worktree against its record. -/
def scannedWrite (baseline : Baseline) (record : FileRecord) : Option Change :=
  match baseline.get? record.path with
  | none => some ⟨record.path.asStr, .create, some record.size⟩
  | some old =>
    if old.hash ≠ record.hash then some ⟨record.path.asStr, .write, some record.size⟩ else none

/-- A live record without a scanned file is deleted if the journal said so before, or if nothing
exists at its path. -/
def scannedDelete (baseline current : Baseline) (knownDeleted : List NormalizedPath)
    (worktree : Worktree) (path : NormalizedPath) : Option Change :=
  match baseline.get? path with
  | none => none
  | some old =>
    if old.source ≠ .tombstone && !current.contains path &&
        (decide (path ∈ knownDeleted) || !worktree.pathExists path)
    then some ⟨path.asStr, .delete, none⟩
    else none

variable [Blake3]

def scanned (rows : SessionRows) (worktree : Worktree) : Baseline :=
  (∅ : Baseline).extend (((worktree.scanWorktree rows.scratch).filter
    fun record => !rows.scratch record.path.asStr).map fun record => (record.path, record))

/-- Creates and writes of scanned files, deletes of records, sorted by path. -/
def scannedChanges (rows : SessionRows) (worktree : Worktree)
    (knownDeleted : List NormalizedPath) : List Change :=
  let current := rows.scanned worktree
  let writes := (SortedSet.toSorted current.keys).filterMap fun path =>
    (current.get? path).bind (scannedWrite rows.baseline)
  let deletes := (SortedSet.toSorted rows.baseline.keys).filterMap
    (scannedDelete rows.baseline current knownDeleted worktree)
  (writes ++ deletes).insertionSort byPath

def scanChanges (rows : SessionRows) (worktree : Worktree) :
    Except SessionError (SessionRows × List Change) := do
  let journal ← rows.readJournal
  let knownDeleted ← Session.parseAll
    ((journal.filter fun change => change.kind = .delete).map Change.path)
  let changes := rows.scannedChanges worktree knownDeleted
  .ok ({ rows with journal := changes }, changes)

/-- The stored changes, after a scan when `refresh` is set. -/
def status (rows : SessionRows) (worktree : Worktree) (refresh : Bool) :
    SessionRows × Except SessionError (List Change) :=
  if refresh then
    match rows.scanChanges worktree with
    | .ok (rows, _) => (rows, rows.readJournal)
    | .error e => (rows, .error e)
  else (rows, rows.readJournal)

omit [Blake3] in
/-- A commit: the new manifest becomes the head, and the selected rows leave the journal. -/
def checkpoint (rows : SessionRows) (reader : Session.Reader) (includes : List String)
    (all : Bool) : Except SessionError (SessionRows × CheckpointResult) := do
  let changes ← rows.readJournal
  let (selected, retained, blobs) ← Session.checkpointWithReader reader rows.scratch changes
    (rows.manifest, rows.blobs) includes all
  let isSelected (change : Change) : Bool := decide (change.path ∈ selected.map asStr)
  .ok ({ rows with
      baseline := Session.updateBaseline rows.baseline retained selected
      manifest := retained
      blobs
      journal := rows.journal.filter fun change => !isSelected change },
    ⟨selected.map asStr, changes.filter fun change => !isSelected change⟩)

end SessionRows

variable [Blake3]

structure Daemon where
  rows : SessionRows
  worktree : Worktree
  resident : Option ResidentWorkspace
  mounted : Bool

namespace Daemon

abbrev ContentCache := (hash : String) → Option {blob : SoundBlob // blob.1.hashHex = hash}

/-- `CreateWorkspace`: a load that fails leaves the new session without a resident workspace. -/
def createWorkspace (scratch : String → Bool) (sources : List MemorySource)
    (content : ContentSource) (cached : ContentCache) (blobs : BlobStore) (worktree : Worktree) :
    Except SessionError Daemon := do
  let baseline ← buildBaseline scratch sources ∅
  .ok {
    rows := ⟨true, scratch, baseline, [], ∅, blobs⟩
    worktree
    resident := (loadCached (withBlobs content blobs) cached baseline scratch).toOption
    mounted := false }

def syncResidentJournal (d : Daemon) : Daemon :=
  match d.resident with
  | some ws =>
    let (ws, changes) := ws.changes
    { d with resident := some ws, rows := { d.rows with journal := changes } }
  | none => d

def getWorkspaceStatus (d : Daemon) : Daemon × Except SessionError (Bool × List Change) :=
  let d := d.syncResidentJournal
  let (rows, changes) := d.rows.status d.worktree d.resident.isNone
  ({ d with rows }, changes.map fun changes => (rows.active, changes))

def getChangeJournal (d : Daemon) : Daemon × Except SessionError (List Change) :=
  let d := d.syncResidentJournal
  let (rows, changes) := d.rows.status d.worktree d.resident.isNone
  ({ d with rows }, changes)

def commitCheckpoint (d : Daemon) (includes : List String) (all : Bool) :
    Daemon × Except SessionError CheckpointResult :=
  if !d.rows.active then (d, .error .closed)
  else if d.mounted then (d, .error .mounted)
  else
    let d := d.syncResidentJournal
    match d.resident with
    | some ws =>
      match d.rows.checkpoint (Session.residentReader ws.state) includes all with
      | .ok (rows, result) =>
        ({ d with rows, resident := some (ws.markCheckpointed result.retainedPaths).1 }, .ok result)
      | .error e => (d, .error e)
    | none =>
      match d.rows.checkpoint d.worktree.reader includes all with
      | .ok (rows, result) => ({ d with rows }, .ok result)
      | .error e => (d, .error e)

/-- The resident workspace is loaded once; it stays resident when the provider does not start. -/
def mount (d : Daemon) (content : ContentSource) (cached : ContentCache) (started : Bool) :
    Daemon :=
  if !d.rows.active || d.mounted then d
  else
    match d.resident with
    | some _ => { d with mounted := started }
    | none =>
      match loadCached (withBlobs content d.rows.blobs) cached d.rows.baseline d.rows.scratch with
      | .ok ws => { d with resident := some ws, mounted := started }
      | .error _ => d

def unmount (d : Daemon) (stopped : Bool) : Daemon :=
  if d.mounted then { d.syncResidentJournal with mounted := !stopped } else d

def applyPolicy (d : Daemon) (scratch : String → Bool) : Daemon :=
  if d.mounted || !d.rows.active then d
  else { d with
    rows := { d.rows with scratch }
    resident := d.resident.map fun ws => { ws with scratch } }

def closeWorkspace (d : Daemon) : Daemon :=
  if d.mounted then d else { d with rows := { d.rows with active := false }, resident := none }

/-- A crash and a new daemon: nothing is resident or mounted, only rows and worktree remain. -/
def restart (d : Daemon) : Daemon := { d with resident := none, mounted := false }

/-- A file operation that reaches the mounted workspace. -/
def operate (d : Daemon) (op : ResidentOp) : Daemon :=
  if d.mounted then
    { d with resident := d.resident.map fun ws => (JournaledWorkspace.step ⟨ws, []⟩ op).workspace }
  else d

end Daemon

inductive DaemonEvent where
  | getWorkspaceStatus
  | getChangeJournal
  | commitCheckpoint (includes : List String) (all : Bool)
  | mount (content : ContentSource) (cached : Daemon.ContentCache) (started : Bool)
  | unmount (stopped : Bool)
  | applyPolicy (scratch : String → Bool)
  | closeWorkspace
  | operate (op : ResidentOp)
  | restart

def Daemon.step (d : Daemon) : DaemonEvent → Daemon
  | .getWorkspaceStatus => d.getWorkspaceStatus.1
  | .getChangeJournal => d.getChangeJournal.1
  | .commitCheckpoint includes all => (d.commitCheckpoint includes all).1
  | .mount content cached started => d.mount content cached started
  | .unmount stopped => d.unmount stopped
  | .applyPolicy scratch => d.applyPolicy scratch
  | .closeWorkspace => d.closeWorkspace
  | .operate op => d.operate op
  | .restart => d.restart

end Workspace
