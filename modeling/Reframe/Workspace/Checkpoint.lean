import Reframe.Workspace.JournalRun

/-! A session: the resident workspace with its durable baseline, head manifest and blob store.
Checkpoints accumulate in the head manifest, and a new session merges source layers. -/
namespace Workspace
open NormalizedPath

/-- One source of a session, as its scan or its manifest lists it. -/
inductive MemorySource where
  | directory (memoryId : String) (records : List FileRecord)
  | checkpoint (backingStore : String) (entries : List FileRecord)

inductive SessionError where
  | unsupportedEntry (source : RecordSource)
  | nothingSelected
  | path (error : PathError)
  | notChanged (path : NormalizedPath)
  | scratchPath (path : NormalizedPath)
  | missingFile (path : NormalizedPath)
  | unreadable (path : NormalizedPath)
  | file (error : FileError)
  | closed
  | mounted
  deriving DecidableEq

/-- A checkpoint entry as the next session stores it: its blob stays in the backing store. -/
def backingRecord (backingStore : String) (record : FileRecord) :
    Except SessionError FileRecord :=
  match record.source with
  | .blob => .ok { record with source := .backingBlob ⟨backingStore, record.hash⟩ }
  | .tombstone => .ok record
  | .directory => .ok record
  | source => .error (.unsupportedEntry source)

/-- The records one source contributes, in order. -/
def sourceRecords (scratch : String → Bool) :
    MemorySource → Except SessionError (List FileRecord)
  | .directory memoryId records => .ok <| records.map fun record =>
      if record.source = .directory then record
      else { record with source := .memory ⟨memoryId, record.path⟩ }
  | .checkpoint backingStore entries =>
      (entries.filter fun record => !scratch record.path.asStr).mapM (backingRecord backingStore)

/-- Later sources and later records of a source win. -/
def buildBaseline (scratch : String → Bool) :
    List MemorySource → Baseline → Except SessionError Baseline
  | [], baseline => .ok baseline
  | source :: rest, baseline => do
    let records ← sourceRecords scratch source
    buildBaseline scratch rest (baseline.extend (records.map fun record => (record.path, record)))

abbrev BlobStore := FiniteMap String (List UInt8)

/-- A published blob is never overwritten. -/
def putBlob (blobs : BlobStore) (hash : String) (bytes : List UInt8) : BlobStore :=
  if blobs.contains hash then blobs else blobs.insert hash bytes

/-- What a load reads when this session's own store holds `blobs`. -/
def withBlobs (content : ContentSource) (blobs : BlobStore) : ContentSource :=
  { content with
    readBlob := fun root hash =>
      if root = content.storeRoot then blobs.get? hash else content.readBlob root hash }

section

variable [Blake3]

inductive CreateError where
  | session (error : SessionError)
  | load (error : LoadError)
  deriving DecidableEq

/-- Create a session from its sources and load its resident workspace. -/
def createSession (scratch : String → Bool) (sources : List MemorySource) (content : ContentSource)
    (cached : (hash : String) → Option {blob : SoundBlob // blob.1.hashHex = hash}) :
    Except CreateError ResidentWorkspace := do
  let baseline ← (buildBaseline scratch sources ∅).mapError CreateError.session
  (loadCached content cached baseline scratch).mapError CreateError.load

structure Session where
  workspace : ResidentWorkspace
  baseline : Baseline
  /-- The entries of the head manifest; empty before the first checkpoint. -/
  manifest : Baseline
  blobs : BlobStore

namespace Session

/-- `verified_blob` and `put_verified_blob` on the file at a path. -/
def persistFile (s : ResidentState) (path : NormalizedPath) (blobs : BlobStore) :
    Except SessionError (FileRecord × BlobStore) :=
  match s.fileAt path with
  | none => .error (.missingFile path)
  | some file => do
    let (blob, _) ← file.verifiedBlob.mapError SessionError.file
    .ok (⟨path, blob.hashHex, blob.bytes.length, .blob⟩, putBlob blobs blob.hashHex blob.bytes)

/-- The two closures `checkpoint_with_reader` takes: where a commit reads the tree. -/
structure Reader where
  persistFile : NormalizedPath → BlobStore → Except SessionError (FileRecord × BlobStore)
  isDirectory : NormalizedPath → Bool

def residentReader (s : ResidentState) : Reader where
  persistFile := persistFile s
  isDirectory path := decide (path ∈ s.directories)

/-- The record one selected change retains. -/
def retainedRecord (reader : Reader) (path : NormalizedPath) (kind : ChangeKind)
    (blobs : BlobStore) : Except SessionError (FileRecord × BlobStore) :=
  match kind with
  | .delete => .ok (⟨path, "", 0, .tombstone⟩, blobs)
  | .create | .write =>
    if reader.isDirectory path then .ok (⟨path, "", 0, .directory⟩, blobs)
    else reader.persistFile path blobs

def applySelectedChanges (reader : Reader) (selected : List NormalizedPath) :
    List Change → Baseline × BlobStore → Except SessionError (Baseline × BlobStore)
  | [], retained => .ok retained
  | change :: rest, (retained, blobs) => do
    let path ← (parseStr change.path).mapError SessionError.path
    if path ∈ selected then do
      let (record, blobs) ← retainedRecord reader path change.kind blobs
      applySelectedChanges reader selected rest (retained.insert path record, blobs)
    else applySelectedChanges reader selected rest (retained, blobs)

def parseAll : List String → Except SessionError (List NormalizedPath)
  | [] => .ok []
  | path :: rest => do
    let path ← (parseStr path).mapError SessionError.path
    let rest ← parseAll rest
    .ok (path :: rest)

/-- The requested paths, each one changed and none of them scratch. -/
def checkSelected (scratch : String → Bool) (changed : List String) :
    List NormalizedPath → Except SessionError Unit
  | [] => .ok ()
  | path :: rest =>
    if path.asStr ∉ changed then .error (.notChanged path)
    else if scratch path.asStr then .error (.scratchPath path)
    else checkSelected scratch changed rest

/-- `update_baseline` for each selected path. -/
def updateBaseline (baseline retained : Baseline) (selected : List NormalizedPath) : Baseline :=
  selected.foldl (fun baseline path =>
    match retained.get? path with
    | some record => baseline.insert path record
    | none => baseline.erase path) baseline

/-- The selection of a commit request, in path order. -/
def selection (changes : List Change) (includes : List String) (all : Bool) :
    Except SessionError (List NormalizedPath) :=
  if !all && includes.isEmpty then .error .nothingSelected
  else do
    let paths ← parseAll (if all then changes.map Change.path else includes)
    .ok (SortedSet.toSorted paths.toFinset)

/-- The selected paths, and the manifest and blobs that retain them. -/
def checkpointWithReader (reader : Reader) (scratch : String → Bool) (changes : List Change)
    (retained : Baseline × BlobStore) (includes : List String) (all : Bool) :
    Except SessionError (List NormalizedPath × Baseline × BlobStore) := do
  let selected ← selection changes includes all
  checkSelected scratch (changes.map Change.path) selected
  let retained ← applySelectedChanges reader selected changes retained
  .ok (selected, retained)

/-- A commit in a session whose journal has just been read as `changes`. -/
def checkpointResident (session : Session) (changes : List Change) (includes : List String)
    (all : Bool) : Except SessionError Session := do
  let (selected, retained, blobs) ← checkpointWithReader (residentReader session.workspace.state)
    session.workspace.scratch changes (session.manifest, session.blobs) includes all
  .ok {
    workspace := (session.workspace.markCheckpointed (selected.map asStr)).1
    baseline := updateBaseline session.baseline retained selected
    manifest := retained
    blobs }

/-- The journal is read first, also when the commit then fails. -/
def commitCheckpoint (session : Session) (includes : List String) (all : Bool) :
    Session × Except SessionError Unit :=
  let (workspace, changes) := session.workspace.changes
  let session := { session with workspace }
  match session.checkpointResident changes includes all with
  | .ok session => (session, .ok ())
  | .error e => (session, .error e)

end Session

inductive SessionOp where
  | operate (op : ResidentOp)
  | commit (includes : List String) (all : Bool)

namespace Session

def step (session : Session) : SessionOp → Session
  | .operate op =>
    { session with workspace := (JournaledWorkspace.step ⟨session.workspace, []⟩ op).workspace }
  | .commit includes all => (session.commitCheckpoint includes all).1

end Session

end

namespace TestVectors

/-- One published checkpoint with the one empty file `d/f`. -/
def nestedSources : List MemorySource :=
  [.checkpoint "base" [⟨nestedPath, empty, 0, .blob⟩]]

def nestedBase : Baseline :=
  (∅ : Baseline).insert nestedPath ⟨nestedPath, empty, 0, .backingBlob ⟨"base", empty⟩⟩

theorem nestedBase_get? {p : NormalizedPath} {r : FileRecord} (h : nestedBase.get? p = some r) :
    p = nestedPath ∧ r = ⟨nestedPath, empty, 0, .backingBlob ⟨"base", empty⟩⟩ := by
  rw [nestedBase, FiniteMap.get?_insert] at h
  split at h
  · cases h
    exact ⟨‹_›, rfl⟩
  · cases h

theorem nestedBase_canonical : CanonicalRecords nestedBase := by
  intro p r h
  obtain ⟨rfl, rfl⟩ := nestedBase_get? h
  exact ⟨rfl, fun hd => (by cases hd), fun _ _ => ⟨digestText [], rfl⟩⟩

end TestVectors
end Workspace
