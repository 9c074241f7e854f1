import Reframe.Lib.SortedMap
import Reframe.Vfs.InodeTable
import Reframe.Workspace.ResidentWorkspace

/-! The open-file table of a Unix mount, and the callbacks that change it and the inode table. Resident
handles on one inode share a state, which is a path as long as the file is linked and a buffer once it
is not. A path under a scratch rule is on the disk, and a handle on it has a file of its own. -/
namespace UnixVfs
open Workspace

inductive Errno where
  | eio
  | enoent
  | eisdir
  | enotdir
  | eexist
  | eacces
  | ebadf
  | efbig
  | einval
  | enotempty
  | exdev
  deriving DecidableEq

inductive OpenAccMode where
  | readOnly
  | writeOnly
  | readWrite
  deriving DecidableEq

structure OpenFlags where
  accMode : OpenAccMode
  truncate : Bool
  deriving DecidableEq

structure OpenAccess where
  readable : Bool
  writable : Bool
  deriving DecidableEq

def OpenAccess.fromFlags (flags : OpenFlags) : OpenAccess :=
  match flags.accMode with
  | .readOnly => ⟨true, false⟩
  | .writeOnly => ⟨false, true⟩
  | .readWrite => ⟨true, true⟩

/-- `O_TRUNC` without write access. -/
def OpenFlags.refused (flags : OpenFlags) : Bool :=
  flags.truncate && !(OpenAccess.fromFlags flags).writable

/-- A shared state of the resident handles on one file. -/
abbrev StateId := ℕ

inductive ResidentLocation where
  | linked (path : String)
  | detached (bytes : List UInt8)
  deriving DecidableEq

def ResidentLocation.linkedPath : ResidentLocation → Option String
  | .linked path => some path
  | .detached _ => none

inductive OpenBackend where
  | resident (file : StateId)
  /-- An open file of the system, which answers for itself. -/
  | scratch
  deriving DecidableEq

structure OpenHandle where
  inode : ℕ
  access : OpenAccess
  backend : OpenBackend
  deriving DecidableEq

structure OpenFileTable where
  next : ℕ
  handles : FiniteMap ℕ OpenHandle
  /-- Weak references. -/
  residentFiles : FiniteMap ℕ StateId
  residentPaths : FiniteMap String ℕ
  states : StateId → ResidentLocation
  nextState : StateId
  /-- The clones of handles that requests work on. -/
  taken : FiniteMap ℕ OpenHandle

namespace OpenFileTable

def new : OpenFileTable := ⟨1, ∅, ∅, ∅, fun _ => .detached [], 0, ∅⟩

/-- `strong_count` is not zero. -/
def held (t : OpenFileTable) (s : StateId) : Bool :=
  t.handles.toList.any (fun e => e.2.backend = .resident s) ||
    t.taken.toList.any fun e => e.2.backend = .resident s

def isClosed (t : OpenFileTable) (inode : ℕ) : Bool :=
  (t.residentFiles.get? inode).any fun s => !t.held s

def removeClosedResidentFiles (t : OpenFileTable) : OpenFileTable :=
  { t with
    residentFiles := t.residentFiles.retain fun inode _ => !t.isClosed inode
    residentPaths := t.residentPaths.retain fun _ inode => !t.isClosed inode }

/-- `wrapping_add(1).max(1)` -/
def following (number : ℕ) : ℕ := max ((number + 1) % 2 ^ 64) 1

/-- The loop of `insert`: the number of the handle, and the next one. -/
def vacant (handles : FiniteMap ℕ OpenHandle) : ℕ → ℕ → ℕ × ℕ
  -- Every number is in use, and the loop does not end.
  | 0, next => (next, following next)
  | rounds + 1, next =>
    if handles.contains next then vacant handles rounds (following next)
    else (next, following next)

def insert (t : OpenFileTable) (handle : OpenHandle) : OpenFileTable × ℕ :=
  let (candidate, next) := vacant t.handles (t.handles.size + 1) t.next
  ({ t with next, handles := t.handles.insert candidate handle }, candidate)

def openResident (t : OpenFileTable) (inode : ℕ) (path : String) (flags : OpenFlags) :
    OpenFileTable × Except Errno ℕ :=
  let t := t.removeClosedResidentFiles
  let opened (t : OpenFileTable) (file : StateId) : OpenFileTable × Except Errno ℕ :=
    let t := { t with residentPaths := t.residentPaths.insert path inode }
    let (t, handle) := t.insert ⟨inode, .fromFlags flags, .resident file⟩
    (t, .ok handle)
  -- What is left after the removal can be upgraded.
  match t.residentFiles.get? inode with
  | some file =>
    if (t.states file).linkedPath ≠ some path then (t, .error .eio) else opened t file
  | none =>
    opened
      { t with
        states := Function.update t.states t.nextState (.linked path)
        nextState := t.nextState + 1
        residentFiles := t.residentFiles.insert inode t.nextState }
      t.nextState

def openScratch (t : OpenFileTable) (inode : ℕ) (flags : OpenFlags) : OpenFileTable × ℕ :=
  t.insert ⟨inode, .fromFlags flags, .scratch⟩

def get (t : OpenFileTable) (handle inode : ℕ) : Except Errno OpenHandle :=
  match t.handles.get? handle with
  | some entry => if entry.inode = inode then .ok entry else .error .ebadf
  | none => .error .ebadf

def release (t : OpenFileTable) (handle inode : ℕ) : OpenFileTable × Except Errno Unit :=
  match t.get handle inode with
  | .error e => (t, .error e)
  | .ok _ => ({ t with handles := t.handles.erase handle }.removeClosedResidentFiles, .ok ())

def isInSubtree (root path : String) : Bool :=
  path = root ||
    (NormalizedPath.stripPrefix path (if root = "" then "" else root ++ "/")).isSome

/-- The states of the files below one of the paths, by inode. -/
def residentFilesInSubtrees (t : OpenFileTable) (roots : List String) : List (ℕ × StateId) :=
  let inodes := (t.residentPaths.toList.filter fun e => roots.any (isInSubtree · e.1)).map Prod.snd
  (SortedSet.toSorted inodes.toFinset).filterMap fun inode =>
    (t.residentFiles.get? inode).map fun file => (inode, file)

def setState (t : OpenFileTable) (file : StateId) (location : ResidentLocation) : OpenFileTable :=
  { t with states := Function.update t.states file location }

/-- A file with its path and its content. -/
structure Snapshot where
  file : StateId
  linkedPath : String
  bytes : List UInt8

/-- The snapshots of the linked files whose path passes a test. -/
def snapshots (t : OpenFileTable) (files : List (ℕ × StateId)) (test : String → Bool)
    (load : String → Except Errno (List UInt8)) : Except Errno (List Snapshot) :=
  (files.filterMap fun e => ((t.states e.2).linkedPath.filter test).map fun path => (e.2, path)).mapM
    fun e => (load e.2).map fun bytes => ⟨e.1, e.2, bytes⟩

def detach (t : OpenFileTable) (snapshots : List Snapshot) : OpenFileTable :=
  snapshots.foldl (fun t s => t.setState s.file (.detached s.bytes)) t

def relink (t : OpenFileTable) (snapshots : List Snapshot) : OpenFileTable :=
  snapshots.foldl (fun t s => t.setState s.file (.linked s.linkedPath)) t

def forgetPaths (t : OpenFileTable) (snapshots : List Snapshot) : OpenFileTable :=
  { t with
    residentPaths := snapshots.foldl (fun paths s => paths.erase s.linkedPath) t.residentPaths }

def unlinkResident (t : OpenFileTable) (path : String)
    (load : String → Except Errno (List UInt8)) (operation : Except Errno Unit) :
    OpenFileTable × Except Errno Unit :=
  let t := t.removeClosedResidentFiles
  let files := t.residentFilesInSubtrees [path]
  match t.snapshots files (sameOrDescendant · path) load with
  | .error e => (t, .error e)
  | .ok snapshots =>
    let t := t.detach snapshots
    match operation with
    | .error e => (t.relink snapshots, .error e)
    | .ok () => (t.forgetPaths snapshots, .ok ())

/-- The turn of the last loop of `rename_resident` for one file. -/
def moveResident (t : OpenFileTable) (move : (ℕ × StateId) × String) : OpenFileTable :=
  let paths := match (t.states move.1.2).linkedPath with
    | some path => t.residentPaths.erase path
    | none => t.residentPaths
  { t.setState move.1.2 (.linked move.2) with
    residentPaths := paths.insert move.2 move.1.1 }

def renameResident (t : OpenFileTable) (source destination : String)
    (load : String → Except Errno (List UInt8)) (operation : Except Errno Unit) :
    OpenFileTable × Except Errno Unit :=
  if source = destination then (t, operation)
  else
    let t := t.removeClosedResidentFiles
    let files := t.residentFilesInSubtrees [source, destination]
    let replaced (path : String) : Bool :=
      sameOrDescendant path destination && !sameOrDescendant path source
    match t.snapshots files replaced load with
    | .error e => (t, .error e)
    | .ok snapshots =>
      let t := t.detach snapshots
      match operation with
      | .error e => (t.relink snapshots, .error e)
      | .ok () =>
        let t := t.forgetPaths snapshots
        let moves := files.filterMap fun e =>
          ((t.states e.2).linkedPath.bind (renamedPath · source destination)).map fun path => (e, path)
        (moves.foldl moveResident t, .ok ())

end OpenFileTable

/-! What a handle reads and writes. A closure answers for a resident file that is linked, and the
system for a scratch file. -/

namespace OpenHandle

def sliceBytes (bytes : List UInt8) (offset size : ℕ) : List UInt8 :=
  if bytes.length ≤ offset then []
  else (bytes.take (min (offset + size) bytes.length)).drop offset

def writeBytes (bytes : List UInt8) (offset : ℕ) (data : List UInt8) :
    Except Errno (List UInt8) :=
  if offset + data.length < 2 ^ 64 then
    let bytes := if bytes.length < offset then ByteVector.resize 0 bytes offset else bytes
    let bytes := if bytes.length < offset + data.length then
      ByteVector.resize 0 bytes (offset + data.length) else bytes
    .ok (bytes.take offset ++ data ++ bytes.drop (offset + data.length))
  else .error .efbig

def read (handle : OpenHandle) (states : StateId → ResidentLocation) (offset size : ℕ)
    (readLinked : String → Except Errno (List UInt8)) (readScratch : Except Errno (List UInt8)) :
    Except Errno (List UInt8) :=
  if !handle.access.readable then .error .ebadf
  else match handle.backend with
    | .scratch => readScratch
    | .resident file =>
      match states file with
      | .linked path => readLinked path
      | .detached bytes => .ok (sliceBytes bytes offset size)

def write (handle : OpenHandle) (states : StateId → ResidentLocation) (offset : ℕ)
    (data : List UInt8) (writeLinked : String → Except Errno Unit)
    (writeScratch : Except Errno Unit) : (StateId → ResidentLocation) × Except Errno Unit :=
  if !handle.access.writable then (states, .error .ebadf)
  else match handle.backend with
    | .scratch => (states, writeScratch)
    | .resident file =>
      match states file with
      | .linked path => (states, writeLinked path)
      | .detached bytes =>
        match writeBytes bytes offset data with
        | .ok bytes => (Function.update states file (.detached bytes), .ok ())
        | .error e => (states, .error e)

def resize (handle : OpenHandle) (states : StateId → ResidentLocation) (size : ℕ)
    (resizeLinked : String → Except Errno Unit) (resizeScratch : Except Errno Unit) :
    (StateId → ResidentLocation) × Except Errno Unit :=
  if !handle.access.writable then (states, .error .ebadf)
  else match handle.backend with
    | .scratch => (states, resizeScratch)
    | .resident file =>
      match states file with
      | .linked path => (states, resizeLinked path)
      | .detached bytes =>
        (Function.update states file (.detached (ByteVector.resize 0 bytes size)), .ok ())

end OpenHandle

/-! The callbacks. -/

def child (parent name : String) : Option String :=
  if name = "" ∨ name.toList.contains '/' ∨ name = "." ∨ name = ".." then none
  else some (if parent = "" then name else parent ++ "/" ++ name)

def parent (path : String) : String :=
  match path.toList.reverse.dropWhile (· ≠ '/') with
  | [] => ""
  | _ :: rest => .ofList rest.reverse

/-- What the workspace below the mount answers to the closures and checks of one callback. -/
structure Answers where
  /-- `is_scratch` -/
  isScratch : String → Bool
  /-- A path is a directory. -/
  directory : String → Except Errno Unit
  /-- There is something at a path. -/
  present : String → Except Errno Unit
  /-- The other checks of the callback. -/
  checked : Except Errno Unit
  load : String → Except Errno (List UInt8)
  /-- What is done to the path, resident or on the disk. -/
  operation : Except Errno Unit
  rollback : Except Errno Unit
  /-- The names in a directory. -/
  names : List String
  changeLinked : String → Except Errno Unit
  readScratch : Except Errno (List UInt8)
  changeScratch : Except Errno Unit

/-- The two tables of a mount. -/
structure MountTables where
  inodes : InodeTable
  handles : OpenFileTable

inductive Callback where
  | lookup (parent : ℕ) (name : String)
  | forget (inode count : ℕ)
  | mkdir (parent : ℕ) (name : String)
  | create (parent : ℕ) (name : String) (flags : OpenFlags)
  | readdir (inode : ℕ)
  | openFile (inode : ℕ) (flags : OpenFlags)
  | unlink (parent : ℕ) (name : String)
  | rename (parent : ℕ) (name : String) (newParent : ℕ) (newName : String)
  /-- A read or a write takes its handle, and works on it when the tables are free again. -/
  | take (request inode handle : ℕ)
  | read (request offset size : ℕ)
  | write (request offset : ℕ) (data : List UInt8)
  | resize (inode handle size : ℕ)
  | release (inode handle : ℕ)
  deriving DecidableEq

inductive Reply where
  | entry (inode generation : ℕ)
  | created (inode generation handle : ℕ)
  | opened (handle : ℕ)
  | entries (entries : List (ℕ × String))
  | data (bytes : List UInt8)
  | done
  | error (error : Errno)
  /-- `expect` without an entry. -/
  | panicked
  deriving DecidableEq

namespace MountTables

def new : MountTables := ⟨.new, .new⟩

def reply : Except Errno Unit → Reply
  | .ok () => .done
  | .error e => .error e

def childPath (t : MountTables) (a : Answers) (parentInode : ℕ) (name : String) :
    Except Errno String :=
  match t.inodes.place parentInode with
  | none => .error .enoent
  | some parent =>
    match a.directory parent with
    | .error e => .error e
    | .ok () =>
      match child parent name with
      | none => .error .einval
      | some path => .ok path

def recordLookup (t : MountTables) (path : String) (reply : ℕ → ℕ → Reply) :
    MountTables × Reply :=
  match t.inodes.recordLookup path with
  | (inodes, some (inode, generation)) => ({ t with inodes }, reply inode generation)
  | (inodes, none) => ({ t with inodes }, .panicked)

def lookupChild (t : MountTables) (a : Answers) (parentInode : ℕ) (name : String) :
    MountTables × Reply :=
  match t.childPath a parentInode name with
  | .error e => (t, .error e)
  | .ok path =>
    match a.present path with
    | .error e => (t, .error e)
    | .ok () => t.recordLookup path .entry

def createDirectoryChild (t : MountTables) (a : Answers) (parentInode : ℕ) (name : String) :
    MountTables × Reply :=
  match t.childPath a parentInode name with
  | .error e => (t, .error e)
  | .ok path =>
    match a.checked, a.operation with
    | .error e, _ => (t, .error e)
    | .ok (), .error e => (t, .error e)
    | .ok (), .ok () => t.recordLookup path .entry

def registerResidentCreate (t : MountTables) (a : Answers) (path : String) (flags : OpenFlags) :
    MountTables × Reply :=
  let previousInode := t.inodes.byPath.get? path
  match a.operation with
  | .error e => (t, .error e)
  | .ok () =>
    let (inodes, inode) := t.inodes.ensure path
    match t.handles.openResident inode path flags with
    | (handles, .ok handle) =>
      recordLookup ⟨inodes, handles⟩ path fun _ generation => .created inode generation handle
    | (handles, .error e) =>
      let inodes := if previousInode.isNone then inodes.removePath path else inodes
      (⟨inodes, handles⟩, match a.rollback with
        | .error rolled => .error rolled
        | .ok () => .error e)

def registerScratchCreate (t : MountTables) (a : Answers) (path : String) (flags : OpenFlags) :
    MountTables × Reply :=
  match a.operation with
  | .error e => (t, .error e)
  | .ok () =>
    let (inodes, inode) := t.inodes.ensure path
    let (handles, handle) := t.handles.openScratch inode flags
    recordLookup ⟨inodes, handles⟩ path fun _ generation => .created inode generation handle

def createFileChild (t : MountTables) (a : Answers) (parentInode : ℕ) (name : String)
    (flags : OpenFlags) : MountTables × Reply :=
  if flags.refused then (t, .error .eacces)
  else match t.childPath a parentInode name with
    | .error e => (t, .error e)
    | .ok path =>
      match a.checked with
      | .error e => (t, .error e)
      | .ok () =>
        if a.isScratch path then t.registerScratchCreate a path flags
        else t.registerResidentCreate a path flags

/-- The numbers of the children of a directory. -/
def ensureChildren (path : String) : InodeTable → List String → InodeTable × List (ℕ × String)
  | inodes, [] => (inodes, [])
  | inodes, name :: names =>
    match child path name with
    | none => ensureChildren path inodes names
    | some childPath =>
      let (inodes, inode) := inodes.ensure childPath
      let (inodes, entries) := ensureChildren path inodes names
      (inodes, (inode, name) :: entries)

def directoryEntries (t : MountTables) (a : Answers) (inode : ℕ) : MountTables × Reply :=
  match t.inodes.place inode with
  | none => (t, .error .enoent)
  | some path =>
    match a.directory path with
    | .error e => (t, .error e)
    | .ok () =>
      let (inodes, parentInode) := t.inodes.ensure (parent path)
      let (inodes, entries) := ensureChildren path inodes a.names
      ({ t with inodes }, .entries ((inode, ".") :: (parentInode, "..") :: entries))

def openInode (t : MountTables) (a : Answers) (inode : ℕ) (flags : OpenFlags) :
    MountTables × Reply :=
  if flags.refused then (t, .error .eacces)
  else match t.inodes.place inode with
    | none => (t, .error .enoent)
    | some path =>
      match a.checked with
      | .error e => (t, .error e)
      | .ok () =>
        if a.isScratch path then
          match a.operation with
          | .error e => (t, .error e)
          | .ok () =>
            let (handles, handle) := t.handles.openScratch inode flags
            ({ t with handles }, .opened handle)
        else match if flags.truncate then a.operation else .ok () with
          | .error e => (t, .error e)
          | .ok () =>
            match t.handles.openResident inode path flags with
            | (handles, .ok handle) => ({ t with handles }, .opened handle)
            | (handles, .error e) => ({ t with handles }, .error e)

def removeChild (t : MountTables) (a : Answers) (parentInode : ℕ) (name : String) :
    MountTables × Reply :=
  match t.childPath a parentInode name with
  | .error e => (t, .error e)
  | .ok path =>
    match a.checked with
    | .error e => (t, .error e)
    | .ok () =>
      let (handles, removed) := if a.isScratch path then (t.handles, a.operation)
        else t.handles.unlinkResident path a.load a.operation
      match removed with
      | .error e => ({ t with handles }, .error e)
      | .ok () => (⟨t.inodes.removePath path, handles⟩, .done)

/-- What `rename_child` does after its checks. -/
def renamePaths (t : MountTables) (a : Answers) (source destination : String) :
    MountTables × Reply :=
  let (handles, renamed) := if a.isScratch source then (t.handles, a.operation)
    else t.handles.renameResident source destination a.load a.operation
  match renamed with
  | .error e => ({ t with handles }, .error e)
  | .ok () => (⟨t.inodes.movePath source destination, handles⟩, .done)

def renameChild (t : MountTables) (a : Answers) (parentInode : ℕ) (oldName : String)
    (newParentInode : ℕ) (newName : String) : MountTables × Reply :=
  match t.childPath a parentInode oldName, t.childPath a newParentInode newName with
  | .error e, _ => (t, .error e)
  | .ok _, .error e => (t, .error e)
  | .ok source, .ok destination =>
    if source = destination then (t, .done)
    -- `ensure_same_storage`
    else if a.isScratch source ≠ a.isScratch destination then (t, .error .exdev)
    else match a.present source with
      | .error e => (t, .error e)
      | .ok () =>
        -- `validate_rename_target`
        if sameOrDescendant destination source then (t, .error .einval)
        else match a.checked with
          | .error e => (t, .error e)
          | .ok () => t.renamePaths a source destination

def takeHandle (t : MountTables) (request inode handle : ℕ) : MountTables × Reply :=
  match t.handles.taken.get? request, t.handles.get handle inode with
  -- The request is there already.
  | some _, _ => (t, .error .einval)
  | none, .error e => (t, .error e)
  | none, .ok entry =>
    ({ t with handles := { t.handles with taken := t.handles.taken.insert request entry } }, .done)

def dropTaken (t : MountTables) (request : ℕ) : MountTables :=
  { t with handles := { t.handles with taken := t.handles.taken.erase request } }

def setStates (t : MountTables) (states : StateId → ResidentLocation) : MountTables :=
  { t with handles := { t.handles with states } }

def readTaken (t : MountTables) (a : Answers) (request offset size : ℕ) : MountTables × Reply :=
  match t.handles.taken.get? request with
  | none => (t, .error .ebadf)
  | some handle =>
    (t.dropTaken request,
      match handle.read t.handles.states offset size a.load a.readScratch with
      | .ok bytes => .data bytes
      | .error e => .error e)

def writeTaken (t : MountTables) (a : Answers) (request offset : ℕ) (data : List UInt8) :
    MountTables × Reply :=
  match t.handles.taken.get? request with
  | none => (t, .error .ebadf)
  | some handle =>
    let (states, result) :=
      handle.write t.handles.states offset data a.changeLinked a.changeScratch
    ((t.setStates states).dropTaken request, reply result)

def resizeOpen (t : MountTables) (a : Answers) (inode handle size : ℕ) : MountTables × Reply :=
  match t.handles.get handle inode with
  | .error e => (t, .error e)
  | .ok entry =>
    let (states, result) := entry.resize t.handles.states size a.changeLinked a.changeScratch
    (t.setStates states, reply result)

def release (t : MountTables) (inode handle : ℕ) : MountTables × Reply :=
  let (handles, result) := t.handles.release handle inode
  ({ t with handles }, reply result)

def step (t : MountTables) (a : Answers) : Callback → MountTables × Reply
  | .lookup parent name => t.lookupChild a parent name
  | .forget inode count => ({ t with inodes := t.inodes.forget inode count }, .done)
  | .mkdir parent name => t.createDirectoryChild a parent name
  | .create parent name flags => t.createFileChild a parent name flags
  | .readdir inode => t.directoryEntries a inode
  | .openFile inode flags => t.openInode a inode flags
  | .unlink parent name => t.removeChild a parent name
  | .rename parent name newParent newName => t.renameChild a parent name newParent newName
  | .take request inode handle => t.takeHandle request inode handle
  | .read request offset size => t.readTaken a request offset size
  | .write request offset data => t.writeTaken a request offset data
  | .resize inode handle size => t.resizeOpen a inode handle size
  | .release inode handle => t.release inode handle

def run (t : MountTables) : List (Answers × Callback) → MountTables
  | [] => t
  | (a, callback) :: callbacks => (t.step a callback).1.run callbacks

end MountTables

end UnixVfs
