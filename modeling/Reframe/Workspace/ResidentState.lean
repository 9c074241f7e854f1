import Reframe.Lib.SortedSet
import Reframe.Workspace.Record
import Reframe.Workspace.ResidentFile

/-! The resident tree: files, directories, the child index and the incremental dirty set. A
file is a shared object, so paths hold identities and the objects live in `heap`. -/
namespace Workspace

abbrev FileId := ℕ

inductive ChildEntry where
  | directory
  | file (id : FileId)
  deriving DecidableEq

abbrev ChildIndex := FiniteMap String (FiniteMap String ChildEntry)

namespace ChildIndex

/-- `rsplit_once('/')`, read on components. -/
def parentAndName (path : NormalizedPath) : String × String :=
  ("/".intercalate (path.parts.dropLast.map Subtype.val), (path.parts.getLast path.nonempty).1)

/-- `children.entry(directory).or_default().insert(name, entry)`. -/
def insertChild (children : ChildIndex) (path : NormalizedPath) (entry : ChildEntry) :
    ChildIndex :=
  let (parent, name) := parentAndName path
  children.insert parent (((children.get? parent).getD ∅).insert name entry)

def insertDirectory (children : ChildIndex) (path : NormalizedPath) : ChildIndex :=
  let children := insertChild children path .directory
  if children.contains path.asStr then children else children.insert path.asStr ∅

def insertFile (children : ChildIndex) (path : NormalizedPath) (id : FileId) : ChildIndex :=
  insertChild children path (.file id)

def removeFile (children : ChildIndex) (path : NormalizedPath) : ChildIndex :=
  let (parent, name) := parentAndName path
  match children.get? parent with
  | some entries => children.insert parent (entries.erase name)
  | none => children

def buildChildren (files : FiniteMap NormalizedPath FileId) (directories : Finset NormalizedPath) :
    ChildIndex :=
  let children : ChildIndex := (∅ : ChildIndex).insert "" ∅
  let children := (SortedSet.toSorted directories).foldl insertDirectory children
  files.toList.foldl (fun children e => insertFile children e.1 e.2) children

end ChildIndex

variable [Blake3]

inductive WorkspaceError where
  | scratchContent (path : String)
  | path (error : PathError)
  | file (error : FileError)
  | directoryOverFile (path : NormalizedPath)
  | renameIntoItself (source destination : NormalizedPath)
  | renameSourceMissing (source : NormalizedPath)
  | renameDestinationExists (destination : NormalizedPath)
  | renameFileOverDirectory (destination : NormalizedPath)
  | renameDirectoryOverFile (destination : NormalizedPath)
  | renameDestinationNotEmpty (destination : NormalizedPath)
  deriving DecidableEq

structure ResidentState where
  baseline : Baseline
  files : FiniteMap NormalizedPath FileId
  directories : Finset NormalizedPath
  baselineDirectories : Finset NormalizedPath
  children : ChildIndex
  dirty : Finset NormalizedPath
  /-- The file objects; those from `nextFile` on are not allocated yet. -/
  heap : FileId → ResidentFile
  nextFile : FileId

namespace ResidentFile

/-- The text `hash_hex` returns; its digest cache is not observable. -/
def hashText (f : ResidentFile) : String :=
  match f.hashHex with
  | .ok (text, _) => text
  | .error _ => ""

@[simp] theorem hashText_eq (f : ResidentFile) : f.hashText = hexHash f.bytes := by
  obtain ⟨f', h, -, -⟩ := f.hashHex_spec
  simp [hashText, h]

end ResidentFile

namespace ResidentState

/-- The file object linked at a path. -/
def fileAt (s : ResidentState) (path : NormalizedPath) : Option ResidentFile :=
  (s.files.get? path).map s.heap

def setFile (s : ResidentState) (id : FileId) (file : ResidentFile) : ResidentState :=
  { s with heap := Function.update s.heap id file }

/-- A new file object linked at `path`. -/
def linkNew (s : ResidentState) (path : NormalizedPath) (file : ResidentFile) : ResidentState :=
  { s with
    heap := Function.update s.heap s.nextFile file
    files := s.files.insert path s.nextFile
    nextFile := s.nextFile + 1 }

/-- The state with all missing parents, and the parents that were missing. -/
def ensureParentDirectories (s : ResidentState) (path : NormalizedPath) :
    ResidentState × List NormalizedPath :=
  let inserted := path.parents.filter fun parent => parent ∉ s.directories
  ({ s with
      directories := s.directories ∪ inserted.toFinset
      children := inserted.foldl ChildIndex.insertDirectory s.children },
    inserted)

def kindOfWrite (s : ResidentState) (path : NormalizedPath) : ChangeKind :=
  if s.baseline.contains path then .write else .create

/-- The change kind, the previous and current lengths, and whether a file was inserted. -/
def replaceFile (s : ResidentState) (path : NormalizedPath) (bytes : List UInt8) :
    ResidentState × ChangeKind × ℕ × ℕ × Bool :=
  let kind := s.kindOfWrite path
  let (s, id, previous, current, inserted) :=
    match s.files.get? path with
    | some id =>
      let (file, previous, current) := (s.heap id).replace bytes
      (s.setFile id file.markDirty.2, id, previous, current, false)
    | none => (s.linkNew path (.owned bytes), s.nextFile, 0, bytes.length, true)
  let s := { s with directories := s.directories.erase path }
  let (s, insertedDirectories) := s.ensureParentDirectories path
  let s := { s with
    children := ChildIndex.insertFile (s.children.erase path.asStr) path id
    dirty := insert path (s.dirty ∪ insertedDirectories.toFinset) }
  (s, kind, previous, current, inserted)

def allPaths (s : ResidentState) : Finset NormalizedPath :=
  s.files.keys ∪ s.directories ∪ s.baseline.keys

def markSubtreeDirty (s : ResidentState) (root : NormalizedPath) : ResidentState :=
  { s with
    dirty := insert root (s.dirty ∪
      s.allPaths.filter fun path => sameOrDescendant path.asStr root.asStr) }

/-- A path that is gone is dirty exactly when the baseline has it. -/
def journalRemoval (s : ResidentState) (path : NormalizedPath) : ResidentState :=
  { s with dirty := if s.baseline.contains path then insert path s.dirty else s.dirty.erase path }

/-- The removed file statistics, or `none` after a directory removal. -/
def removePath (s : ResidentState) (path : NormalizedPath) :
    ResidentState × Option (ℕ × ℕ) :=
  match s.files.get? path with
  | some id =>
    let s := { s with files := s.files.erase path }.journalRemoval path
    ({ s with children := ChildIndex.removeFile s.children path }, some (1, (s.heap id).len))
  | none =>
    if path ∉ s.directories then (s.journalRemoval path, some (0, 0))
    else
      let s := s.markSubtreeDirty path
      let files := s.files.retain fun candidate _ => !sameOrDescendant candidate.asStr path.asStr
      let directories := s.directories.filter
        fun candidate => ¬sameOrDescendant candidate.asStr path.asStr
      ({ s with files, directories, children := ChildIndex.buildChildren files directories }, none)

/-- The single-file rename; `id` is the object linked at `source`. -/
def renameFile (s : ResidentState) (source destination : NormalizedPath) (id : FileId) :
    ResidentState × ℕ × ℕ :=
  let s := { s with
    files := s.files.erase source
    children := ChildIndex.removeFile s.children source }
  let overwritten := s.files.get? destination
  let s := { s with
    files := s.files.erase destination
    children := if overwritten.isSome then ChildIndex.removeFile s.children destination
      else s.children }
  let s := s.setFile id (s.heap id).markDirty.2
  let s := { s with files := s.files.insert destination id }
  let (s, insertedDirectories) := s.ensureParentDirectories destination
  let s := { s with
    children := ChildIndex.insertFile s.children destination id
    dirty := insert destination (insert source s.dirty) ∪ insertedDirectories.toFinset }
  (s, match overwritten with
    | some old => (1, (s.heap old).len)
    | none => (0, 0))

/-- Entries of the source subtree under their new paths. -/
def replacements (s : ResidentState) (source destination : NormalizedPath) :
    List (NormalizedPath × FileId) :=
  s.files.toList.filterMap fun (path, id) =>
    (path.rewritten source destination).map fun path => (path, id)

def directoryReplacements (s : ResidentState) (source destination : NormalizedPath) :
    Finset NormalizedPath :=
  ((SortedSet.toSorted s.directories).filterMap
    fun path => path.rewritten source destination).toFinset

/-- The general rename: drop both subtrees, then put the source entries under `destination`. -/
def renameSubtree (s : ResidentState) (source destination : NormalizedPath) : ResidentState :=
  let files := s.replacements source destination
  let directories := s.directoryReplacements source destination
  let outside (path : NormalizedPath) : Bool :=
    !sameOrDescendant path.asStr destination.asStr && !sameOrDescendant path.asStr source.asStr
  let s := (s.markSubtreeDirty source).markSubtreeDirty destination
  let s := { s with
    files := (s.files.retain fun path _ => outside path).extend files
    directories := s.directories.filter (fun path => outside path) ∪ directories }
  let (s, insertedDirectories) := s.ensureParentDirectories destination
  let s := { s with dirty := s.dirty ∪ insertedDirectories.toFinset }
  let s := s.markSubtreeDirty destination
  { s with children := ChildIndex.buildChildren s.files s.directories }

def renamePath (s : ResidentState) (source destination : NormalizedPath) :
    Except WorkspaceError (ResidentState × Option (ℕ × ℕ)) :=
  if hasPrefix destination.asStr source.asStr then
    .error (.renameIntoItself source destination)
  else if source = destination then
    if s.files.contains source ∨ source ∈ s.directories then .ok (s, some (0, 0))
    else .error (.renameSourceMissing source)
  else
    let general : Except WorkspaceError (ResidentState × Option (ℕ × ℕ)) :=
      if s.replacements source destination = [] ∧ s.directoryReplacements source destination = ∅
      then .error (.renameSourceMissing source)
      else .ok (s.renameSubtree source destination, none)
    match s.files.get? source with
    | some id =>
      if destination ∉ s.directories then
        let (s, stats) := s.renameFile source destination id
        .ok (s, some stats)
      else general
    | none => general

/-- How one path differs from its record: the linked file first, then the directory. -/
def changeOf (path : NormalizedPath) (file : Option ResidentFile) (isDirectory : Bool)
    (record : Option FileRecord) (implied : Bool) : Option Change :=
  match file with
  | some file =>
    let kind := match record with
      | none => some ChangeKind.create
      | some original => if original.hash ≠ file.hashText then some .write else none
    kind.map fun kind => ⟨path.asStr, kind, some file.len⟩
  | none =>
    if isDirectory then
      let kind := match record with
        | some record =>
          if record.source = RecordSource.directory then none else some ChangeKind.write
        | none => if implied then none else some .create
      kind.map fun kind => ⟨path.asStr, kind, none⟩
    else if record.isSome then some ⟨path.asStr, .delete, none⟩ else none

def changeFor (s : ResidentState) (path : NormalizedPath) : Option Change :=
  changeOf path (s.fileAt path) (decide (path ∈ s.directories)) (s.baseline.get? path)
    (decide (path ∈ s.baselineDirectories))

/-- The objects after `mark_clean` on the file of a path, if there is one. -/
def cleanHeap (s : ResidentState) (path : NormalizedPath) : FileId → ResidentFile :=
  match s.files.get? path with
  | some id => Function.update s.heap id (s.heap id).markClean
  | none => s.heap

/-- Forget a path that no longer differs, and reset the flag of its file. -/
def settle (s : ResidentState) (path : NormalizedPath) : ResidentState :=
  { s with dirty := s.dirty.erase path, heap := s.cleanHeap path }

/-- The second loop of `collect_changes`, over paths with their evaluated change. -/
def collectEvaluated (s : ResidentState) :
    List (NormalizedPath × Option Change) → ResidentState × List Change
  | [] => (s, [])
  | (_, some change) :: rest =>
    let (s, changes) := s.collectEvaluated rest
    (s, change :: changes)
  | (path, none) :: rest => (s.settle path).collectEvaluated rest

def collectChanges (s : ResidentState) : ResidentState × List Change :=
  s.collectEvaluated ((SortedSet.toSorted s.dirty).map fun path => (path, s.changeFor path))

end ResidentState
end Workspace
