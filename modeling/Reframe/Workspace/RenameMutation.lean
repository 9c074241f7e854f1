import Reframe.Workspace.TreeIndex

/-! `rename_with_replace` as the mutation it is: the text tests and parses of its helpers may fail,
before the tree is touched or after. None of them does, so a rename either goes through as a whole
or leaves the workspace as it was. -/
namespace Workspace
open NormalizedPath

namespace NormalizedPath

/-- `str::strip_prefix`. -/
def stripPrefix (text start : String) : Option String :=
  (start.toList.isPrefixOf? text.toList).map String.ofList

/-- `rewritten_path`. -/
def rewrittenPath (path source destination : NormalizedPath) :
    Option (Except PathError NormalizedPath) :=
  if path = source then some (.ok destination)
  else (stripPrefix path.asStr source.asStr).bind fun suffix =>
    (stripPrefix suffix "/").map fun relative =>
      parseStr (destination.asStr ++ "/" ++ relative)

/-- The loop of `add_parent_directories`; `current` is the joined text of the parts so far. -/
def joinParents (current : String) : List String → Except PathError (List NormalizedPath)
  | [] | [_] => .ok []
  | part :: next :: rest => do
    let current := if current = "" then part else current ++ "/" ++ part
    let parent ← parseStr current
    let parents ← joinParents current (next :: rest)
    .ok (parent :: parents)

def addParentDirectories (path : String) : Except PathError (List NormalizedPath) :=
  joinParents "" (splitPath path)

theorem asStr_append (p : NormalizedPath) {tail : List Component} (h : tail ≠ []) :
    asStr ⟨p.parts ++ tail, fun hnil => p.nonempty (List.append_eq_nil_iff.mp hnil).1⟩ =
      p.asStr ++ "/" ++ asStr ⟨tail, h⟩ := by
  rw [asStr, asStr, asStr, List.map_append, String.intercalate_append_of_ne_nil
    (by rw [Ne, List.map_eq_nil_iff]; exact p.nonempty)
    (by rw [Ne, List.map_eq_nil_iff]; exact h)]

theorem stripPrefix_append (start rest : String) : stripPrefix (start ++ rest) start = some rest := by
  have hsplit : start.toList.isPrefixOf? (start.toList ++ rest.toList) = some rest.toList :=
    List.isPrefixOf?_eq_some_iff_append_eq.mpr rfl
  rw [stripPrefix, String.toList_append, hsplit, Option.map_some, String.ofList_toList]

theorem stripPrefix_eq_some {text start rest : String} (h : stripPrefix text start = some rest) :
    text.toList = start.toList ++ rest.toList := by
  obtain ⟨chars, hchars, rfl⟩ := Option.map_eq_some_iff.mp h
  rw [String.toList_ofList]
  exact (List.isPrefixOf?_eq_some_iff_append_eq.mp hchars).symm

/-- The texts of a moved path always parse, to the path moved on components. -/
theorem rewrittenPath_eq (path source destination : NormalizedPath) :
    rewrittenPath path source destination = (path.rewritten source destination).map .ok := by
  unfold rewrittenPath
  split
  · rename_i heq
    subst heq
    simp [rewritten]
  · rename_i hne
    by_cases hbelow : path.IsBelow source
    · obtain ⟨⟨tail, htail⟩, -⟩ := hbelow
      have hnil : tail ≠ [] := by
        rintro rfl
        rw [List.append_nil] at htail
        exact hne (ext_parts htail.symm)
      obtain rfl : path = ⟨source.parts ++ tail,
          fun h => source.nonempty (List.append_eq_nil_iff.mp h).1⟩ := ext_parts htail.symm
      rw [asStr_append source hnil, String.append_assoc, stripPrefix_append, Option.bind_some,
        stripPrefix_append, Option.map_some, ← asStr_append destination hnil, parseStr_asStr]
      simp [rewritten]
    · have hnone : path.rewritten source destination = none := by
        rw [← Option.not_isSome_iff_eq_none, rewritten_isSome, isWithin_iff]
        exact not_or.mpr ⟨hne, hbelow⟩
      rw [hnone, Option.map_none]
      -- a text that continues the source with a separator is a path below it
      by_contra hsome
      obtain ⟨parsed, hparsed⟩ := Option.ne_none_iff_exists'.mp hsome
      obtain ⟨suffix, hsuffix, hparsed⟩ := Option.bind_eq_some_iff.mp hparsed
      obtain ⟨relative, hrelative, -⟩ := Option.map_eq_some_iff.mp hparsed
      refine hbelow (hasPrefix_iff.mp ?_)
      rw [hasPrefix, List.isPrefixOf_iff_prefix, stripPrefix_eq_some hsuffix,
        stripPrefix_eq_some hrelative]
      exact ⟨relative.toList, by simp⟩

/-- The text of the first components, and of one more. -/
theorem join_snoc (done : List Component) (part : Component) :
    (if "/".intercalate (done.map Subtype.val) = "" then part.1
      else "/".intercalate (done.map Subtype.val) ++ "/" ++ part.1) =
        "/".intercalate ((done ++ [part]).map Subtype.val) := by
  by_cases hdone : done = []
  · subst hdone
    rfl
  · have htext : "/".intercalate (done.map Subtype.val) ≠ "" := asStr_ne_empty ⟨done, hdone⟩
    rw [if_neg htext]
    exact (asStr_append ⟨done, hdone⟩ (List.cons_ne_nil part [])).symm

/-- The loop with the components `done` behind it finds the longer ancestors, shortest first. -/
theorem joinParents_eq (p : NormalizedPath) (rest : List Component) :
    ∀ done : List Component, p.parts = done ++ rest →
      joinParents ("/".intercalate (done.map Subtype.val)) (rest.map Subtype.val) =
        .ok ((List.range' (done.length + 1) (rest.length - 1)).filterMap p.takeParts) := by
  induction rest with
  | nil => exact fun _ _ => rfl
  | cons part rest ih =>
    intro done hp
    cases rest with
    | nil => rfl
    | cons next rest =>
      have hnil : done ++ [part] ≠ [] := List.append_ne_nil_of_right_ne_nil _ (List.cons_ne_nil _ _)
      have hp' : p.parts = (done ++ [part]) ++ next :: rest := by
        rw [hp, List.append_assoc, List.singleton_append]
      have htake : p.takeParts (done.length + 1) = some ⟨done ++ [part], hnil⟩ := by
        have hparts : p.parts.take (done.length + 1) = done ++ [part] := by
          rw [hp', List.take_left' (by simp)]
        simp only [takeParts, hparts, dif_neg hnil]
      have hparse : parseStr ("/".intercalate ((done ++ [part]).map Subtype.val)) =
          .ok ⟨done ++ [part], hnil⟩ := parseStr_asStr ⟨done ++ [part], hnil⟩
      have hrest := ih (done ++ [part]) hp'
      rw [List.map_cons] at hrest
      simp only [List.map_cons, joinParents, join_snoc, hparse, hrest]
      simp [List.range'_succ, htake, bind, Except.bind]

theorem addParentDirectories_asStr (p : NormalizedPath) :
    addParentDirectories p.asStr = .ok p.parents := by
  have hjoin := joinParents_eq p p.parts [] rfl
  rw [addParentDirectories, splitPath_asStr]
  refine hjoin.trans (congrArg Except.ok ?_)
  have htop : p.takeParts 0 = none := by simp [takeParts]
  rw [parents, leading, List.range_eq_range', List.range'_succ, List.filterMap_cons, htop]
  rfl

end NormalizedPath

variable [Blake3]

namespace ResidentState

/-- `ensure_parent_directories`: all parents are parsed before the first is inserted. -/
def ensureParentDirectoriesMut (s : ResidentState) (path : NormalizedPath) :
    ResidentState × Except WorkspaceError (List NormalizedPath) :=
  match addParentDirectories path.asStr with
  | .error e => (s, .error (.path e))
  | .ok parents =>
    let inserted := parents.filter fun parent => parent ∉ s.directories
    ({ s with
        directories := s.directories ∪ inserted.toFinset
        children := inserted.foldl ChildIndex.insertDirectory s.children },
      .ok inserted)

/-- `rename_file`; `id` is the object linked at `source`. -/
def renameFileMut (s : ResidentState) (source destination : NormalizedPath) (id : FileId) :
    ResidentState × Except WorkspaceError (ℕ × ℕ) :=
  let s := { s with
    files := s.files.erase source
    children := ChildIndex.removeFile s.children source }
  let overwritten := s.files.get? destination
  let s := { s with
    files := s.files.erase destination
    children := if overwritten.isSome then ChildIndex.removeFile s.children destination
      else s.children }
  let s := s.setFile id (s.heap id).markDirty.2
  let s := { s with files := s.files.insert destination id }
  match s.ensureParentDirectoriesMut destination with
  | (s, .error e) => (s, .error e)
  | (s, .ok insertedDirectories) =>
    let s := { s with
      children := ChildIndex.insertFile s.children destination id
      dirty := insert destination (insert source s.dirty) ∪ insertedDirectories.toFinset }
    (s, .ok (match overwritten with
      | some old => (1, (s.heap old).len)
      | none => (0, 0)))

/-- `replacements`: the first text that does not parse stops the collection. -/
def replacementsMut (s : ResidentState) (source destination : NormalizedPath) :
    Except PathError (List (NormalizedPath × FileId)) :=
  (s.files.toList.filterMap fun (path, id) => (rewrittenPath path source destination).map
    fun parsed => parsed.map fun path => (path, id)).mapM id

def directoryReplacementsMut (s : ResidentState) (source destination : NormalizedPath) :
    Except PathError (List NormalizedPath) :=
  ((SortedSet.toSorted s.directories).filterMap
    fun path => rewrittenPath path source destination).mapM id

/-- The rest of `rename_path`, past the single-file rename. -/
def renameSubtreeMut (s : ResidentState) (source destination : NormalizedPath) :
    ResidentState × Except WorkspaceError (Option (ℕ × ℕ)) :=
  match s.replacementsMut source destination with
  | .error e => (s, .error (.path e))
  | .ok files =>
    match s.directoryReplacementsMut source destination with
    | .error e => (s, .error (.path e))
    | .ok directories =>
      if files = [] ∧ directories = [] then (s, .error (.renameSourceMissing source))
      else
        let outside (path : NormalizedPath) : Bool :=
          !sameOrDescendant path.asStr destination.asStr &&
            !sameOrDescendant path.asStr source.asStr
        let s := (s.markSubtreeDirty source).markSubtreeDirty destination
        let s := { s with
          files := (s.files.retain fun path _ => outside path).extend files
          directories := s.directories.filter (fun path => outside path) ∪ directories.toFinset }
        match s.ensureParentDirectoriesMut destination with
        | (s, .error e) => (s, .error e)
        | (s, .ok insertedDirectories) =>
          let s := { s with dirty := s.dirty ∪ insertedDirectories.toFinset }
          let s := s.markSubtreeDirty destination
          ({ s with children := ChildIndex.buildChildren s.files s.directories }, .ok none)

def renamePathMut (s : ResidentState) (source destination : NormalizedPath) :
    ResidentState × Except WorkspaceError (Option (ℕ × ℕ)) :=
  if hasPrefix destination.asStr source.asStr then
    (s, .error (.renameIntoItself source destination))
  else if source = destination then
    if s.files.contains source ∨ source ∈ s.directories then (s, .ok (some (0, 0)))
    else (s, .error (.renameSourceMissing source))
  else
    match s.files.get? source with
    | some id =>
      if destination ∉ s.directories then
        match s.renameFileMut source destination id with
        | (s, .error e) => (s, .error e)
        | (s, .ok stats) => (s, .ok (some stats))
      else s.renameSubtreeMut source destination
    | none => s.renameSubtreeMut source destination

/-- A computation that leaves the state as it was when it fails. -/
def orUnchanged {σ α : Type} (s : σ) :
    Except WorkspaceError (σ × α) → σ × Except WorkspaceError α
  | .ok (s', a) => (s', .ok a)
  | .error e => (s, .error e)

theorem ensureParentDirectoriesMut_eq (s : ResidentState) (path : NormalizedPath) :
    s.ensureParentDirectoriesMut path =
      ((s.ensureParentDirectories path).1, .ok (s.ensureParentDirectories path).2) := by
  unfold ensureParentDirectoriesMut
  rw [addParentDirectories_asStr]
  rfl

theorem renameFileMut_eq (s : ResidentState) (source destination : NormalizedPath) (id : FileId) :
    s.renameFileMut source destination id =
      ((s.renameFile source destination id).1, .ok (s.renameFile source destination id).2) := by
  unfold renameFileMut
  simp only [ensureParentDirectoriesMut_eq]
  rfl

omit [Blake3] in
theorem mapM_ok {ε α : Type} (xs : List α) :
    (xs.map (Except.ok : α → Except ε α)).mapM id = .ok xs := by
  induction xs with
  | nil => rfl
  | cons x xs ih =>
    rw [List.map_cons, List.mapM_cons, ih]
    rfl

theorem replacementsMut_eq (s : ResidentState) (source destination : NormalizedPath) :
    s.replacementsMut source destination = .ok (s.replacements source destination) := by
  unfold replacementsMut replacements
  rw [← mapM_ok, List.map_filterMap]
  congr 2
  funext ⟨path, id⟩
  simp only [rewrittenPath_eq, Option.map_map]
  rfl

theorem directoryReplacementsMut_eq (s : ResidentState) (source destination : NormalizedPath) :
    s.directoryReplacementsMut source destination = .ok ((SortedSet.toSorted s.directories).filterMap
      fun path => path.rewritten source destination) := by
  unfold directoryReplacementsMut
  rw [← mapM_ok, List.map_filterMap]
  congr 2
  funext path
  exact rewrittenPath_eq path source destination

theorem renameSubtreeMut_eq (s : ResidentState) (source destination : NormalizedPath) :
    s.renameSubtreeMut source destination = orUnchanged s
      (if s.replacements source destination = [] ∧ s.directoryReplacements source destination = ∅
        then .error (.renameSourceMissing source)
        else .ok (s.renameSubtree source destination, none)) := by
  have hempty : s.directoryReplacements source destination = ∅ ↔
      ((SortedSet.toSorted s.directories).filterMap
        fun path => path.rewritten source destination) = [] := List.toFinset_eq_empty_iff _
  unfold renameSubtreeMut
  simp only [replacementsMut_eq, directoryReplacementsMut_eq, hempty, ensureParentDirectoriesMut_eq]
  split <;> rfl

/-- A rename of the tree fails before it changes anything. -/
theorem renamePathMut_eq (s : ResidentState) (source destination : NormalizedPath) :
    s.renamePathMut source destination = orUnchanged s (s.renamePath source destination) := by
  unfold renamePathMut renamePath
  split
  · rfl
  · split
    · split <;> rfl
    · simp only [renameSubtreeMut_eq]
      cases s.files.get? source with
      | none => rfl
      | some id =>
        simp only [renameFileMut_eq]
        split <;> rfl

end ResidentState

namespace ResidentWorkspace
open ResidentState

/-- `rename_with_replace`, with the workspace as it is when the call returns. -/
def renameWithReplaceMut (ws : ResidentWorkspace) (source destination : String) (replace : Bool) :
    ResidentWorkspace × Except WorkspaceError RenameOutcome :=
  match ws.rejectScratch source, ws.rejectScratch destination, parse source, parse destination with
  | .error e, _, _, _ => (ws, .error e)
  | _, .error e, _, _ => (ws, .error e)
  | _, _, .error e, _ => (ws, .error e)
  | _, _, _, .error e => (ws, .error e)
  | .ok (), .ok (), .ok source, .ok destination =>
    let sourceIsFile := ws.state.files.contains source
    let sourceIsDirectory := decide (source ∈ ws.state.directories)
    if !sourceIsFile && !sourceIsDirectory then (ws, .error (.renameSourceMissing source))
    else if source = destination then (ws, .ok ⟨none, false⟩)
    else
      let destinationFile := ws.state.files.get? destination
      let destinationIsDirectory := decide (destination ∈ ws.state.directories)
      if (destinationFile.isSome || destinationIsDirectory) && !replace then
        (ws, .error (.renameDestinationExists destination))
      else if sourceIsFile && destinationIsDirectory then
        (ws, .error (.renameFileOverDirectory destination))
      else if sourceIsDirectory && destinationFile.isSome then
        (ws, .error (.renameDirectoryOverFile destination))
      else if sourceIsDirectory && destinationIsDirectory &&
          (ws.state.children.get? destination.asStr).any (fun entries => entries.size ≠ 0) then
        (ws, .error (.renameDestinationNotEmpty destination))
      else
        let outcome : RenameOutcome := ⟨destinationFile, destinationIsDirectory⟩
        match ws.state.renamePathMut source destination with
        | (state, .error e) => ({ ws with state }, .error e)
        | (state, .ok stats) => (ws.withStats state stats, .ok outcome)

theorem renameWithReplaceMut_eq (ws : ResidentWorkspace) (source destination : String)
    (replace : Bool) : ws.renameWithReplaceMut source destination replace =
      orUnchanged ws (ws.renameWithReplace source destination replace) := by
  unfold renameWithReplaceMut renameWithReplace
  cases ws.rejectScratch source with
  | error e => rfl
  | ok _ =>
    cases ws.rejectScratch destination with
    | error e => rfl
    | ok _ =>
      cases parse source with
      | error e => rfl
      | ok origin =>
        cases parse destination with
        | error e => rfl
        | ok target =>
          simp only [renamePathMut_eq, bind, Except.bind]
          split_ifs <;> first | rfl | skip
          cases ws.state.renamePath origin target <;> rfl

end ResidentWorkspace
end Workspace
