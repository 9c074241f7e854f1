import Reframe.Workspace.Journal
import Reframe.Workspace.Loading

/-! Runs of workspace operations from a loaded workspace, and the completeness of the journal
along them. -/
namespace Workspace
open NormalizedPath

inductive ResidentOp where
  | createDirectory (path : String)
  | replace (path : String) (bytes : List UInt8)
  | write (path : String) (offset : ℕ) (data : List UInt8)
  | resize (path : String) (size : ℕ)
  | remove (path : String)
  | rename (source destination : String) (replace : Bool)
  | writeOpen (pathHint : String) (id : FileId) (offset : ℕ) (data : List UInt8)
  | resizeOpen (pathHint : String) (id : FileId) (size : ℕ)
  | replaceOpen (pathHint : String) (id : FileId) (bytes : List UInt8)
  | removeOpen (pathHint : String) (id : FileId)
  | changes
  | markCheckpointed (paths : List String)
  deriving DecidableEq

section

variable [Blake3]

/-- A workspace with the changes it reported last. -/
structure JournaledWorkspace where
  workspace : ResidentWorkspace
  reported : List Change

namespace ResidentWorkspace

/-- The workspace after a call, which a failed call leaves as it was. -/
def after (ws : ResidentWorkspace) : Except WorkspaceError ResidentWorkspace → ResidentWorkspace
  | .ok ws' => ws'
  | .error _ => ws

end ResidentWorkspace

namespace JournaledWorkspace

def step (j : JournaledWorkspace) (op : ResidentOp) : JournaledWorkspace :=
  let ws := j.workspace
  match op with
  | .createDirectory path => { j with workspace := ws.after (ws.createDirectory path) }
  | .replace path bytes => { j with workspace := ws.after ((ws.replace path bytes).map (·.1)) }
  | .write path offset data =>
    { j with workspace := ws.after ((ws.write path offset data).map (·.1)) }
  | .resize path size => { j with workspace := ws.after ((ws.resize path size).map (·.1)) }
  | .remove path => { j with workspace := ws.after (ws.remove path) }
  | .rename source destination replace =>
    { j with workspace := ws.after ((ws.renameWithReplace source destination replace).map (·.1)) }
  | .writeOpen pathHint id offset data =>
    { j with workspace := ws.after (ws.writeOpenFile pathHint id offset data) }
  | .resizeOpen pathHint id size => { j with workspace := ws.resizeOpenFile pathHint id size }
  | .replaceOpen pathHint id bytes => { j with workspace := ws.replaceOpenFile pathHint id bytes }
  | .removeOpen pathHint id => { j with workspace := (ws.removeOpenFile pathHint id).1 }
  | .changes => ⟨ws.changes.1, ws.changes.2⟩
  | .markCheckpointed paths => { j with workspace := (ws.markCheckpointed paths).1 }

/-- Only paths that were reported last are checkpointed. -/
def InScope (j : JournaledWorkspace) : ResidentOp → Prop
  | .markCheckpointed paths => ∀ path ∈ paths, path ∈ j.reported.map Change.path
  | _ => True

/-- The paths of a checkpoint call, parsed. -/
def selectedPaths (paths : List String) : List NormalizedPath :=
  paths.filterMap fun path => (parseStr path).toOption

/-- Removals do not take the file off a directory that the journal then misses, and checkpoints
keep implied directories implied. -/
def KeepsJournal (j : JournaledWorkspace) : ResidentOp → Prop
  | .remove path => j.workspace.scratch path = true ∨
      Run.OnOk (parseStr path) j.workspace.state.RemovalJournaled
  | .removeOpen pathHint id => ∀ path ∈
      ResidentWorkspace.linkedFilePath j.workspace.state.files pathHint id,
      j.workspace.state.RemovalJournaled path
  | .markCheckpointed paths => j.workspace.state.KeepsImplied (selectedPaths paths)
  | _ => True

end JournaledWorkspace

open ResidentState

/-- A freshly loaded tree equals its baseline everywhere. -/
theorem LoadedState.journalInv {records : Baseline} {s : ResidentState}
    (h : LoadedState records s) : s.JournalInv where
  fresh := h.linkedFrom.fresh
  linked := h.linkedFrom.linked
  index := by rw [h.index, h.baseline]
  settled p _ := by
    refine ⟨?_, fun id hid => (h.linkedFrom.content p id hid).1⟩
    unfold ResidentState.changeFor
    rw [h.baseline, h.directories, h.index]
    cases hf : s.files.get? p with
    | some id =>
      obtain ⟨-, r, hr, -, hhash⟩ := h.linkedFrom.content p id hf
      simp [changeOf, fileAt, hf, hr, hhash]
    | none =>
      cases hr : records.get? p with
      | none => by_cases hd : p ∈ baselineDirectories records <;> simp [changeOf, fileAt, hf, hd]
      | some r =>
        have hdir : r.source = .directory := by
          by_contra hdir
          have := h.files p r hr hdir
          rw [hf] at this
          cases this
        have hmem : p ∈ baselineDirectories records :=
          mem_baselineDirectories.mpr ⟨p, r, hr, .inr ⟨rfl, hdir⟩⟩
        simp [changeOf, fileAt, hf, hdir, hmem]

namespace ResidentWorkspace

omit [Blake3] in
theorem linkedFilePath_eq_some {files : FiniteMap NormalizedPath FileId} {pathHint : String}
    {id : FileId} {path : NormalizedPath} (h : linkedFilePath files pathHint id = some path) :
    files.get? path = some id := by
  unfold linkedFilePath at h
  obtain ⟨e, he, rfl⟩ := Option.map_eq_some_iff.mp h
  have hmem : e ∈ files.toList ∧ e.2 = id := by
    rcases Option.or_eq_some_iff.mp he with he | ⟨-, he⟩
    · have := List.find?_some he
      exact ⟨List.mem_of_find?_eq_some he, by simp_all⟩
    · have := List.find?_some he
      exact ⟨List.mem_of_find?_eq_some he, by simp_all⟩
  exact hmem.2 ▸ FiniteMap.mem_toList.mp hmem.1

omit [Blake3] in
theorem linkedFilePath_eq_none {files : FiniteMap NormalizedPath FileId} {pathHint : String}
    {id : FileId} (h : linkedFilePath files pathHint id = none) (path : NormalizedPath) :
    files.get? path ≠ some id := by
  unfold linkedFilePath at h
  rw [Option.map_eq_none_iff, Option.or_eq_none_iff] at h
  intro hp
  have := List.find?_eq_none.mp h.2 (path, id) (FiniteMap.mem_toList.mpr hp)
  simp at this

theorem rejectScratch_bind {α : Type} {ws : ResidentWorkspace} {path : String}
    {rest : Unit → Except WorkspaceError α} {a : α}
    (h : (ws.rejectScratch path >>= rest) = .ok a) : rest () = .ok a := by
  obtain ⟨_, -, hrest⟩ := Run.bind_eq_ok.mp h
  exact hrest

omit [Blake3] in
theorem parse_bind {α : Type} {path : String} {rest : NormalizedPath → Except WorkspaceError α}
    {a : α} (h : (parse path >>= rest) = .ok a) :
    ∃ p, parseStr path = .ok p ∧ rest p = .ok a := by
  obtain ⟨p, hp, h⟩ := Run.bind_eq_ok.mp h
  refine ⟨p, ?_, h⟩
  unfold parse at hp
  cases hs : parseStr path with
  | ok q => simpa [hs, Except.mapError] using hp
  | error e => rw [hs] at hp; cases hp

theorem state_withStats (ws : ResidentWorkspace) (state : ResidentState)
    (stats : Option (ℕ × ℕ)) : (ws.withStats state stats).state = state := by
  cases stats <;> rfl

variable {ws ws' : ResidentWorkspace}

theorem createDirectory_journalInv (h : ws.state.JournalInv) {path : String}
    (hop : ws.createDirectory path = .ok ws') : ws'.state.JournalInv := by
  obtain ⟨p, -, hop⟩ := parse_bind (rejectScratch_bind hop)
  split at hop
  · cases hop
  · simp only at hop
    split at hop
    · cases hop
      refine h.step_directories rfl rfl rfl rfl rfl fun q hq => ?_
      simp only [ensureParentDirectories, Finset.mem_insert, Finset.mem_union, not_or] at hq ⊢
      exact ⟨hq.2.1, by tauto⟩
    · cases hop
      refine h.step_directories rfl rfl rfl rfl rfl fun q hq => ?_
      simp only [ensureParentDirectories, Finset.mem_union, not_or] at hq ⊢
      exact ⟨hq.1, by tauto⟩

theorem replace_journalInv (h : ws.state.JournalInv) {path : String} {bytes : List UInt8}
    {kind : ChangeKind} (hop : ws.replace path bytes = .ok (ws', kind)) :
    ws'.state.JournalInv := by
  obtain ⟨p, -, hop⟩ := parse_bind (rejectScratch_bind hop)
  cases hop
  exact h.replaceFile p bytes

theorem storeContent_journalInv (h : ws.state.JournalInv) {path : NormalizedPath} {id : FileId}
    (hf : ws.state.files.get? path = some id) {change : ResidentFile × ℕ × ℕ}
    (hflag : change.1.dirty = (ws.state.heap id).dirty) :
    (ws.storeContent path id change).state.JournalInv := h.storeContent hf hflag

theorem write_flag {f : ResidentFile} {offset : ℕ} {data : List UInt8}
    {change : ResidentFile × ℕ × ℕ} (h : f.write offset data = .ok change) :
    change.1.dirty = f.dirty := by
  by_cases hfit : offset + data.length < 2 ^ 64
  · obtain ⟨f', lens, hw, -, hflag⟩ := f.write_spec offset data hfit
    rw [h] at hw
    cases hw
    exact hflag
  · rw [ResidentFile.write, if_neg hfit] at h
    cases h

theorem write_journalInv (h : ws.state.JournalInv) {path : String} {offset : ℕ}
    {data : List UInt8} {kind : ChangeKind} (hop : ws.write path offset data = .ok (ws', kind)) :
    ws'.state.JournalInv := by
  obtain ⟨p, -, hop⟩ := parse_bind (rejectScratch_bind hop)
  cases hf : ws.state.files.get? p with
  | none =>
    simp only [hf] at hop
    split at hop
    · exact replace_journalInv h hop
    · cases hop
  | some id =>
    simp only [hf] at hop
    obtain ⟨change, hw, hop⟩ := Run.bind_eq_ok.mp hop
    cases hop
    cases hfile : (ws.state.heap id).write offset data with
    | error e => rw [hfile] at hw; cases hw
    | ok change' =>
      rw [hfile] at hw
      cases hw
      exact storeContent_journalInv h hf (write_flag hfile)

theorem resize_journalInv (h : ws.state.JournalInv) {path : String} {size : ℕ} {kind : ChangeKind}
    (hop : ws.resize path size = .ok (ws', kind)) : ws'.state.JournalInv := by
  obtain ⟨p, -, hop⟩ := parse_bind (rejectScratch_bind hop)
  cases hf : ws.state.files.get? p with
  | none =>
    simp only [hf] at hop
    exact replace_journalInv h hop
  | some id =>
    simp only [hf] at hop
    cases hop
    exact storeContent_journalInv h hf rfl

theorem storeOpen_journalInv (h : ws.state.JournalInv) (pathHint : String) {id : FileId}
    {change : ResidentFile × ℕ × ℕ} (hflag : change.1.dirty = (ws.state.heap id).dirty) :
    (ws.storeOpen pathHint id change).state.JournalInv := by
  unfold storeOpen
  split
  next path hp => exact storeContent_journalInv h (linkedFilePath_eq_some hp) hflag
  next hp => exact h.setFile_unlinked (linkedFilePath_eq_none hp) _

theorem writeOpenFile_journalInv (h : ws.state.JournalInv) {pathHint : String} {id : FileId}
    {offset : ℕ} {data : List UInt8}
    (hop : ws.writeOpenFile pathHint id offset data = .ok ws') : ws'.state.JournalInv := by
  obtain ⟨change, hw, hop⟩ := Run.bind_eq_ok.mp hop
  cases hop
  cases hfile : (ws.state.heap id).write offset data with
  | error e => rw [hfile] at hw; cases hw
  | ok change' =>
    rw [hfile] at hw
    cases hw
    exact storeOpen_journalInv h pathHint (write_flag hfile)

theorem remove_journalInv (h : ws.state.JournalInv) {path : String}
    (hc : ws.scratch path = true ∨ Run.OnOk (parseStr path) ws.state.RemovalJournaled)
    (hop : ws.remove path = .ok ws') : ws'.state.JournalInv := by
  unfold remove at hop
  split at hop
  · cases hop
    exact h
  next hscratch =>
    obtain ⟨p, hp, hop⟩ := parse_bind hop
    cases hop
    rw [state_withStats]
    exact h.removePath (hc.resolve_left hscratch p hp)

theorem removeOpenFile_journalInv (h : ws.state.JournalInv) {pathHint : String} {id : FileId}
    (hc : ∀ path ∈ linkedFilePath ws.state.files pathHint id, ws.state.RemovalJournaled path) :
    (ws.removeOpenFile pathHint id).1.state.JournalInv := by
  unfold removeOpenFile
  cases hp : linkedFilePath ws.state.files pathHint id with
  | none => exact h
  | some path =>
    simp only [state_withStats]
    exact h.removePath (hc path hp)

theorem renameWithReplace_journalInv (h : ws.state.JournalInv) {source destination : String}
    {replace : Bool} {outcome : RenameOutcome}
    (hop : ws.renameWithReplace source destination replace = .ok (ws', outcome)) :
    ws'.state.JournalInv := by
  obtain ⟨s, -, hop⟩ := parse_bind (rejectScratch_bind (rejectScratch_bind hop))
  obtain ⟨d, -, hop⟩ := parse_bind hop
  simp only at hop
  split at hop
  · cases hop
  split at hop
  · cases hop
    exact h
  split at hop
  · cases hop
  split at hop
  · cases hop
  split at hop
  · cases hop
  split at hop
  · cases hop
  obtain ⟨⟨state, stats⟩, hr, hop⟩ := Run.bind_eq_ok.mp hop
  cases hop
  rw [state_withStats]
  exact h.renamePath hr

end ResidentWorkspace

namespace JournaledWorkspace
open ResidentWorkspace

/-- The journal invariant, and every reported change names a workspace path. -/
structure Inv (j : JournaledWorkspace) : Prop where
  journal : j.workspace.state.JournalInv
  reported : ∀ change ∈ j.reported, ∃ p : NormalizedPath, change.path = p.asStr

theorem changeFor_path {s : ResidentState} {p : NormalizedPath} {change : Change}
    (h : s.changeFor p = some change) : change.path = p.asStr := by
  unfold ResidentState.changeFor changeOf at h
  split at h
  · obtain ⟨kind, -, rfl⟩ := Option.map_eq_some_iff.mp h
    rfl
  · split at h
    · obtain ⟨kind, -, rfl⟩ := Option.map_eq_some_iff.mp h
      rfl
    · split at h
      · cases h
        rfl
      · cases h

theorem after_journalInv {ws : ResidentWorkspace} (h : ws.state.JournalInv)
    {result : Except WorkspaceError ResidentWorkspace}
    (hr : ∀ ws', result = .ok ws' → ws'.state.JournalInv) : (ws.after result).state.JournalInv := by
  cases result with
  | ok ws' => exact hr ws' rfl
  | error e => exact h

theorem map_fst_eq_ok {α : Type} {result : Except WorkspaceError (ResidentWorkspace × α)}
    {ws' : ResidentWorkspace} (h : result.map (·.1) = .ok ws') :
    ∃ a, result = .ok (ws', a) := by
  cases result with
  | ok r =>
    cases h
    exact ⟨r.2, rfl⟩
  | error e => cases h

omit [Blake3] in
/-- The selection of a checkpoint call on reported paths. -/
theorem map_asStr_selectedPaths {paths : List String}
    (h : ∀ path ∈ paths, ∃ p : NormalizedPath, path = p.asStr) :
    (selectedPaths paths).map asStr = paths := by
  induction paths with
  | nil => rfl
  | cons path rest ih =>
    obtain ⟨p, rfl⟩ := h path List.mem_cons_self
    have hrest := ih fun q hq => h q (List.mem_cons_of_mem _ hq)
    simp only [selectedPaths, parseStr_asStr, Except.toOption, List.filterMap_cons,
      List.map_cons] at hrest ⊢
    rw [hrest]

theorem Inv.step {j : JournaledWorkspace} (h : j.Inv) (op : ResidentOp)
    (hop : j.InScope op ∧ j.KeepsJournal op) : (j.step op).Inv := by
  cases op with
  | createDirectory path =>
    exact ⟨after_journalInv h.journal fun ws' hr => createDirectory_journalInv h.journal hr,
      h.reported⟩
  | replace path bytes =>
    refine ⟨after_journalInv h.journal fun ws' hr => ?_, h.reported⟩
    obtain ⟨kind, hr⟩ := map_fst_eq_ok hr
    exact replace_journalInv h.journal hr
  | write path offset data =>
    refine ⟨after_journalInv h.journal fun ws' hr => ?_, h.reported⟩
    obtain ⟨kind, hr⟩ := map_fst_eq_ok hr
    exact write_journalInv h.journal hr
  | resize path size =>
    refine ⟨after_journalInv h.journal fun ws' hr => ?_, h.reported⟩
    obtain ⟨kind, hr⟩ := map_fst_eq_ok hr
    exact resize_journalInv h.journal hr
  | remove path =>
    exact ⟨after_journalInv h.journal fun ws' hr => remove_journalInv h.journal hop.2 hr,
      h.reported⟩
  | rename source destination replace =>
    refine ⟨after_journalInv h.journal fun ws' hr => ?_, h.reported⟩
    obtain ⟨outcome, hr⟩ := map_fst_eq_ok hr
    exact renameWithReplace_journalInv h.journal hr
  | writeOpen pathHint id offset data =>
    exact ⟨after_journalInv h.journal fun ws' hr => writeOpenFile_journalInv h.journal hr,
      h.reported⟩
  | resizeOpen pathHint id size => exact ⟨storeOpen_journalInv h.journal pathHint rfl, h.reported⟩
  | replaceOpen pathHint id bytes => exact ⟨storeOpen_journalInv h.journal pathHint rfl, h.reported⟩
  | removeOpen pathHint id => exact ⟨removeOpenFile_journalInv h.journal hop.2, h.reported⟩
  | changes =>
    obtain ⟨hinv, hchanges⟩ := h.journal.collectChanges
    refine ⟨hinv, fun change hc => ?_⟩
    change change ∈ j.workspace.state.collectChanges.2 at hc
    rw [hchanges, fullDifference, List.mem_filterMap] at hc
    obtain ⟨p, -, hp⟩ := hc
    exact ⟨p, changeFor_path hp⟩
  | markCheckpointed paths =>
    have hpaths : ∀ path ∈ paths, ∃ p : NormalizedPath, path = p.asStr := by
      intro path hpath
      obtain ⟨change, hc, rfl⟩ := List.mem_map.mp (hop.1 path hpath)
      exact h.reported change hc
    refine ⟨?_, h.reported⟩
    have hinv := h.journal.checkpoint hop.2
    simp only [JournaledWorkspace.step, markCheckpointed]
    rw [← map_asStr_selectedPaths hpaths, checkpointPaths_asStr]
    exact hinv

end JournaledWorkspace

open JournaledWorkspace in
/-- Along every run that keeps the journal, the journal is the full difference between the tree
and the baseline, and the dirty set misses no path that differs. -/
theorem changes_eq_fullDifference {content : ContentSource}
    {cached : (hash : String) → Option {blob : SoundBlob // blob.1.hashHex = hash}}
    {baseline : Baseline} {scratch : String → Bool} (hcanon : CanonicalRecords baseline)
    {ws : ResidentWorkspace} (hload : loadCached content cached baseline scratch = .ok ws)
    (ops : List ResidentOp)
    (hops : Run.Along (fun j op => j.InScope op ∧ j.KeepsJournal op) step ⟨ws, []⟩ ops) :
    (ops.foldl step ⟨ws, []⟩).workspace.changes.2 =
        (ops.foldl step ⟨ws, []⟩).workspace.state.fullDifference ∧
      ∀ p, ((ops.foldl step ⟨ws, []⟩).workspace.state.changeFor p).isSome →
        p ∈ (ops.foldl step ⟨ws, []⟩).workspace.state.dirty := by
  have hinv := Run.foldl_invariant (fun (j : JournaledWorkspace) op hop (h : j.Inv) => h.step op hop) ops ⟨ws, []⟩ hops
    ⟨(loadCached_spec hcanon hload).1.journalInv, by simp⟩
  refine ⟨hinv.journal.collectChanges.2, fun p hp => ?_⟩
  by_contra hd
  rw [(hinv.journal.settled p hd).1] at hp
  cases hp

end

namespace TestVectors
open JournaledWorkspace

def nestedDirectory : NormalizedPath := ⟨[⟨"d", by decide⟩], List.cons_ne_nil _ _⟩

/-- A baseline with the one file `d/f`, which is empty; the directory `d` is only implied. -/
def nestedPath : NormalizedPath :=
  ⟨nestedDirectory.parts ++ [⟨"f", by decide⟩], List.append_ne_nil_of_right_ne_nil _ (List.cons_ne_nil _ _)⟩

def nestedBaseline : Baseline :=
  (∅ : Baseline).insert nestedPath ⟨nestedPath, empty, 0, .blob⟩

def nestedContent : ContentSource where
  storeRoot := "store"
  readBlob _ hash := if hash = empty then some [] else none
  readMemory _ := none

def nestedLoad : Except LoadError ResidentWorkspace :=
  loadCached nestedContent (fun _ => none) nestedBaseline fun _ => false

def nestedWorkspace : ResidentWorkspace :=
  match nestedLoad with
  | .ok ws => ws
  | .error _ => ⟨emptyState ∅ ∅, fun _ => false, 0, 0⟩

theorem nestedLoad_eq : nestedLoad = .ok nestedWorkspace := by
  have hok : nestedLoad.isOk = true := by decide +kernel
  unfold nestedWorkspace
  cases h : nestedLoad with
  | ok ws => rfl
  | error e =>
    rw [h] at hok
    cases hok

theorem nestedBaseline_canonical : CanonicalRecords nestedBaseline := by
  intro p r h
  rw [nestedBaseline, FiniteMap.get?_insert] at h
  split at h
  next hp =>
    cases h
    exact ⟨hp.symm, fun hdir => (by cases hdir), fun _ _ => ⟨digestText [], rfl⟩⟩
  next => cases h

/-- Delete the only file of an implied directory and checkpoint the deletion: the directory is
now a change, but nothing journals it. -/
theorem changes_misses_emptied_directory :
    nestedLoad = .ok nestedWorkspace ∧
      Run.Along InScope step ⟨nestedWorkspace, []⟩
        [.remove "d/f", .changes, .markCheckpointed ["d/f"]] ∧
      ([.remove "d/f", .changes, .markCheckpointed ["d/f"]].foldl step
        ⟨nestedWorkspace, []⟩).workspace.changes.2 = [] ∧
      ([.remove "d/f", .changes, .markCheckpointed ["d/f"]].foldl step
        ⟨nestedWorkspace, []⟩).workspace.state.fullDifference = [⟨"d", .create, none⟩] := by
  refine ⟨nestedLoad_eq, ⟨trivial, trivial, ?_, trivial⟩, ?_, ?_⟩
  · simp only [InScope]
    decide +kernel
  · decide +kernel
  · decide +kernel

/-- The same deletion with a new file left beside it keeps the directory implied. -/
theorem changes_complete_with_sibling :
    ([.replace "d/g" [], .remove "d/f", .changes, .markCheckpointed ["d/f", "d/g"]].foldl step
        ⟨nestedWorkspace, []⟩).workspace.changes.2 =
      ([.replace "d/g" [], .remove "d/f", .changes, .markCheckpointed ["d/f", "d/g"]].foldl step
        ⟨nestedWorkspace, []⟩).workspace.state.fullDifference := by
  refine (changes_eq_fullDifference nestedBaseline_canonical nestedLoad_eq
    [.replace "d/g" [], .remove "d/f", .changes, .markCheckpointed ["d/f", "d/g"]]
    ⟨⟨trivial, trivial⟩, ⟨trivial, ?_⟩, ⟨trivial, trivial⟩, ⟨?_, ?_⟩, trivial⟩).1
  · simp only [KeepsJournal]
    decide +kernel
  · simp only [InScope]
    decide +kernel
  · simp only [KeepsJournal]
    decide +kernel

end TestVectors
end Workspace
