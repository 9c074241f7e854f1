import Reframe.Workspace.Daemon
import Reframe.Workspace.SessionInvariant

/-! Which paths the daemon reports as deleted: along every run, restarts included, a removal in
the journal or in the head manifest is of a path that an operation of the session removed, exactly
as long as no scan of the worktree meets a live record whose file is merely not projected. -/
namespace Workspace
open NormalizedPath ResidentState

section

variable [Blake3]

namespace ResidentState

/-- The paths of the tree, files and directories. -/
def paths (s : ResidentState) : Finset NormalizedPath := s.files.keys ∪ s.directories

theorem mem_paths {s : ResidentState} {p : NormalizedPath} :
    p ∈ s.paths ↔ (s.fileAt p).isSome ∨ p ∈ s.directories := by
  simp [paths, fileAt, FiniteMap.mem_keys]

end ResidentState

/-- Every record of the resident baseline is resident itself or of a removed path. -/
def RecordsAccounted (removed : Finset NormalizedPath) (s : ResidentState) : Prop :=
  ∀ p r, s.baseline.get? p = some r → p ∈ s.paths ∨ p ∈ removed

/-- A daemon with every path an operation of the session has removed so far. -/
structure TracedDaemon where
  daemon : Daemon
  removed : Finset NormalizedPath

namespace TracedDaemon

/-- The paths of the resident tree, if there is one. -/
def residentPaths (d : Daemon) : Finset NormalizedPath :=
  (d.resident.map fun ws => ws.state.paths).getD ∅

def step (t : TracedDaemon) (event : DaemonEvent) : TracedDaemon where
  daemon := t.daemon.step event
  removed := match event with
    | .operate _ => t.removed ∪ (residentPaths t.daemon \ residentPaths (t.daemon.step event))
    | _ => t.removed

/-- Every journaled delete and every tombstone of the head manifest is of a removed path. -/
structure RemovalsJustified (t : TracedDaemon) : Prop where
  journal : ∀ change ∈ t.daemon.rows.journal, change.kind = .delete →
    ∃ p ∈ t.removed, change.path = p.asStr
  manifest : ∀ p r, t.daemon.rows.manifest.get? p = some r → r.source = .tombstone →
    p ∈ t.removed

/-- A request that scans the worktree comes when every live record without a path on disk is of
a removed path. -/
def KeepsRemovals (t : TracedDaemon) : DaemonEvent → Prop
  | .getWorkspaceStatus | .getChangeJournal => t.daemon.resident.isNone →
      ∀ p ∈ (withoutTombstones t.daemon.rows.baseline).keys,
        t.daemon.worktree.pathExists p = false → p ∈ t.removed
  | _ => True

instance (t : TracedDaemon) : ∀ event, Decidable (t.KeepsRemovals event)
  | .getWorkspaceStatus | .getChangeJournal =>
    inferInstanceAs (Decidable (t.daemon.resident.isNone → ∀ p ∈ _, _ → p ∈ t.removed))
  | .commitCheckpoint _ _ | .mount _ _ _ | .unmount _ | .applyPolicy _ | .closeWorkspace
  | .operate _ | .restart => isTrue trivial

/-- Journal rows and records are stored under their own paths, and a record whose path is not
resident is of a removed path. -/
structure Inv (t : TracedDaemon) : Prop where
  justified : t.RemovalsJustified
  rows : ∀ change ∈ t.daemon.rows.journal, ∃ p : NormalizedPath, change.path = p.asStr
  canonical : CanonicalRecords t.daemon.rows.baseline
  manifest : CanonicalRecords t.daemon.rows.manifest
  resident : ∀ ws ∈ t.daemon.resident, RecordsAccounted t.removed ws.state

end TracedDaemon

/-! The journal. -/

theorem changeFor_delete {s : ResidentState} {p : NormalizedPath} {change : Change}
    (h : s.changeFor p = some change) (hk : change.kind = .delete) :
    p ∉ s.paths ∧ ∃ r, s.baseline.get? p = some r := by
  obtain ⟨hf, hd⟩ := (changeFor_kind h).mp hk
  constructor
  · simp [mem_paths, hf, hd]
  · unfold ResidentState.changeFor changeOf at h
    simp only [hf, hd, decide_false] at h
    split at h
    · contradiction
    · split at h
      next hr => exact Option.isSome_iff_exists.mp hr
      next => cases h

theorem mem_collectEvaluated {change : Change} (evaluated : List (NormalizedPath × Option Change)) :
    ∀ s : ResidentState, change ∈ (s.collectEvaluated evaluated).2 →
      ∃ p, (p, some change) ∈ evaluated := by
  induction evaluated with
  | nil => intro s h; cases h
  | cons e rest ih =>
    intro s h
    obtain ⟨p, _ | c⟩ := e
    · obtain ⟨q, hq⟩ := ih (s.settle p) h
      exact ⟨q, List.mem_cons_of_mem _ hq⟩
    · rcases List.mem_cons.mp h with rfl | h
      · exact ⟨p, List.mem_cons_self⟩
      · obtain ⟨q, hq⟩ := ih s h
        exact ⟨q, List.mem_cons_of_mem _ hq⟩

theorem mem_collectChanges {s : ResidentState} {change : Change}
    (h : change ∈ s.collectChanges.2) : ∃ p, s.changeFor p = some change := by
  obtain ⟨p, hp⟩ := mem_collectEvaluated _ s h
  obtain ⟨q, -, hq⟩ := List.mem_map.mp hp
  exact ⟨q, (Prod.mk.inj hq).2⟩

theorem SameTree.paths {s s' : ResidentState} (h : SameTree s s') : s'.paths = s.paths := by
  ext p
  rw [mem_paths, mem_paths, h.isSome, h.directories]

omit [Blake3] in
theorem mapM_journalRow {changes : List Change}
    (h : ∀ change ∈ changes, ∃ p : NormalizedPath, change.path = p.asStr) :
    changes.mapM SessionRows.journalRow = .ok changes := by
  induction changes with
  | nil => rfl
  | cons change rest ih =>
    obtain ⟨p, hp⟩ := h change List.mem_cons_self
    have hrow : SessionRows.journalRow change = .ok change := by
      obtain ⟨path, kind, size⟩ := change
      change path = p.asStr at hp
      subst hp
      simp [SessionRows.journalRow, parseStr_asStr, Except.mapError, bind, Except.bind]
    rw [List.mapM_cons, hrow, ih fun c hc => h c (List.mem_cons_of_mem _ hc)]
    rfl

omit [Blake3] in
theorem readJournal_eq {rows : SessionRows}
    (h : ∀ change ∈ rows.journal, ∃ p : NormalizedPath, change.path = p.asStr) :
    rows.readJournal = .ok (rows.journal.insertionSort SessionRows.byPath) :=
  mapM_journalRow fun change hc => h change ((List.mem_insertionSort _).mp hc)

omit [Blake3] in
theorem parseAll_map_asStr (paths : List NormalizedPath) :
    Session.parseAll (paths.map asStr) = .ok paths := by
  induction paths with
  | nil => rfl
  | cons p rest ih =>
    simp [Session.parseAll, parseStr_asStr, Except.mapError, bind, Except.bind, ih]

/-! A scan of the worktree. -/

omit [Blake3] in
theorem scannedWrite_some {baseline : Baseline} {record : FileRecord} {change : Change}
    (h : SessionRows.scannedWrite baseline record = some change) :
    change.path = record.path.asStr ∧ change.kind ≠ .delete := by
  unfold SessionRows.scannedWrite at h
  split at h
  · cases h
    simp
  · split at h <;> cases h
    simp

omit [Blake3] in
theorem scannedDelete_some {baseline current : Baseline} {knownDeleted : List NormalizedPath}
    {worktree : Worktree} {p : NormalizedPath} {change : Change} :
    SessionRows.scannedDelete baseline current knownDeleted worktree p = some change ↔
      p ∈ (withoutTombstones baseline).keys ∧ current.contains p = false ∧
        (p ∈ knownDeleted ∨ worktree.pathExists p = false) ∧ ⟨p.asStr, .delete, none⟩ = change := by
  rw [FiniteMap.mem_keys_iff]
  simp only [get?_withoutTombstones]
  unfold SessionRows.scannedDelete
  cases hp : baseline.get? p with
  | none => simp
  | some old => simp [and_assoc]

theorem contains_scanned {rows : SessionRows} {worktree : Worktree} {p : NormalizedPath}
    (h : (rows.scanned worktree).contains p = true) : worktree.pathExists p = true := by
  obtain ⟨r, hr⟩ := FiniteMap.contains_iff.mp h
  rcases FiniteMap.get?_extend_some hr with hr | hr
  · obtain ⟨record, hmem, he⟩ := List.mem_map.mp hr
    obtain ⟨q, -, hq⟩ := List.mem_filterMap.mp (List.mem_of_mem_filter hmem)
    split at hq
    · cases hq
    · obtain ⟨bytes, hbytes, rfl⟩ := Option.map_eq_some_iff.mp hq
      cases he
      rw [Worktree.pathExists, FiniteMap.contains_iff.mpr ⟨bytes, hbytes⟩, Bool.true_or]
  · cases hr

/-- A scan succeeds on rows stored under their own paths. It reports a live record as deleted
when no file was scanned for it and it was deleted before or nothing is on disk. -/
theorem scanChanges_spec {rows : SessionRows} (worktree : Worktree)
    (hrows : ∀ change ∈ rows.journal, ∃ p : NormalizedPath, change.path = p.asStr) :
    ∃ changes, rows.scanChanges worktree = .ok ({ rows with journal := changes }, changes) ∧
      (∀ change ∈ changes, ∃ p : NormalizedPath, change.path = p.asStr) ∧
      ∀ change, change ∈ changes ∧ change.kind = .delete ↔
        ∃ p ∈ (withoutTombstones rows.baseline).keys,
          (rows.scanned worktree).contains p = false ∧
          ((∃ c ∈ rows.journal, c.kind = .delete ∧ c.path = p.asStr) ∨
            worktree.pathExists p = false) ∧
          ⟨p.asStr, .delete, none⟩ = change := by
  obtain ⟨known, hknown⟩ : ∃ known : List NormalizedPath,
      ((rows.journal.insertionSort SessionRows.byPath).filter
        fun change => change.kind = .delete).map Change.path = known.map asStr := by
    have hpaths : ∀ changes : List Change,
        (∀ change ∈ changes, ∃ p : NormalizedPath, change.path = p.asStr) →
        ∃ known : List NormalizedPath, changes.map Change.path = known.map asStr := by
      intro changes
      induction changes with
      | nil => intro _; exact ⟨[], rfl⟩
      | cons change rest ih =>
        intro h
        obtain ⟨p, hp⟩ := h change List.mem_cons_self
        obtain ⟨known, hk⟩ := ih fun c hc => h c (List.mem_cons_of_mem _ hc)
        exact ⟨p :: known, by simp [hp, hk]⟩
    apply hpaths
    intro change hc
    exact hrows change ((List.mem_insertionSort _).mp (List.mem_of_mem_filter hc))
  have hmem : ∀ p, p ∈ known ↔ ∃ c ∈ rows.journal, c.kind = .delete ∧ c.path = p.asStr := by
    intro p
    rw [← List.mem_map_of_injective asStr_injective, ← hknown]
    simp [and_assoc]
  refine ⟨rows.scannedChanges worktree known, ?_, ?_, ?_⟩
  · simp only [SessionRows.scanChanges, readJournal_eq hrows, hknown, parseAll_map_asStr, bind,
      Except.bind]
  · intro change hc
    rw [SessionRows.scannedChanges, List.mem_insertionSort, List.mem_append, List.mem_filterMap, List.mem_filterMap] at hc
    rcases hc with ⟨p, -, hc⟩ | ⟨p, -, hc⟩
    · obtain ⟨record, -, hc⟩ := Option.bind_eq_some_iff.mp hc
      exact ⟨record.path, (scannedWrite_some hc).1⟩
    · obtain ⟨-, -, -, rfl⟩ := scannedDelete_some.mp hc
      exact ⟨p, rfl⟩
  · intro change
    rw [SessionRows.scannedChanges, List.mem_insertionSort, List.mem_append, List.mem_filterMap, List.mem_filterMap]
    constructor
    · rintro ⟨⟨p, -, hc⟩ | ⟨p, -, hc⟩, hk⟩
      · obtain ⟨record, -, hc⟩ := Option.bind_eq_some_iff.mp hc
        exact absurd hk (scannedWrite_some hc).2
      · obtain ⟨hlive, hcur, hgone, rfl⟩ := scannedDelete_some.mp hc
        exact ⟨p, hlive, hcur, by rwa [← hmem], rfl⟩
    · rintro ⟨p, hlive, hcur, hgone, rfl⟩
      rw [← hmem] at hgone
      refine ⟨.inr ⟨p, ?_, scannedDelete_some.mpr ⟨hlive, hcur, hgone, rfl⟩⟩, rfl⟩
      obtain ⟨r, hr⟩ := FiniteMap.mem_keys_iff.mp hlive
      exact SortedSet.mem_toSorted.mpr
        (FiniteMap.mem_keys_iff.mpr ⟨r, (get?_withoutTombstones.mp hr).1⟩)

/-! A commit. -/

/-- A reader retains files as blobs under their own path and digest. -/
def Session.Reader.RetainsBlobs (reader : Session.Reader) : Prop :=
  ∀ p blobs r blobs', reader.persistFile p blobs = .ok (r, blobs') →
    r.source = .blob ∧ CanonicalRecord p r

theorem residentReader_retainsBlobs (s : ResidentState) :
    (Session.residentReader s).RetainsBlobs := by
  intro p blobs r blobs' h
  change Session.persistFile s p blobs = _ at h
  unfold Session.persistFile at h
  split at h
  · cases h
  · obtain ⟨⟨blob, file⟩, -, h⟩ := Run.bind_eq_ok.mp h
    cases h
    exact ⟨rfl, rfl, by simp, fun _ _ => ⟨blob.digest, rfl⟩⟩

theorem worktreeReader_retainsBlobs (worktree : Worktree) : worktree.reader.RetainsBlobs := by
  intro p blobs r blobs' h
  simp only [Worktree.reader] at h
  split at h <;> cases h
  exact ⟨rfl, rfl, by simp, fun _ _ => ⟨_, rfl⟩⟩

theorem retainedRecord_canonical {reader : Session.Reader} (hreader : reader.RetainsBlobs)
    {p : NormalizedPath} {kind : ChangeKind} {blobs : BlobStore} {out : FileRecord × BlobStore}
    (h : Session.retainedRecord reader p kind blobs = .ok out) :
    CanonicalRecord p out.1 ∧ (out.1.source = .tombstone → kind = .delete) := by
  have hlive : ∀ {blobs}, (if reader.isDirectory p then
      .ok (⟨p, "", 0, .directory⟩, blobs) else reader.persistFile p blobs) = .ok out →
      CanonicalRecord p out.1 ∧ out.1.source ≠ .tombstone := by
    intro blobs h
    split at h
    · cases h
      exact ⟨⟨rfl, fun _ => rfl, by simp⟩, by simp⟩
    · obtain ⟨hs, hp⟩ := hreader p blobs out.1 out.2 h
      exact ⟨hp, by simp [hs]⟩
  cases kind with
  | delete =>
    cases h
    exact ⟨⟨rfl, by simp, by simp⟩, fun _ => rfl⟩
  | create => exact ⟨(hlive h).1, fun ht => absurd ht (hlive h).2⟩
  | write => exact ⟨(hlive h).1, fun ht => absurd ht (hlive h).2⟩

/-- What a commit retains was retained before or is the record of a change. -/
theorem applySelectedChanges_some {reader : Session.Reader} (hreader : reader.RetainsBlobs)
    {selected : List NormalizedPath} :
    ∀ (changes : List Change) (before : Baseline × BlobStore) {after : Baseline × BlobStore},
      Session.applySelectedChanges reader selected changes before = .ok after →
      ∀ p r, after.1.get? p = some r → before.1.get? p = some r ∨
        CanonicalRecord p r ∧ (r.source = .tombstone →
          ∃ change ∈ changes, change.kind = .delete ∧ parseStr change.path = .ok p) := by
  intro changes
  induction changes with
  | nil =>
    intro before after h p r hp
    cases h
    exact .inl hp
  | cons change rest ih =>
    intro before after h p r hp
    obtain ⟨q, hq, h⟩ := Run.bind_eq_ok.mp h
    have hparse : parseStr change.path = .ok q := by
      cases hc : parseStr change.path <;> rw [hc] at hq <;> cases hq
      rfl
    have hlift : (∃ c ∈ rest, c.kind = .delete ∧ parseStr c.path = .ok p) →
        ∃ c ∈ change :: rest, c.kind = .delete ∧ parseStr c.path = .ok p :=
      fun ⟨c, hc, hk⟩ => ⟨c, List.mem_cons_of_mem _ hc, hk⟩
    split at h
    · obtain ⟨⟨record, blobs⟩, hr, h⟩ := Run.bind_eq_ok.mp h
      rcases ih _ h p r hp with hp | ⟨hpath, hdel⟩
      · rw [FiniteMap.get?_insert] at hp
        split at hp
        next heq =>
          cases hp
          obtain ⟨hpath, hdel⟩ := retainedRecord_canonical hreader hr
          subst heq
          exact .inr ⟨hpath, fun ht => ⟨change, List.mem_cons_self, hdel ht, hparse⟩⟩
        next => exact .inl hp
      · exact .inr ⟨hpath, fun ht => hlift (hdel ht)⟩
    · rcases ih _ h p r hp with hp | ⟨hpath, hdel⟩
      · exact .inl hp
      · exact .inr ⟨hpath, fun ht => hlift (hdel ht)⟩

omit [Blake3] in
theorem updateBaseline_some {retained : Baseline} {selected : List NormalizedPath} :
    ∀ {baseline : Baseline} {p : NormalizedPath} {r : FileRecord},
      (Session.updateBaseline baseline retained selected).get? p = some r →
      baseline.get? p = some r ∨ retained.get? p = some r := by
  induction selected with
  | nil => intro baseline p r h; exact .inl h
  | cons q rest ih =>
    intro baseline p r h
    rcases ih h with h | h
    · cases hq : retained.get? q with
      | some record =>
        simp only [hq, FiniteMap.get?_insert] at h
        split at h
        next heq => exact .inr (by rw [heq, hq, h])
        next => exact .inl h
      | none =>
        simp only [hq] at h
        exact .inl (FiniteMap.get?_erase_some h).2
    · exact .inr h

/-- The rows after a commit: fewer journal rows, and tombstones only for journaled deletes. -/
theorem checkpoint_ok {rows rows' : SessionRows} {reader : Session.Reader}
    (hreader : reader.RetainsBlobs)
    (hrows : ∀ change ∈ rows.journal, ∃ p : NormalizedPath, change.path = p.asStr)
    (hmanifest : CanonicalRecords rows.manifest) (hbaseline : CanonicalRecords rows.baseline)
    {includes : List String} {all : Bool} {result : CheckpointResult}
    (h : rows.checkpoint reader includes all = .ok (rows', result)) :
    (∀ change ∈ rows'.journal, change ∈ rows.journal) ∧ CanonicalRecords rows'.manifest ∧
      CanonicalRecords rows'.baseline ∧
      (∀ p r, rows'.manifest.get? p = some r → r.source = .tombstone →
        rows.manifest.get? p = some r ∨
          ∃ change ∈ rows.journal, change.kind = .delete ∧ change.path = p.asStr) ∧
      ∃ selected : List NormalizedPath, result.retainedPaths = selected.map asStr := by
  unfold SessionRows.checkpoint at h
  obtain ⟨changes, hjournal, h⟩ := Run.bind_eq_ok.mp h
  obtain ⟨⟨selected, retained, blobs⟩, hread, h⟩ := Run.bind_eq_ok.mp h
  rw [readJournal_eq hrows] at hjournal
  cases hjournal
  obtain ⟨-, -, happly⟩ := checkpointWithReader_ok hread
  cases h
  have hsome := applySelectedChanges_some hreader _ _ happly
  have hcanon : CanonicalRecords retained := fun p r hp => by
    rcases hsome p r hp with hp | ⟨hpath, -⟩
    · exact hmanifest p r hp
    · exact hpath
  refine ⟨fun change hc => List.mem_of_mem_filter hc, hcanon, ?_, ?_, selected, rfl⟩
  · intro p r hp
    rcases updateBaseline_some hp with hp | hp
    · exact hbaseline p r hp
    · exact hcanon p r hp
  · intro p r hp ht
    rcases hsome p r hp with hp | ⟨-, hdel⟩
    · exact .inl hp
    · obtain ⟨change, hc, hk, hparse⟩ := hdel ht
      have hmem := (List.mem_insertionSort _).mp hc
      obtain ⟨q, hq⟩ := hrows change hmem
      rw [hq, parseStr_asStr] at hparse
      cases hparse
      exact .inr ⟨change, hmem, hk, hq⟩

/-! The invariant along a run. -/

theorem RecordsAccounted.checkpointPath {removed : Finset NormalizedPath} {s : ResidentState}
    (h : RecordsAccounted removed s) (path : NormalizedPath) :
    RecordsAccounted removed (s.checkpointPath path) ∧
      (s.checkpointPath path).paths = s.paths := by
  refine ⟨fun p r hp => ?_, rfl⟩
  change p ∈ s.paths ∨ p ∈ removed
  simp only [ResidentState.checkpointPath] at hp
  cases hrec : s.recordOf path with
  | some record =>
    rw [hrec] at hp
    simp only [FiniteMap.get?_insert] at hp
    split at hp
    next heq =>
      subst heq
      refine .inl (mem_paths.mpr ?_)
      unfold recordOf at hrec
      split at hrec
      next hf => exact .inl (by rw [hf]; rfl)
      next =>
        split at hrec
        next hd => exact .inr hd
        next => cases hrec
    next => exact h p r hp
  | none =>
    rw [hrec] at hp
    exact h p r (FiniteMap.get?_erase_some hp).2

theorem RecordsAccounted.checkpointPaths {removed : Finset NormalizedPath} (paths : List String) :
    ∀ {s : ResidentState}, RecordsAccounted removed s →
      RecordsAccounted removed (s.checkpointPaths paths).1 ∧
        (s.checkpointPaths paths).1.paths = s.paths := by
  induction paths with
  | nil => intro s h; exact ⟨h, rfl⟩
  | cons path rest ih =>
    intro s h
    unfold ResidentState.checkpointPaths
    split
    next q _ =>
      obtain ⟨h₁, h₂⟩ := h.checkpointPath q
      obtain ⟨h₃, h₄⟩ := ih h₁
      exact ⟨h₃, h₄.trans h₂⟩
    next => exact ⟨h, rfl⟩

theorem RecordsAccounted.markCheckpointed {removed : Finset NormalizedPath}
    {ws : ResidentWorkspace} (h : RecordsAccounted removed ws.state) (paths : List String) :
    RecordsAccounted removed (ws.markCheckpointed paths).1.state := by
  obtain ⟨hacc, -⟩ := h.checkpointPaths paths
  unfold ResidentWorkspace.markCheckpointed
  split
  next state heq =>
    rw [heq] at hacc
    exact hacc
  next state e heq =>
    rw [heq] at hacc
    exact hacc

theorem RecordsAccounted.changes {removed : Finset NormalizedPath} {ws : ResidentWorkspace}
    (h : RecordsAccounted removed ws.state) :
    RecordsAccounted removed ws.changes.1.state ∧
      ∀ change ∈ ws.changes.2, ∃ p : NormalizedPath, change.path = p.asStr ∧
        (change.kind = .delete → p ∈ removed) := by
  constructor
  · intro p r hp
    have hpaths : ws.changes.1.state.paths = ws.state.paths :=
      (sameTree_collectEvaluated _ ws.state).paths
    have hbase : ws.changes.1.state.baseline = ws.state.baseline :=
      SameBase.collectEvaluated _ ws.state
    rw [hpaths]
    exact h p r (hbase ▸ hp)
  · intro change hc
    obtain ⟨p, hp⟩ := mem_collectChanges hc
    refine ⟨p, JournaledWorkspace.changeFor_path hp, fun hk => ?_⟩
    obtain ⟨hgone, r, hr⟩ := changeFor_delete hp hk
    exact (h p r hr).resolve_left hgone

/-- An operation that takes a recorded path off the tree removes it. -/
theorem RecordsAccounted.operate {removed : Finset NormalizedPath} {ws : ResidentWorkspace}
    (h : RecordsAccounted removed ws.state) (op : ResidentOp) :
    RecordsAccounted (removed ∪ (ws.state.paths \
        (JournaledWorkspace.step ⟨ws, []⟩ op).workspace.state.paths))
      (JournaledWorkspace.step ⟨ws, []⟩ op).workspace.state := by
  intro p r hp
  have hbefore : p ∈ ws.state.paths ∨ p ∈ removed ∨
      p ∈ (JournaledWorkspace.step ⟨ws, []⟩ op).workspace.state.paths := by
    by_cases hop : ∃ paths, op = .markCheckpointed paths
    · obtain ⟨paths, rfl⟩ := hop
      have hacc := h.markCheckpointed paths p r hp
      exact .inr hacc.symm
    · have hbase := SameBase.step op (fun paths he => hop ⟨paths, he⟩) ws []
      rw [hbase.1] at hp
      exact (h p r hp).imp_right .inl
  rw [Finset.mem_union, Finset.mem_sdiff]
  tauto

theorem LoadedState.recordsAccounted {records : Baseline} {s : ResidentState}
    (h : LoadedState records s) (removed : Finset NormalizedPath) : RecordsAccounted removed s := by
  intro p r hp
  rw [h.baseline] at hp
  refine .inl (mem_paths.mpr ?_)
  by_cases hd : r.source = .directory
  · right
    rw [h.directories]
    exact mem_baselineDirectories.mpr ⟨p, r, hp, .inr ⟨rfl, hd⟩⟩
  · left
    have hfile := h.files p r hp hd
    simpa [fileAt] using hfile

namespace TracedDaemon

variable {t : TracedDaemon}

/-- Reading the resident journal into the rows keeps everything justified. -/
theorem Inv.syncResidentJournal (h : t.Inv) :
    Inv ⟨t.daemon.syncResidentJournal, t.removed⟩ := by
  unfold Daemon.syncResidentJournal
  cases hres : t.daemon.resident with
  | none => exact h
  | some ws =>
    obtain ⟨hacc, hchanges⟩ := (h.resident ws hres).changes
    exact
      { justified :=
          { journal := fun change hc hk => by
              obtain ⟨p, hp, hdel⟩ := hchanges change hc
              exact ⟨p, hdel hk, hp⟩
            manifest := h.justified.manifest }
        rows := fun change hc => by
          obtain ⟨p, hp, -⟩ := hchanges change hc
          exact ⟨p, hp⟩
        canonical := h.canonical
        manifest := h.manifest
        resident := fun ws' hws' => by
          cases hws'
          exact hacc }

theorem isNone_syncResidentJournal (d : Daemon) :
    d.syncResidentJournal.resident.isNone = d.resident.isNone := by
  unfold Daemon.syncResidentJournal
  cases hres : d.resident <;> simp [hres]

/-- A status request without a resident workspace keeps the removals justified exactly when
every live record that is not on disk is of a removed path. -/
theorem Inv.status (h : t.Inv) :
    let t' : TracedDaemon := ⟨{ t.daemon with rows :=
      (t.daemon.rows.status t.daemon.worktree true).1 }, t.removed⟩
    (t'.RemovalsJustified ↔ ∀ p ∈ (withoutTombstones t.daemon.rows.baseline).keys,
      t.daemon.worktree.pathExists p = false → p ∈ t.removed) ∧
    (t'.RemovalsJustified → t'.Inv) := by
  obtain ⟨changes, hscan, hrows, hdeletes⟩ := scanChanges_spec t.daemon.worktree h.rows
  have hstatus : (t.daemon.rows.status t.daemon.worktree true).1 =
      { t.daemon.rows with journal := changes } := by
    simp [SessionRows.status, hscan]
  rw [hstatus]
  refine ⟨⟨fun hj p hlive hgone => ?_, fun hcond => ⟨fun change hc hk => ?_, ?_⟩⟩, fun hj => ?_⟩
  · have hcur : (t.daemon.rows.scanned t.daemon.worktree).contains p = false := by
      by_contra hcur
      rw [contains_scanned (Bool.eq_true_of_not_eq_false hcur)] at hgone
      cases hgone
    obtain ⟨hc, hk⟩ := (hdeletes _).mpr ⟨p, hlive, hcur, .inr hgone, rfl⟩
    obtain ⟨q, hq, heq⟩ := hj.journal _ hc hk
    rwa [asStr_injective heq]
  · obtain ⟨p, hlive, -, hgone, rfl⟩ := (hdeletes change).mp ⟨hc, hk⟩
    rcases hgone with ⟨c, hc', hk', hpath⟩ | hgone
    · obtain ⟨q, hq, heq⟩ := h.justified.journal c hc' hk'
      exact ⟨q, hq, hpath.symm.trans heq⟩
    · exact ⟨p, hcond p hlive hgone, rfl⟩
  · exact h.justified.manifest
  · exact ⟨hj, hrows, h.canonical, h.manifest, h.resident⟩

theorem Inv.commit (h : t.Inv) {rows : SessionRows} {result : CheckpointResult}
    {reader : Session.Reader} (hreader : reader.RetainsBlobs) {includes : List String}
    {all : Bool} (hok : t.daemon.rows.checkpoint reader includes all = .ok (rows, result))
    {resident : Option ResidentWorkspace}
    (hresident : ∀ ws ∈ resident, RecordsAccounted t.removed ws.state) :
    Inv ⟨{ t.daemon with rows, resident }, t.removed⟩ := by
  obtain ⟨hjournal, hmanifest, hbaseline, htomb, -⟩ :=
    checkpoint_ok hreader h.rows h.manifest h.canonical hok
  exact
    { justified :=
        { journal := fun change hc => h.justified.journal change (hjournal change hc)
          manifest := fun p r hp ht => by
            rcases htomb p r hp ht with hp | ⟨change, hc, hk, hpath⟩
            · exact h.justified.manifest p r hp ht
            · obtain ⟨q, hq, heq⟩ := h.justified.journal change hc hk
              rwa [asStr_injective (hpath.symm.trans heq)] }
      rows := fun change hc => h.rows change (hjournal change hc)
      canonical := hbaseline
      manifest := hmanifest
      resident := hresident }

theorem Inv.commitCheckpoint (h : t.Inv) (includes : List String) (all : Bool) :
    Inv ⟨(t.daemon.commitCheckpoint includes all).1, t.removed⟩ := by
  unfold Daemon.commitCheckpoint
  split
  · exact h
  split
  · exact h
  have hsync := h.syncResidentJournal
  dsimp only
  split
  next ws hres =>
    split
    next rows result hok =>
      refine hsync.commit (residentReader_retainsBlobs ws.state) hok fun ws' hws' => ?_
      cases hws'
      exact (hsync.resident ws hres).markCheckpointed _
    next => exact hsync
  next hres =>
    split
    next rows result hok =>
      exact hsync.commit (worktreeReader_retainsBlobs _) hok hsync.resident
    next => exact hsync

theorem Inv.mount (h : t.Inv) (content : ContentSource) (cached : Daemon.ContentCache)
    (started : Bool) : Inv ⟨t.daemon.mount content cached started, t.removed⟩ := by
  unfold Daemon.mount
  split
  · exact h
  split
  next hres => exact ⟨⟨h.justified.journal, h.justified.manifest⟩, h.rows, h.canonical,
    h.manifest, h.resident⟩
  next =>
    split
    next ws hload =>
      refine ⟨⟨h.justified.journal, h.justified.manifest⟩, h.rows, h.canonical, h.manifest,
        fun ws' hws' => ?_⟩
      cases hws'
      exact (loadCached_spec h.canonical hload).1.recordsAccounted _
    next => exact h

theorem Inv.operate (h : t.Inv) (op : ResidentOp) : (t.step (.operate op)).Inv := by
  have hmono : ∀ {p}, p ∈ t.removed → p ∈ (t.step (.operate op)).removed := fun hp =>
    Finset.mem_union_left _ hp
  have hrows : (t.step (.operate op)).daemon.rows = t.daemon.rows := by
    change (t.daemon.operate op).rows = _
    unfold Daemon.operate
    split <;> rfl
  refine ⟨⟨fun change hc hk => ?_, fun p r hp ht => ?_⟩, ?_, ?_, ?_, fun ws' hws' => ?_⟩
  · rw [hrows] at hc
    obtain ⟨p, hp, heq⟩ := h.justified.journal change hc hk
    exact ⟨p, hmono hp, heq⟩
  · rw [hrows] at hp
    exact hmono (h.justified.manifest p r hp ht)
  · rw [hrows]
    exact h.rows
  · rw [hrows]
    exact h.canonical
  · rw [hrows]
    exact h.manifest
  · by_cases hm : t.daemon.mounted = true
    · cases hres : t.daemon.resident with
      | none =>
        simp [step, Daemon.step, Daemon.operate, hm, hres] at hws'
      | some ws =>
        simp only [step, Daemon.step, Daemon.operate, hm, if_true, hres, Option.map_some,
          Option.mem_def, Option.some.injEq] at hws'
        subst hws'
        have hacc := (h.resident ws hres).operate op
        simp only [step, residentPaths, Daemon.step, Daemon.operate, hm, if_true, hres,
          Option.map_some, Option.getD_some]
        exact hacc
    · have hsame : (t.step (.operate op)).daemon = t.daemon := by
        simp [step, Daemon.step, Daemon.operate, hm]
      rw [hsame] at hws'
      intro p r hp
      exact (h.resident ws' hws' p r hp).imp_right hmono

/-- One event: the removals stay justified exactly when the event keeps them, and then the
invariant does too. -/
theorem Inv.step_iff (h : t.Inv) (event : DaemonEvent) :
    ((t.step event).RemovalsJustified ↔ t.KeepsRemovals event) ∧
      (t.KeepsRemovals event → (t.step event).Inv) := by
  have hkept : (t.step event).Inv → t.KeepsRemovals event →
      ((t.step event).RemovalsJustified ↔ t.KeepsRemovals event) ∧
        (t.KeepsRemovals event → (t.step event).Inv) := fun hinv hk =>
    ⟨⟨fun _ => hk, fun _ => hinv.justified⟩, fun _ => hinv⟩
  -- the two requests that may scan
  have hscan : ∀ event, (t.step event).daemon = t.daemon.getChangeJournal.1 →
      (t.step event).removed = t.removed →
      (t.KeepsRemovals event ↔ (t.daemon.resident.isNone →
        ∀ p ∈ (withoutTombstones t.daemon.rows.baseline).keys,
          t.daemon.worktree.pathExists p = false → p ∈ t.removed)) →
      ((t.step event).RemovalsJustified ↔ t.KeepsRemovals event) ∧
        (t.KeepsRemovals event → (t.step event).Inv) := by
    intro event hd hr hk
    have heq : t.step event = ⟨t.daemon.getChangeJournal.1, t.removed⟩ := by
      rw [← hd, ← hr]
    rw [heq, hk]
    cases hres : t.daemon.resident with
    | none =>
      have hsync : t.daemon.syncResidentJournal = t.daemon := by
        simp [Daemon.syncResidentJournal, hres]
      have hstatus := h.status
      simp only [Daemon.getChangeJournal, hsync, hres, Option.isNone_none, true_imp_iff] at hstatus ⊢
      exact ⟨hstatus.1, fun hc => hstatus.2 (hstatus.1.mpr hc)⟩
    | some ws =>
      have hnone : t.daemon.syncResidentJournal.resident.isNone = false := by
        rw [isNone_syncResidentJournal, hres, Option.isNone_some]
      have hinv : Inv ⟨t.daemon.getChangeJournal.1, t.removed⟩ := by
        simp only [Daemon.getChangeJournal, hnone, SessionRows.status]
        exact h.syncResidentJournal
      simp only [Option.isNone_some, Bool.false_eq_true, false_imp_iff, iff_true]
      exact ⟨hinv.justified, fun _ => hinv⟩
  cases event with
  | getWorkspaceStatus => exact hscan _ rfl rfl Iff.rfl
  | getChangeJournal => exact hscan _ rfl rfl Iff.rfl
  | commitCheckpoint includes all => exact hkept (h.commitCheckpoint includes all) trivial
  | mount content cached started => exact hkept (h.mount content cached started) trivial
  | unmount stopped =>
    refine hkept ?_ trivial
    change Inv ⟨t.daemon.unmount stopped, t.removed⟩
    unfold Daemon.unmount
    split
    · have hsync := h.syncResidentJournal
      exact ⟨⟨hsync.justified.journal, hsync.justified.manifest⟩, hsync.rows, hsync.canonical,
        hsync.manifest, hsync.resident⟩
    · exact h
  | applyPolicy scratch =>
    refine hkept ?_ trivial
    change Inv ⟨t.daemon.applyPolicy scratch, t.removed⟩
    unfold Daemon.applyPolicy
    split
    · exact h
    · refine ⟨⟨h.justified.journal, h.justified.manifest⟩, h.rows, h.canonical, h.manifest,
        fun ws' hws' => ?_⟩
      obtain ⟨ws, hws, rfl⟩ := Option.map_eq_some_iff.mp hws'
      exact h.resident ws hws
  | closeWorkspace =>
    refine hkept ?_ trivial
    change Inv ⟨t.daemon.closeWorkspace, t.removed⟩
    unfold Daemon.closeWorkspace
    split
    · exact h
    · exact ⟨⟨h.justified.journal, h.justified.manifest⟩, h.rows, h.canonical, h.manifest,
        fun _ hws => by cases hws⟩
  | operate op => exact hkept (h.operate op) trivial
  | restart =>
    exact hkept ⟨⟨h.justified.journal, h.justified.manifest⟩, h.rows, h.canonical, h.manifest,
      fun _ hws => by cases hws⟩ trivial

end TracedDaemon

/-- Along every run of a session, restarts included, each journaled delete and each checkpoint
tombstone is of a path that an operation of the session removed, if and only if every status or
journal request that finds no resident workspace comes when each live baseline path missing from
the worktree has been removed. -/
theorem removals_justified_iff {scratch : String → Bool} {sources : List MemorySource}
    {content : ContentSource} {cached : Daemon.ContentCache} {blobs : BlobStore}
    {worktree : Worktree} {d : Daemon}
    (hcreate : Daemon.createWorkspace scratch sources content cached blobs worktree = .ok d)
    (hcanon : CanonicalRecords d.rows.baseline) (events : List DaemonEvent) :
    Run.Along (fun t event => (t.step event).RemovalsJustified) TracedDaemon.step ⟨d, ∅⟩ events ↔
      Run.Along TracedDaemon.KeepsRemovals TracedDaemon.step ⟨d, ∅⟩ events := by
  have hstart : TracedDaemon.Inv ⟨d, ∅⟩ := by
    obtain ⟨baseline, -, hd⟩ := Run.bind_eq_ok.mp hcreate
    cases hd
    refine ⟨⟨by simp, by simp⟩, by simp, hcanon, fun p r hp => (by cases hp), fun ws hws => ?_⟩
    cases hload : loadCached (withBlobs content blobs) cached baseline scratch with
    | error e => simp [hload, Except.toOption] at hws
    | ok ws' =>
      simp only [hload, Except.toOption, Option.mem_def, Option.some.injEq] at hws
      subst hws
      exact (loadCached_spec hcanon hload).1.recordsAccounted ∅
  have hiff : ∀ t event, TracedDaemon.Inv t →
      ((t.step event).RemovalsJustified ↔ t.KeepsRemovals event) :=
    fun t event h => (h.step_iff event).1
  have hstep : ∀ t event, TracedDaemon.KeepsRemovals t event → t.Inv → (t.step event).Inv :=
    fun t event hk h => (h.step_iff event).2 hk
  exact Run.along_congr hiff hstep events ⟨d, ∅⟩ hstart

end

namespace TestVectors

/-- The rows and the resident workspace of a new session over `nestedSources`. -/
def nestedDaemon : Daemon where
  rows := ⟨true, fun _ => false, nestedBase, [], ∅, ∅⟩
  worktree := .empty
  resident := (loadCached (withBlobs nestedContent ∅) (fun _ => none) nestedBase
    fun _ => false).toOption
  mounted := false

theorem createWorkspace_nested : Daemon.createWorkspace (fun _ => false) nestedSources
    nestedContent (fun _ => none) ∅ .empty = .ok nestedDaemon := rfl

/-- After a restart over the empty worktree, a status request and a commit delete `d/f` from the
head manifest, though no operation removed it. -/
theorem restart_deletes_unprojected_file :
    Daemon.createWorkspace (fun _ => false) nestedSources nestedContent (fun _ => none) ∅ .empty =
        .ok nestedDaemon ∧
      ([.restart, .getWorkspaceStatus].foldl TracedDaemon.step
        ⟨nestedDaemon, ∅⟩).daemon.rows.journal = [⟨"d/f", .delete, none⟩] ∧
      ([.restart, .getWorkspaceStatus, .commitCheckpoint [] true].foldl TracedDaemon.step
        ⟨nestedDaemon, ∅⟩).daemon.rows.manifest.get? nestedPath =
          some ⟨nestedPath, "", 0, .tombstone⟩ ∧
      ([.restart, .getWorkspaceStatus, .commitCheckpoint [] true].foldl TracedDaemon.step
        ⟨nestedDaemon, ∅⟩).removed = ∅ :=
  ⟨rfl, by decide +kernel, by decide +kernel, by decide +kernel⟩

/-- A session that removed `d/f` itself may be asked for its status after the restart. -/
theorem restart_keeps_removals :
    Run.Along (fun t event => (t.step event).RemovalsJustified) TracedDaemon.step
      ⟨nestedDaemon, ∅⟩
      [.mount nestedContent (fun _ => none) true, .operate (.remove "d/f"), .restart,
        .getWorkspaceStatus, .commitCheckpoint [] true] := by
  rw [removals_justified_iff createWorkspace_nested nestedBase_canonical]
  decide +kernel

end TestVectors
end Workspace
