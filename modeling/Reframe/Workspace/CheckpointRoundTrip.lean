import Reframe.Workspace.SessionInvariant

/-! Checkpoint round trips: what a session holds when it commits every change is what a new
session loads from the same sources and that checkpoint. -/
namespace Workspace
open NormalizedPath ResidentState

section

/-- A manifest record as a later session stores it. -/
def backing (backingStore : String) (r : FileRecord) : FileRecord :=
  if r.source = .blob then { r with source := .backingBlob ⟨backingStore, r.hash⟩ } else r

theorem backingRecord_eq {root : String} {r : FileRecord}
    (h : r.source = .tombstone ∨ r.source = .directory ∨ r.source = .blob) :
    backingRecord root r = .ok (backing root r) := by
  unfold backingRecord backing
  rcases h with h | h | h <;> simp [h]

theorem mapM_backingRecord {root : String} {entries : List FileRecord}
    (h : ∀ r ∈ entries, r.source = .tombstone ∨ r.source = .directory ∨ r.source = .blob) :
    entries.mapM (backingRecord root) = .ok (entries.map (backing root)) := by
  induction entries with
  | nil => rfl
  | cons r rest ih =>
    rw [List.mapM_cons, backingRecord_eq (h r List.mem_cons_self),
      ih fun r' hr' => h r' (List.mem_cons_of_mem _ hr')]
    rfl

theorem buildBaseline_append {scratch : String → Bool} {sources : List MemorySource}
    (last : MemorySource) : ∀ {start base : Baseline},
      buildBaseline scratch sources start = .ok base →
      buildBaseline scratch (sources ++ [last]) start = buildBaseline scratch [last] base := by
  induction sources with
  | nil =>
    intro start base h
    cases h
    rfl
  | cons source rest ih =>
    intro start base h
    obtain ⟨records, hr, h⟩ := Run.bind_eq_ok.mp h
    simp only [List.cons_append, buildBaseline, hr, bind, Except.bind]
    exact ih h

theorem recordView_backing (root : String) (r : FileRecord) :
    recordView (some (backing root r)) = recordView (some r) := by
  unfold backing
  split
  next h => rw [recordView_eq_some (by simp), recordView_eq_some (by simp [h])]; simp [h]
  next h => rfl

/-- The baseline of a new session over the same sources and a manifest. -/
theorem buildBaseline_checkpoint {scratch : String → Bool} {sources : List MemorySource}
    {base : Baseline} (hbase : buildBaseline scratch sources ∅ = .ok base) (manifest : Baseline)
    (root : String)
    (hpath : ∀ p r, manifest.get? p = some r → r.path = p ∧ scratch p.asStr = false ∧
      (r.source = .tombstone ∨ r.source = .directory ∨ r.source = .blob)) :
    ∃ next, buildBaseline scratch
        (sources ++ [.checkpoint root (recordsInOrder manifest)]) ∅ = .ok next ∧
      ∀ p, next.get? p = ((manifest.get? p).map (backing root)).or (base.get? p) := by
  have hentries : ∀ r ∈ recordsInOrder manifest, manifest.get? r.path = some r ∧
      scratch r.path.asStr = false ∧
      (r.source = .tombstone ∨ r.source = .directory ∨ r.source = .blob) := by
    intro r hr
    obtain ⟨p, hp⟩ := mem_recordsInOrder.mp hr
    obtain ⟨h₁, h₂, h₃⟩ := hpath p r hp
    exact ⟨h₁.symm ▸ hp, h₁.symm ▸ h₂, h₃⟩
  have hfilter : (recordsInOrder manifest).filter (fun r => !scratch r.path.asStr) =
      recordsInOrder manifest :=
    List.filter_eq_self.mpr fun r hr => by simp [(hentries r hr).2.1]
  have hbacking : ∀ r, (backing root r).path = r.path := by
    intro r
    unfold backing
    split <;> rfl
  refine ⟨base.extend (((recordsInOrder manifest).map (backing root)).map
    fun r => (r.path, r)), ?_, fun p => ?_⟩
  · rw [buildBaseline_append _ hbase]
    simp only [buildBaseline, sourceRecords, hfilter,
      mapM_backingRecord fun r hr => (hentries r hr).2.2, bind, Except.bind]
  · cases hp : manifest.get? p with
    | none =>
      rw [Option.map_none, Option.none_or]
      apply FiniteMap.get?_extend_of_notMem
      intro e he
      simp only [List.mem_map] at he
      obtain ⟨_, ⟨r, hr, rfl⟩, rfl⟩ := he
      rintro rfl
      rw [hbacking, (hentries r hr).1] at hp
      cases hp
    | some r =>
      rw [Option.map_some, Option.some_or]
      have hmem := mem_recordsInOrder.mpr ⟨p, hp⟩
      apply FiniteMap.get?_extend_of_mem
      · simp only [List.mem_map]
        exact ⟨backing root r, ⟨r, hmem, rfl⟩, by rw [hbacking, (hpath p r hp).1]⟩
      · intro e he hep
        simp only [List.mem_map] at he
        obtain ⟨_, ⟨r', hr', rfl⟩, rfl⟩ := he
        have hr'' := (hentries r' hr').1
        rw [← hbacking r', show (backing root r').path = p from hep, hp] at hr''
        rw [Option.some.inj hr'']

variable [Blake3] {contents : Set (List UInt8)}

theorem Readable.extend {content : ContentSource} {blobs blobs' : BlobStore} {r : FileRecord}
    (h : Readable contents (withBlobs content blobs) r) (hext : Extends blobs blobs') :
    Readable contents (withBlobs content blobs') r := by
  obtain ⟨hprep, bytes, hb, hread, hhash⟩ := h
  refine ⟨hprep, bytes, hb, ?_, hhash⟩
  unfold readRecord at hread ⊢
  split at hread
  · simp only [withBlobs, if_true] at hread ⊢
    exact hext _ _ hread
  · simp only [withBlobs] at hread ⊢
    split at hread
    · rw [if_pos ‹_›]
      exact hext _ _ hread
    · rw [if_neg ‹_›]
      exact hread
  · exact hread
  · cases hread

/-- A tree whose baseline describes it everywhere is the tree that its records load. -/
theorem sameTree_of_settled {s loaded : ResidentState} {records : Baseline}
    (hfree : CollisionFree contents) (hshape : Shaped s)
    (hknown : ∀ p f, s.fileAt p = some f → f.bytes ∈ contents)
    (hloaded : LoadedState records loaded)
    (hloadedKnown : ∀ p f, loaded.fileAt p = some f → f.bytes ∈ contents)
    (hlive : ∀ p r, records.get? p = some r → r.source ≠ .tombstone)
    (hlive' : ∀ p r, s.baseline.get? p = some r → r.source ≠ .tombstone)
    (hdirHash : ∀ p r, records.get? p = some r → r.source = .directory → r.hash = "")
    (hview : ∀ p, recordView (records.get? p) = recordView (s.baseline.get? p))
    (hindex : s.baselineDirectories = baselineDirectories s.baseline)
    (hsettled : ∀ p, s.changeFor p = none) : SameTree s loaded := by
  -- the records agree with the resident baseline, which describes the tree
  have hrecord : ∀ p r, records.get? p = some r → ∃ r', s.baseline.get? p = some r' ∧
      r'.hash = r.hash ∧ (r'.source = .directory ↔ r.source = .directory) := by
    intro p r hp
    have hv := hview p
    rw [hp, recordView_eq_some (hlive p r hp)] at hv
    obtain ⟨r', hr', -, hh, hd⟩ := recordView_some hv.symm
    exact ⟨r', hr', hh, by simpa using hd⟩
  have hback : ∀ p r', s.baseline.get? p = some r' → ∃ r, records.get? p = some r ∧
      r'.hash = r.hash ∧ (r'.source = .directory ↔ r.source = .directory) := by
    intro p r' hp
    have hv := hview p
    rw [hp, recordView_eq_some (hlive' p r' hp)] at hv
    obtain ⟨r, hr, -, hh, hd⟩ := recordView_some hv
    exact ⟨r, hr, hh.symm, by have := hd.symm; simpa using this⟩
  have hfile : ∀ p f, s.fileAt p = some f → ∃ r, records.get? p = some r ∧
      r.source ≠ .directory ∧ r.hash = hexHash f.bytes := by
    intro p f hf
    have hs := hsettled p
    simp only [ResidentState.changeFor, changeOf, hf, Option.map_eq_none_iff] at hs
    split at hs
    · cases hs
    next r' hr' =>
      split at hs
      · cases hs
      next hh =>
        simp only [ResidentFile.hashText_eq, ne_eq, not_not] at hh
        obtain ⟨r, hr, hhash, -⟩ := hback p r' hr'
        refine ⟨r, hr, fun hdir => ?_, by rw [← hhash, hh]⟩
        exact hexHash_ne_empty f.bytes (by rw [← hh, hhash, hdirHash p r hr hdir])
  have hdirectory : ∀ p, s.fileAt p = none → ∀ r, records.get? p = some r →
      p ∈ s.directories ∧ r.source = .directory := by
    intro p hf r hr
    obtain ⟨r', hr', -, hdir⟩ := hrecord p r hr
    have hs := hsettled p
    simp only [ResidentState.changeFor, changeOf, hf, hr'] at hs
    by_cases hd : p ∈ s.directories
    · refine ⟨hd, hdir.mp ?_⟩
      by_contra hn
      simp [hd, hn] at hs
    · simp [hd] at hs
  refine ⟨fun p => ?_, ?_⟩
  · cases hf : s.fileAt p with
    | some f =>
      obtain ⟨r, hr, hdir, hhash⟩ := hfile p f hf
      obtain ⟨id, hid⟩ := Option.isSome_iff_exists.mp (hloaded.files p r hr hdir)
      obtain ⟨-, r', hr', -, hhash'⟩ := hloaded.linkedFrom.content p id hid
      rw [hr] at hr'
      cases hr'
      have hat : loaded.fileAt p = some (loaded.heap id) := by simp [fileAt, hid]
      have hbytes := hfree.eq (hloadedKnown p _ hat) (hknown p f hf) (hhash'.symm.trans hhash)
      simp [hat, hbytes]
    | none =>
      cases hl : loaded.files.get? p with
      | none => simp [fileAt, hl]
      | some id =>
        obtain ⟨-, r, hr, hdir, -⟩ := hloaded.linkedFrom.content p id hl
        exact absurd (hdirectory p hf r hr).2 hdir
  · rw [hloaded.directories]
    ext d
    constructor
    · intro hd
      obtain ⟨p, r, hr, hp⟩ := mem_baselineDirectories.mp hd
      have hresident : (s.fileAt p).isSome ∨ p ∈ s.directories := by
        cases hf : s.fileAt p with
        | some f => exact .inl rfl
        | none => exact .inr (hdirectory p hf r hr).1
      rcases hp with hbelow | ⟨rfl, hdir⟩
      · exact hshape.parents p d hresident hbelow
      · cases hf : s.fileAt p with
        | none => exact (hdirectory p hf r hr).1
        | some f =>
          obtain ⟨r', hr', hnot, -⟩ := hfile p f hf
          rw [hr] at hr'
          cases hr'
          exact absurd hdir hnot
    · intro hd
      have hf : s.fileAt d = none := by
        by_contra hf
        exact hshape.disjoint d (Option.isSome_iff_ne_none.mpr hf) hd
      rw [baselineDirectories_congr hlive hlive' hview, ← hindex]
      have hs := hsettled d
      simp only [ResidentState.changeFor, changeOf, hf, hd, decide_true, if_true,
        Option.map_eq_none_iff] at hs
      split at hs
      next r' hr' =>
        rw [hindex]
        refine mem_baselineDirectories.mpr ⟨d, r', hr', .inr ⟨rfl, ?_⟩⟩
        by_contra hn
        simp [hn] at hs
      next =>
        by_contra hn
        simp [hn] at hs

omit [Blake3] in
theorem parseAll_mem : ∀ {paths : List String} {ps : List NormalizedPath},
    Session.parseAll paths = .ok ps → ∀ p : NormalizedPath, p.asStr ∈ paths → p ∈ ps := by
  intro paths
  induction paths with
  | nil => intro ps _ p hp; cases hp
  | cons path rest ih =>
    intro ps h p hp
    obtain ⟨q, hq, h⟩ := Run.bind_eq_ok.mp h
    obtain ⟨qs, hqs, h⟩ := Run.bind_eq_ok.mp h
    cases h
    rcases List.mem_cons.mp hp with rfl | hp
    · simp only [parseStr_asStr, Except.mapError, Except.ok.injEq] at hq
      exact hq ▸ List.mem_cons_self
    · exact List.mem_cons_of_mem _ (ih hqs p hp)

omit [Blake3] in
/-- A request that covers the journal selects every change. -/
theorem selection_covers {changes : List Change} {includes : List String} {all : Bool}
    {selected : List NormalizedPath} (h : Session.selection changes includes all = .ok selected)
    (hcover : all = true ∨ ∀ change ∈ changes, change.path ∈ includes) {p : NormalizedPath}
    (hp : p.asStr ∈ changes.map Change.path) : p ∈ selected := by
  unfold Session.selection at h
  split at h
  · cases h
  · obtain ⟨ps, hps, h⟩ := Run.bind_eq_ok.mp h
    cases h
    rw [SortedSet.mem_toSorted, List.mem_toFinset]
    refine parseAll_mem hps p ?_
    split
    · exact hp
    next hall =>
      obtain ⟨change, hc, he⟩ := List.mem_map.mp hp
      exact he ▸ (hcover.resolve_left hall) change hc

/-- The session as it is created: its baseline is the merged sources. -/
def SessionSources.start (src : SessionSources contents) (workspace : ResidentWorkspace) : Session :=
  ⟨workspace, src.base, ∅, src.blobs⟩

theorem SessionSources.start_inv (src : SessionSources contents)
    {cached : (hash : String) → Option {blob : SoundBlob // blob.1.hashHex = hash}}
    {ws : ResidentWorkspace}
    (hcreate : createSession src.scratch src.sources (withBlobs src.content src.blobs) cached =
      .ok ws) : SessionInv src (src.start ws) := by
  have hload : loadCached (withBlobs src.content src.blobs) cached src.base src.scratch =
      .ok ws := by
    simp only [createSession, src.built, Except.mapError, bind, Except.bind] at hcreate
    split at hcreate
    · cases hcreate
    · cases hcreate
      assumption
  obtain ⟨hloaded, hscratch⟩ := loadCached_spec src.canonical hload
  refine ⟨hloaded.journalInv, hscratch, fun p r hp => ?_, fun p => ?_, fun p r hp => ?_, src.known,
    fun _ _ hget => hget⟩
  · change ws.state.baseline.get? p = some r at hp
    rw [hloaded.baseline] at hp
    exact (get?_withoutTombstones.mp hp).2
  · change recordView (ws.state.baseline.get? p) = _
    rw [hloaded.baseline, recordView_withoutTombstones]
    rfl
  · cases hp

/-- After a commit that covers the journal nothing differs from the baseline. -/
theorem settled_of_covering {src : SessionSources contents} {session session' : Session}
    (hinv : SessionInv src session') {selected : List NormalizedPath}
    (hj : session.workspace.state.JournalInv)
    (hcp : Checkpointed session.workspace.changes.1.state session'.workspace.state selected)
    (hall : ∀ p : NormalizedPath, p.asStr ∈ session.workspace.changes.2.map Change.path →
      p ∈ selected) (p : NormalizedPath) : session'.workspace.state.changeFor p = none := by
  refine (hinv.journal.settled p fun hd => ?_).1
  obtain ⟨hdirty, hnot⟩ := (hcp.dirty p).mp hd
  obtain ⟨change, hc⟩ := Option.isSome_iff_exists.mp (mem_dirty_collectChanges hdirty)
  refine hnot (hall p (List.mem_map.mpr ⟨change, ?_, JournaledWorkspace.changeFor_path hc⟩))
  change change ∈ session.workspace.state.collectChanges.2
  rw [hj.collectChanges.2, fullDifference, List.mem_filterMap]
  refine ⟨p, SortedSet.mem_toSorted.mpr ?_, hc⟩
  exact changeFor_isSome_mem (by rw [hc]; rfl)

/-- A new session over the same sources and the committed manifest holds the same tree. -/
theorem SessionInv.reload {src : SessionSources contents} {session session' : Session}
    (hinv : SessionInv src session')
    {cached : (hash : String) → Option {blob : SoundBlob // blob.1.hashHex = hash}}
    (hcached : ∀ hash blob, cached hash = some blob → blob.1.1.bytes ∈ contents)
    (htree : SameTree session.workspace.state session'.workspace.state)
    (hshape : Shaped session.workspace.state)
    (hknown : ∀ p f, session.workspace.state.fileAt p = some f → f.bytes ∈ contents)
    (hsettled : ∀ p, session'.workspace.state.changeFor p = none) :
    ∃ ws', createSession src.scratch (src.sources ++
        [.checkpoint src.content.storeRoot (recordsInOrder session'.manifest)])
        (withBlobs src.content session'.blobs) cached = .ok ws' ∧
      SameTree session.workspace.state ws'.state := by
  obtain ⟨next, hnext, hget⟩ := buildBaseline_checkpoint src.built session'.manifest
    src.content.storeRoot fun p r hp => by
      obtain ⟨h₁, h₂, h₃⟩ := hinv.manifest p r hp
      exact ⟨h₁, h₂, h₃.imp_right fun h => h.imp And.left And.left⟩
  -- every record of the new baseline is a manifest record or a source record
  have hcase : ∀ p r, next.get? p = some r →
      (∃ r₀, session'.manifest.get? p = some r₀ ∧ r = backing src.content.storeRoot r₀) ∨
        src.base.get? p = some r := by
    intro p r hp
    rw [hget] at hp
    cases hm : session'.manifest.get? p with
    | none => rw [hm] at hp; exact .inr hp
    | some r₀ => rw [hm] at hp; cases hp; exact .inl ⟨r₀, rfl, rfl⟩
  have hcanon : CanonicalRecords next := by
    intro p r hp
    rcases hcase p r hp with ⟨r₀, hr₀, rfl⟩ | hbase
    · obtain ⟨h₁, -, h₃⟩ := hinv.manifest p r₀ hr₀
      rcases h₃ with h₃ | ⟨h₃, hh⟩ | ⟨h₃, bytes, -, -, hh⟩
      · simp [CanonicalRecord, backing, h₃, h₁]
      · simp [CanonicalRecord, backing, h₃, h₁, hh]
      · simp only [backing, h₃, if_true]
        exact ⟨h₁, fun hd => (by cases hd), fun _ _ => ⟨Blake3.hash bytes, hh⟩⟩
    · exact src.canonical p r hbase
  have hread : ∀ p r, (withoutTombstones next).get? p = some r → r.source ≠ .directory →
      Readable contents (withBlobs src.content session'.blobs) r := by
    intro p r hp hdir
    obtain ⟨hp, htomb⟩ := get?_withoutTombstones.mp hp
    rcases hcase p r hp with ⟨r₀, hr₀, rfl⟩ | hbase
    · obtain ⟨-, -, h₃⟩ := hinv.manifest p r₀ hr₀
      rcases h₃ with h₃ | ⟨h₃, -⟩ | ⟨h₃, bytes, hb, hstored, hh⟩
      · simp [backing, h₃] at htomb
      · simp [backing, h₃] at hdir
      · refine ⟨by simp [backing, h₃, prepareRecordLoad, Except.isOk, Except.toBool], bytes, hb, ?_, ?_⟩
        · simp [backing, h₃, readRecord, withBlobs, hstored]
        · simp [backing, h₃, hh]
    · exact (src.readable p r (get?_withoutTombstones.mpr ⟨hbase, htomb⟩) hdir).extend hinv.extends_
  obtain ⟨ws', hload, hbytes⟩ := loadCached_ok hcached src.scratch hread
  refine ⟨ws', by simp [createSession, hnext, hload, Except.mapError, bind, Except.bind],
    htree.trans ?_⟩
  have hknown' : ∀ p f, session'.workspace.state.fileAt p = some f → f.bytes ∈ contents := by
    intro p f hf
    have hb := htree.files p
    rw [hf, Option.map_some] at hb
    obtain ⟨f₀, hf₀, he⟩ := Option.map_eq_some_iff.mp hb.symm
    exact he ▸ hknown p f₀ hf₀
  refine sameTree_of_settled src.free (hshape.congr htree) hknown' (loadCached_spec hcanon hload).1
    hbytes (fun p r hp => (get?_withoutTombstones.mp hp).2) hinv.live
    (fun p r hp => (hcanon p r (get?_withoutTombstones.mp hp).1).2.1) (fun p => ?_)
    hinv.journal.index hsettled
  rw [recordView_withoutTombstones, hinv.agree, hget, layered]
  cases hm : session'.manifest.get? p with
  | none => rfl
  | some r => exact recordView_backing _ r

/-- Along every admissible run, committing all journaled changes and creating a session from the
same sources followed by the manifest gives back the tree that was committed. -/
theorem checkpoint_round_trip (src : SessionSources contents)
    {cached cached' : (hash : String) → Option {blob : SoundBlob // blob.1.hashHex = hash}}
    (hcached : ∀ hash blob, cached' hash = some blob → blob.1.1.bytes ∈ contents)
    {ws : ResidentWorkspace}
    (hcreate : createSession src.scratch src.sources (withBlobs src.content src.blobs) cached =
      .ok ws)
    (ops : List SessionOp)
    (hops : Run.Along (Admissible contents) Session.step (src.start ws) ops)
    {session : Session} (hsession : session = ops.foldl Session.step (src.start ws))
    {includes : List String} {all : Bool}
    (hadm : Admissible contents session (.commit includes all))
    (hcover : all = true ∨ ∀ change ∈ session.workspace.changes.2, change.path ∈ includes)
    (hcommit : (session.commitCheckpoint includes all).2 = .ok ()) :
    ∃ ws', createSession src.scratch (src.sources ++ [.checkpoint src.content.storeRoot
          (recordsInOrder (session.commitCheckpoint includes all).1.manifest)])
        (withBlobs src.content (session.commitCheckpoint includes all).1.blobs) cached' = .ok ws' ∧
      SameTree session.workspace.state ws'.state := by
  have hinv : SessionInv src session := by
    rw [hsession]
    exact Run.foldl_invariant (fun s op hop h => SessionInv.step hop h) ops _ hops
      (src.start_inv hcreate)
  rw [commitCheckpoint_fst]
  cases hok : session.journaled.checkpointResident session.workspace.changes.2 includes all with
  | error e =>
    rw [commitCheckpoint_snd, hok] at hcommit
    cases hcommit
  | ok session' =>
    obtain ⟨hinv', selected, hsel, hcp⟩ := hinv.checkpoint hadm hok
    have htree : SameTree session.workspace.state session'.workspace.state :=
      (sameTree_collectEvaluated _ _).trans ⟨hcp.fileAt, hcp.directories⟩
    exact hinv'.reload hcached htree hadm.1 hadm.2.1
      (settled_of_covering hinv' hinv.journal hcp fun p hp => selection_covers hsel hcover hp)

end

namespace TestVectors

def vectorContents : Set (List UInt8) := fun bytes => bytes = [] ∨ bytes = [0]

theorem vectorContents_free : CollisionFree vectorContents := by
  rintro a (rfl | rfl) b (rfl | rfl) h
  · rfl
  · exact absurd (congrArg Subtype.val h) (by decide)
  · exact absurd (congrArg Subtype.val h) (by decide)
  · rfl

def nestedSession : SessionSources vectorContents where
  sources := nestedSources
  scratch := fun _ => false
  content := nestedContent
  base := nestedBase
  blobs := ∅
  free := vectorContents_free
  built := rfl
  known _ _ h := by cases h
  canonical := nestedBase_canonical
  readable p r h _ := by
    obtain ⟨rfl, rfl⟩ := nestedBase_get? (get?_withoutTombstones.mp h).1
    exact ⟨rfl, [], .inl rfl, rfl, rfl⟩

/-- The workspace a successful creation gives. -/
def workspaceOf (created : Except CreateError ResidentWorkspace) : ResidentWorkspace :=
  match created with
  | .ok ws => ws
  | .error _ => ⟨emptyState ∅ ∅, fun _ => false, 0, 0⟩

theorem eq_ok_workspaceOf {created : Except CreateError ResidentWorkspace}
    (h : created.isOk = true) : created = .ok (workspaceOf created) := by
  cases created with
  | ok ws => rfl
  | error e => cases h

/-- A session over the sources and the checkpoints that `session` has committed. -/
def nestedResume (session : Session) : Except CreateError ResidentWorkspace :=
  createSession (fun _ => false)
    (nestedSources ++ [.checkpoint "store" (recordsInOrder session.manifest)])
    (withBlobs nestedContent session.blobs) fun _ => none

def nestedStart : Session :=
  nestedSession.start (workspaceOf (createSession (fun _ => false) nestedSources
    (withBlobs nestedContent ∅) fun _ => none))

/-- The session that deletes `d/f` and commits everything still holds the directory `d`; the
session created from its checkpoint does not. -/
theorem checkpoint_loses_emptied_directory :
    (createSession (fun _ => false) nestedSources (withBlobs nestedContent ∅) fun _ => none) =
        .ok nestedStart.workspace ∧
      ((nestedStart.step (.operate (.remove "d/f"))).commitCheckpoint [] true).2.isOk = true ∧
      nestedDirectory ∈ (nestedStart.step (.operate (.remove "d/f"))).workspace.state.directories ∧
      ∃ ws', nestedResume ((nestedStart.step (.operate (.remove "d/f"))).commitCheckpoint
          [] true).1 = .ok ws' ∧ nestedDirectory ∉ ws'.state.directories :=
  ⟨eq_ok_workspaceOf (by decide +kernel), by decide +kernel, by decide +kernel,
    workspaceOf (nestedResume ((nestedStart.step (.operate (.remove "d/f"))).commitCheckpoint
      [] true).1), eq_ok_workspaceOf (by decide +kernel), by decide +kernel⟩

theorem eq_ok_unit {ε : Type} {result : Except ε Unit} (h : result.isOk = true) :
    result = .ok () := by
  cases result with
  | ok u => rfl
  | error e => cases h

/-- With a second file in `d`, deleting `d/f` and committing everything round-trips. -/
theorem checkpoint_round_trip_with_sibling :
    ∃ ws', nestedResume ((nestedStart.step (.operate (.replace "d/g" [0]))).step
        (.operate (.remove "d/f")) |>.commitCheckpoint [] true).1 = .ok ws' ∧
      SameTree ((nestedStart.step (.operate (.replace "d/g" [0]))).step
        (.operate (.remove "d/f"))).workspace.state ws'.state := by
  refine checkpoint_round_trip nestedSession (fun _ _ h => by cases h)
    (eq_ok_workspaceOf (by decide +kernel))
    [.operate (.replace "d/g" [0]), .operate (.remove "d/f")]
    ⟨⟨by simp, trivial⟩, ⟨by simp, ?_⟩, trivial⟩ rfl ⟨by decide +kernel, ?_, ?_⟩ (.inl rfl)
    (eq_ok_unit (by decide +kernel))
  · simp only [JournaledWorkspace.KeepsJournal]
    decide +kernel
  · have hfiles : ∀ e ∈ ((nestedStart.step (.operate (.replace "d/g" [0]))).step
        (.operate (.remove "d/f"))).workspace.state.files.toList,
        (((nestedStart.step (.operate (.replace "d/g" [0]))).step
          (.operate (.remove "d/f"))).workspace.state.heap e.2).bytes = [] ∨
        (((nestedStart.step (.operate (.replace "d/g" [0]))).step
          (.operate (.remove "d/f"))).workspace.state.heap e.2).bytes = [0] := by
      decide +kernel
    intro p f hf
    obtain ⟨id, hid, rfl⟩ := Option.map_eq_some_iff.mp hf
    exact hfiles (p, id) (FiniteMap.mem_toList.mpr hid)
  · decide +kernel

end TestVectors
end Workspace
