import Reframe.Workspace.Checkpoint

/-! The session invariant: the resident baseline is the head manifest over the source layers, and
the blob store holds every content the manifest names. -/
namespace Workspace
open NormalizedPath ResidentState

section

variable [Blake3]

/-! Operations other than checkpoints leave the baseline alone. -/

/-- Same baseline and same scratch rules. -/
def SameBase (ws ws' : ResidentWorkspace) : Prop :=
  ws'.state.baseline = ws.state.baseline ∧ ws'.scratch = ws.scratch

namespace SameBase

variable {ws ws' : ResidentWorkspace}

theorem refl (ws : ResidentWorkspace) : SameBase ws ws := ⟨rfl, rfl⟩

theorem withStats {state : ResidentState} (h : state.baseline = ws.state.baseline)
    (stats : Option (ℕ × ℕ)) : SameBase ws (ws.withStats state stats) := by
  cases stats <;> exact ⟨h, rfl⟩

theorem after {result : Except WorkspaceError ResidentWorkspace}
    (h : ∀ ws', result = .ok ws' → SameBase ws ws') : SameBase ws (ws.after result) := by
  cases result with
  | ok ws' => exact h ws' rfl
  | error e => exact refl ws

theorem storeContent (path : NormalizedPath) (id : FileId) (change : ResidentFile × ℕ × ℕ) :
    SameBase ws (ws.storeContent path id change) := by
  unfold ResidentWorkspace.storeContent
  dsimp only
  split <;> exact ⟨rfl, rfl⟩

theorem storeOpen (pathHint : String) (id : FileId) (change : ResidentFile × ℕ × ℕ) :
    SameBase ws (ws.storeOpen pathHint id change) := by
  unfold ResidentWorkspace.storeOpen
  split
  · exact storeContent _ _ _
  · exact ⟨rfl, rfl⟩

theorem replace {path : String} {bytes : List UInt8} {kind : ChangeKind}
    (hop : ws.replace path bytes = .ok (ws', kind)) : SameBase ws ws' := by
  obtain ⟨p, -, hop⟩ := ResidentWorkspace.parse_bind (ResidentWorkspace.rejectScratch_bind hop)
  cases hop
  refine ⟨?_, rfl⟩
  change (ws.state.replaceFile p bytes).1.baseline = _
  cases hf : ws.state.files.get? p <;> simp only [replaceFile, hf] <;> rfl

theorem removePath (s : ResidentState) (path : NormalizedPath) :
    (s.removePath path).1.baseline = s.baseline := by
  cases hf : s.files.get? path with
  | some id => simp only [ResidentState.removePath, hf]; rfl
  | none =>
    by_cases hd : path ∈ s.directories
    · simp only [ResidentState.removePath, hf, hd, not_true, if_false]; rfl
    · simp only [ResidentState.removePath, hf, hd, not_false_eq_true, if_true]; rfl

theorem renamePath {s s' : ResidentState} {source destination : NormalizedPath}
    {stats : Option (ℕ × ℕ)} (h : s.renamePath source destination = .ok (s', stats)) :
    s'.baseline = s.baseline := by
  unfold ResidentState.renamePath at h
  split at h
  · cases h
  split at h
  · split at h <;> cases h
    rfl
  simp only at h
  split at h
  · split at h
    · cases h
      rfl
    · split at h <;> cases h
      rfl
  · split at h <;> cases h
    rfl

theorem collectEvaluated (evaluated : List (NormalizedPath × Option Change)) :
    ∀ s : ResidentState, (s.collectEvaluated evaluated).1.baseline = s.baseline := by
  induction evaluated with
  | nil => intro s; rfl
  | cons e rest ih =>
    intro s
    obtain ⟨p, _ | change⟩ := e
    · exact ih (s.settle p)
    · exact ih s

/-- Every operation but a checkpoint keeps the baseline. -/
theorem step (op : ResidentOp) (hop : ∀ paths, op ≠ .markCheckpointed paths) (ws : ResidentWorkspace)
    (reported : List Change) :
    SameBase ws (JournaledWorkspace.step ⟨ws, reported⟩ op).workspace := by
  cases op with
  | createDirectory path =>
    refine after fun ws' hr => ?_
    obtain ⟨p, -, hr⟩ := ResidentWorkspace.parse_bind (ResidentWorkspace.rejectScratch_bind hr)
    split at hr
    · cases hr
    · simp only at hr
      split at hr <;> cases hr <;> exact ⟨rfl, rfl⟩
  | replace path bytes =>
    refine after fun ws' hr => ?_
    obtain ⟨kind, hr⟩ := JournaledWorkspace.map_fst_eq_ok hr
    exact replace hr
  | write path offset data =>
    refine after fun ws' hr => ?_
    obtain ⟨kind, hr⟩ := JournaledWorkspace.map_fst_eq_ok hr
    obtain ⟨p, -, hr⟩ := ResidentWorkspace.parse_bind (ResidentWorkspace.rejectScratch_bind hr)
    split at hr
    · split at hr
      · exact replace hr
      · cases hr
    · obtain ⟨change, -, hr⟩ := Run.bind_eq_ok.mp hr
      cases hr
      exact storeContent _ _ _
  | resize path size =>
    refine after fun ws' hr => ?_
    obtain ⟨kind, hr⟩ := JournaledWorkspace.map_fst_eq_ok hr
    obtain ⟨p, -, hr⟩ := ResidentWorkspace.parse_bind (ResidentWorkspace.rejectScratch_bind hr)
    split at hr
    · exact replace hr
    · cases hr
      exact storeContent _ _ _
  | remove path =>
    refine after fun ws' hr => ?_
    unfold ResidentWorkspace.remove at hr
    split at hr
    · cases hr
      exact refl ws
    · obtain ⟨p, -, hr⟩ := ResidentWorkspace.parse_bind hr
      cases hr
      exact withStats (removePath ws.state p) _
  | rename source destination replace =>
    refine after fun ws' hr => ?_
    obtain ⟨outcome, hr⟩ := JournaledWorkspace.map_fst_eq_ok hr
    obtain ⟨s, -, hr⟩ := ResidentWorkspace.parse_bind (ResidentWorkspace.rejectScratch_bind
      (ResidentWorkspace.rejectScratch_bind hr))
    obtain ⟨d, -, hr⟩ := ResidentWorkspace.parse_bind hr
    simp only at hr
    split at hr
    · cases hr
    split at hr
    · cases hr
      exact refl ws
    split at hr
    · cases hr
    split at hr
    · cases hr
    split at hr
    · cases hr
    split at hr
    · cases hr
    obtain ⟨⟨state, stats⟩, hstate, hr⟩ := Run.bind_eq_ok.mp hr
    cases hr
    exact withStats (renamePath hstate) _
  | writeOpen pathHint id offset data =>
    refine after fun ws' hr => ?_
    obtain ⟨change, -, hr⟩ := Run.bind_eq_ok.mp hr
    cases hr
    exact storeOpen _ _ _
  | resizeOpen pathHint id size => exact storeOpen _ _ _
  | replaceOpen pathHint id bytes => exact storeOpen _ _ _
  | removeOpen pathHint id =>
    simp only [JournaledWorkspace.step, ResidentWorkspace.removeOpenFile]
    split
    · exact refl ws
    · exact withStats (removePath ws.state _) _
  | changes => exact ⟨collectEvaluated _ _, rfl⟩
  | markCheckpointed paths => exact absurd rfl (hop paths)

end SameBase

/-! Reading the journal before a commit. -/

theorem changeFor_collectEvaluated (evaluated : List (NormalizedPath × Option Change)) :
    ∀ (s : ResidentState) (p : NormalizedPath),
      (s.collectEvaluated evaluated).1.changeFor p = s.changeFor p := by
  induction evaluated with
  | nil => intro s p; rfl
  | cons e rest ih =>
    intro s p
    obtain ⟨q, _ | change⟩ := e
    · exact (ih (s.settle q) p).trans (changeFor_settle s q p)
    · exact ih s p

theorem mem_dirty_collectEvaluated (evaluated : List (NormalizedPath × Option Change)) :
    ∀ (s : ResidentState) (p : NormalizedPath),
      p ∈ (s.collectEvaluated evaluated).1.dirty ↔ p ∈ s.dirty ∧ (p, none) ∉ evaluated := by
  induction evaluated with
  | nil => intro s p; simp [collectEvaluated]
  | cons e rest ih =>
    intro s p
    obtain ⟨q, _ | change⟩ := e
    · simp only [collectEvaluated, ih, settle, Finset.mem_erase, List.mem_cons, Prod.mk.injEq,
        and_true, not_or]
      tauto
    · simp only [collectEvaluated, ih, List.mem_cons, Prod.mk.injEq, reduceCtorEq, and_false,
        false_or]

/-- What is left dirty after reading the journal is exactly what it reports. -/
theorem mem_dirty_collectChanges {s : ResidentState} {p : NormalizedPath}
    (h : p ∈ s.collectChanges.1.dirty) : (s.changeFor p).isSome := by
  have hd := (mem_dirty_collectEvaluated _ s p).mp h
  by_contra hc
  rw [Option.not_isSome_iff_eq_none] at hc
  refine hd.2 (List.mem_map.mpr ⟨p, SortedSet.mem_toSorted.mpr hd.1, ?_⟩)
  rw [hc]

/-- The same tree: the same files with the same bytes, and the same directories. -/
structure SameTree (s s' : ResidentState) : Prop where
  files : ∀ p, (s'.fileAt p).map ResidentFile.bytes = (s.fileAt p).map ResidentFile.bytes
  directories : s'.directories = s.directories

theorem SameTree.trans {s s' s'' : ResidentState} (h : SameTree s s') (h' : SameTree s' s'') :
    SameTree s s'' :=
  ⟨fun p => (h'.files p).trans (h.files p), h'.directories.trans h.directories⟩

theorem sameTree_collectEvaluated (evaluated : List (NormalizedPath × Option Change)) :
    ∀ s : ResidentState, SameTree s (s.collectEvaluated evaluated).1 := by
  induction evaluated with
  | nil => intro s; exact ⟨fun _ => rfl, rfl⟩
  | cons e rest ih =>
    intro s
    obtain ⟨q, _ | change⟩ := e
    · have hsettle : SameTree s (s.settle q) := by
        refine ⟨fun p => ?_, rfl⟩
        unfold fileAt
        cases hp : s.files.get? p <;> simp [settle, hp, bytes_cleanHeap]
      exact hsettle.trans (ih (s.settle q))
    · exact ih s

/-- A tree as a file system has it: no path is both a file and a directory, and whatever is
resident lies in resident directories. -/
structure Shaped (s : ResidentState) : Prop where
  disjoint : ∀ p, (s.fileAt p).isSome → p ∉ s.directories
  parents : ∀ p q, (s.fileAt p).isSome ∨ p ∈ s.directories → p.IsBelow q → q ∈ s.directories

theorem shaped_iff {s : ResidentState} : Shaped s ↔ (∀ p ∈ s.files.keys, p ∉ s.directories) ∧
    ∀ p ∈ s.files.keys ∪ s.directories, ∀ q ∈ p.parents, q ∈ s.directories := by
  have hfile : ∀ p, (s.fileAt p).isSome ↔ p ∈ s.files.keys := fun p => by
    rw [FiniteMap.mem_keys, fileAt, Option.isSome_map]
  constructor
  · intro h
    refine ⟨fun p hp => h.disjoint p ((hfile p).mpr hp), fun p hp q hq => ?_⟩
    rw [Finset.mem_union, ← hfile] at hp
    exact h.parents p q hp (mem_parents.mp hq)
  · rintro ⟨h₁, h₂⟩
    refine ⟨fun p hp => h₁ p ((hfile p).mp hp), fun p q hp hq => ?_⟩
    rw [hfile, ← Finset.mem_union] at hp
    exact h₂ p hp q (mem_parents.mpr hq)

instance (s : ResidentState) : Decidable (Shaped s) := decidable_of_iff' _ shaped_iff

theorem SameTree.isSome {s s' : ResidentState} (h : SameTree s s') (p : NormalizedPath) :
    (s'.fileAt p).isSome = (s.fileAt p).isSome := by
  have := congrArg Option.isSome (h.files p)
  simpa using this

theorem Shaped.congr {s s' : ResidentState} (hs : Shaped s) (h : SameTree s s') : Shaped s' := by
  refine ⟨fun p hp => ?_, fun p q hp hbelow => ?_⟩
  · rw [h.directories]
    exact hs.disjoint p (h.isSome p ▸ hp)
  · rw [h.directories] at hp ⊢
    exact hs.parents p q (h.isSome p ▸ hp) hbelow

/-! The records a commit retains. -/

variable {contents : Set (List UInt8)}

/-- Every blob is a known content under its own hash. -/
def KnownBlobs (contents : Set (List UInt8)) (blobs : BlobStore) : Prop :=
  ∀ hash bytes, blobs.get? hash = some bytes → bytes ∈ contents ∧ hash = hexHash bytes

/-- Nothing is lost from a blob store. -/
def Extends (blobs blobs' : BlobStore) : Prop :=
  ∀ hash bytes, blobs.get? hash = some bytes → blobs'.get? hash = some bytes

theorem CollisionFree.eq (h : CollisionFree contents) {a b : List UInt8} (ha : a ∈ contents)
    (hb : b ∈ contents) (he : hexHash a = hexHash b) : a = b :=
  h a ha b hb (hash_eq_of_hexHash_eq he)

theorem putBlob_spec (hfree : CollisionFree contents) {blobs : BlobStore}
    (h : KnownBlobs contents blobs) {bytes : List UInt8} (hb : bytes ∈ contents) :
    KnownBlobs contents (putBlob blobs (hexHash bytes) bytes) ∧
      Extends blobs (putBlob blobs (hexHash bytes) bytes) ∧
      (putBlob blobs (hexHash bytes) bytes).get? (hexHash bytes) = some bytes := by
  unfold putBlob
  split
  next hc =>
    obtain ⟨old, hold⟩ := FiniteMap.contains_iff.mp hc
    obtain ⟨hmem, hhash⟩ := h _ _ hold
    exact ⟨h, fun _ _ hget => hget, by rw [hold, hfree.eq hb hmem hhash]⟩
  next hc =>
    have hnone := FiniteMap.contains_eq_false.mp (Bool.not_eq_true _ ▸ hc)
    refine ⟨fun hash b hget => ?_, fun hash b hget => ?_, FiniteMap.get?_insert_self _ _ _⟩
    · rw [FiniteMap.get?_insert] at hget
      split at hget
      · cases hget
        exact ⟨hb, ‹_›⟩
      · exact h hash b hget
    · rw [FiniteMap.get?_insert_ne]
      · exact hget
      · rintro rfl
        rw [hnone] at hget
        cases hget

/-- The record keeps what is resident at the path, with its content in the blob store. -/
structure Retains (contents : Set (List UInt8)) (s : ResidentState) (blobs : BlobStore)
    (p : NormalizedPath) (r : FileRecord) : Prop where
  path : r.path = p
  view : recordView (some r) = recordView (s.recordOf p)
  source : r.source = .tombstone ∨ r.source = .directory ∧ r.hash = "" ∨ r.source = .blob ∧
    ∃ bytes ∈ contents, blobs.get? r.hash = some bytes ∧ r.hash = hexHash bytes

theorem Retains.extend {s : ResidentState} {blobs blobs' : BlobStore} {p : NormalizedPath}
    {r : FileRecord} (h : Retains contents s blobs p r) (hext : Extends blobs blobs') :
    Retains contents s blobs' p r where
  path := h.path
  view := h.view
  source := by
    rcases h.source with h | h | ⟨h, bytes, hb, hget, hhash⟩
    · exact .inl h
    · exact .inr (.inl h)
    · exact .inr (.inr ⟨h, bytes, hb, hext _ _ hget, hhash⟩)

theorem changeFor_kind {s : ResidentState} {p : NormalizedPath} {change : Change}
    (h : s.changeFor p = some change) :
    change.kind = .delete ↔ s.fileAt p = none ∧ p ∉ s.directories := by
  unfold ResidentState.changeFor changeOf at h
  cases hf : s.fileAt p with
  | some file =>
    simp only [hf] at h
    obtain ⟨kind, hk, rfl⟩ := Option.map_eq_some_iff.mp h
    split at hk
    · cases hk
      simp
    · split at hk <;> cases hk
      simp
  | none =>
    simp only [hf] at h
    by_cases hd : p ∈ s.directories
    · simp only [hd, decide_true, if_true] at h
      obtain ⟨kind, hk, rfl⟩ := Option.map_eq_some_iff.mp h
      split at hk <;> split at hk <;> cases hk <;> simp [hd]
    · simp only [hd, decide_false] at h
      split at h
      · contradiction
      · split at h <;> cases h
        simp [hd]

theorem retainedRecord_spec (hfree : CollisionFree contents) {s : ResidentState} (hs : Shaped s)
    (hknown : ∀ p f, s.fileAt p = some f → f.bytes ∈ contents) {p : NormalizedPath}
    {change : Change} (hc : s.changeFor p = some change) {blobs : BlobStore}
    (hblobs : KnownBlobs contents blobs) {r : FileRecord} {blobs' : BlobStore}
    (h : Session.retainedRecord (Session.residentReader s) p change.kind blobs = .ok (r, blobs')) :
    Retains contents s blobs' p r ∧ KnownBlobs contents blobs' ∧ Extends blobs blobs' := by
  have hkind := changeFor_kind hc
  by_cases hdel : change.kind = .delete
  · obtain ⟨hf, hd⟩ := hkind.mp hdel
    rw [hdel] at h
    cases h
    refine ⟨⟨rfl, ?_, .inl rfl⟩, hblobs, fun _ _ hget => hget⟩
    simp [recordOf, hf, hd, recordView]
  · have hretained : Session.retainedRecord (Session.residentReader s) p change.kind blobs =
        if p ∈ s.directories then .ok (⟨p, "", 0, .directory⟩, blobs)
        else Session.persistFile s p blobs := by
      cases hk : change.kind <;>
        simp_all [Session.retainedRecord, Session.residentReader]
    rw [hretained] at h
    split at h
    next hd =>
      cases h
      have hf : s.fileAt p = none := by
        by_contra hf
        exact hs.disjoint p (Option.isSome_iff_ne_none.mpr hf) hd
      refine ⟨⟨rfl, ?_, .inr (.inl ⟨rfl, rfl⟩)⟩, hblobs, fun _ _ hget => hget⟩
      simp [recordOf, hf, hd, recordView]
    next hd =>
      unfold Session.persistFile at h
      cases hf : s.fileAt p with
      | none => exact absurd (hkind.mpr ⟨hf, hd⟩) hdel
      | some f =>
        obtain ⟨f', hblob, -, -⟩ := f.verifiedBlob_spec
        simp only [hf, hblob, Except.mapError, bind, Except.bind, Except.ok.injEq,
          Prod.mk.injEq] at h
        obtain ⟨rfl, rfl⟩ := h
        obtain ⟨h₁, h₂, h₃⟩ := putBlob_spec hfree hblobs (hknown p f hf)
        refine ⟨⟨rfl, ?_, .inr (.inr ⟨rfl, f.bytes, hknown p f hf, h₃, rfl⟩)⟩, h₁, h₂⟩
        have hrecord : s.recordOf p = some ⟨p, hexHash f.bytes, f.len, .resident⟩ := by
          simp [recordOf, hf]
        rw [hrecord, recordView_eq_some (by simp), recordView_eq_some (by simp)]
        simp [VerifiedBlob.hashHex, VerifiedBlob.new, hexHash]

/-- Every selected change is retained, and nothing else of the manifest changes. -/
theorem applySelectedChanges_spec (hfree : CollisionFree contents) {s : ResidentState}
    (hs : Shaped s) (hknown : ∀ p f, s.fileAt p = some f → f.bytes ∈ contents)
    {selected : List NormalizedPath} :
    ∀ (changes : List Change) (retained : Baseline) (blobs : BlobStore)
      {out : Baseline × BlobStore},
      (∀ c ∈ changes, ∃ p, s.changeFor p = some c) → KnownBlobs contents blobs →
      Session.applySelectedChanges (Session.residentReader s) selected changes (retained, blobs) =
        .ok out →
      KnownBlobs contents out.2 ∧ Extends blobs out.2 ∧
        ∀ p, if p ∈ selected ∧ p.asStr ∈ changes.map Change.path then
            ∃ r, out.1.get? p = some r ∧ Retains contents s out.2 p r
          else out.1.get? p = retained.get? p := by
  intro changes
  induction changes with
  | nil =>
    intro retained blobs out _ hblobs h
    cases h
    exact ⟨hblobs, fun _ _ hget => hget, by simp⟩
  | cons change rest ih =>
    intro retained blobs out hchanges hblobs h
    obtain ⟨p, hp⟩ := hchanges change List.mem_cons_self
    have hpath := JournaledWorkspace.changeFor_path hp
    have hrest : ∀ c ∈ rest, ∃ p, s.changeFor p = some c := fun c hc =>
      hchanges c (List.mem_cons_of_mem _ hc)
    simp only [Session.applySelectedChanges, hpath, parseStr_asStr, Except.mapError, bind,
      Except.bind] at h
    have hother : ∀ q, q ≠ p → (q ∈ selected ∧ q.asStr ∈ (change :: rest).map Change.path ↔
        q ∈ selected ∧ q.asStr ∈ rest.map Change.path) := by
      intro q hq
      rw [List.map_cons, List.mem_cons, hpath, asStr_injective.eq_iff]
      tauto
    split at h
    next hsel =>
      cases hr : Session.retainedRecord (Session.residentReader s) p change.kind blobs with
      | error e => simp [hr] at h
      | ok r =>
        simp only [hr] at h
        obtain ⟨hret, hk₁, hext₁⟩ := retainedRecord_spec hfree hs hknown hp hblobs hr
        obtain ⟨hk₂, hext₂, hall⟩ := ih (retained.insert p r.1) r.2 hrest hk₁ h
        refine ⟨hk₂, fun _ _ hget => hext₂ _ _ (hext₁ _ _ hget), fun q => ?_⟩
        have hq := hall q
        by_cases hqp : q = p
        · subst hqp
          rw [if_pos ⟨hsel, by simp [hpath]⟩]
          split at hq
          · exact hq
          · exact ⟨r.1, by rw [hq, FiniteMap.get?_insert_self], hret.extend hext₂⟩
        · rw [FiniteMap.get?_insert_ne _ hqp] at hq
          simp only [hother q hqp]
          exact hq
    next hsel =>
      obtain ⟨hk, hext, hall⟩ := ih retained blobs hrest hblobs h
      refine ⟨hk, hext, fun q => ?_⟩
      have hq := hall q
      by_cases hqp : q = p
      · subst hqp
        simp only [hsel, false_and, if_false] at hq ⊢
        exact hq
      · simp only [hother q hqp]
        exact hq

/-! The session invariant. -/

/-- The sources of a session and everything they give, as the session was created. -/
structure SessionSources (contents : Set (List UInt8)) where
  sources : List MemorySource
  scratch : String → Bool
  content : ContentSource
  base : Baseline
  blobs : BlobStore
  free : CollisionFree contents
  built : buildBaseline scratch sources ∅ = .ok base
  known : KnownBlobs contents blobs
  canonical : CanonicalRecords base
  readable : ∀ p r, (withoutTombstones base).get? p = some r → r.source ≠ .directory →
    Readable contents (withBlobs content blobs) r

/-- The resident baseline is the manifest over the base layer, and the store has every blob the
manifest names. -/
structure SessionInv (src : SessionSources contents) (session : Session) : Prop where
  journal : session.workspace.state.JournalInv
  scratch : session.workspace.scratch = src.scratch
  live : ∀ p r, session.workspace.state.baseline.get? p = some r → r.source ≠ .tombstone
  agree : ∀ p, recordView (session.workspace.state.baseline.get? p) =
    recordView (layered src.base session.manifest p)
  manifest : ∀ p r, session.manifest.get? p = some r → r.path = p ∧ src.scratch p.asStr = false ∧
    (r.source = .tombstone ∨ r.source = .directory ∧ r.hash = "" ∨ r.source = .blob ∧
      ∃ bytes ∈ contents, session.blobs.get? r.hash = some bytes ∧ r.hash = hexHash bytes)
  known : KnownBlobs contents session.blobs
  extends_ : Extends src.blobs session.blobs

/-- What a session operation may do: no checkpoint outside a commit, removals that keep the
journal, and commits of a well-shaped tree that keep implied directories. -/
def Admissible (contents : Set (List UInt8)) (session : Session) : SessionOp → Prop
  | .operate op => (∀ paths, op ≠ .markCheckpointed paths) ∧
      JournaledWorkspace.KeepsJournal ⟨session.workspace, []⟩ op
  | .commit includes all =>
    Shaped session.workspace.state ∧
      (∀ p f, session.workspace.state.fileAt p = some f → f.bytes ∈ contents) ∧
      Run.OnOk (Session.selection session.workspace.changes.2 includes all)
        session.workspace.changes.1.state.KeepsImplied

omit [Blake3] in
theorem checkSelected_ok {scratch : String → Bool} {changed : List String} :
    ∀ {selected : List NormalizedPath}, Session.checkSelected scratch changed selected = .ok () →
      ∀ p ∈ selected, p.asStr ∈ changed ∧ scratch p.asStr = false := by
  intro selected
  induction selected with
  | nil => intro _ p hp; cases hp
  | cons q rest ih =>
    intro h p hp
    unfold Session.checkSelected at h
    split at h
    · cases h
    · split at h
      · cases h
      · rcases List.mem_cons.mp hp with rfl | hp
        · exact ⟨not_not.mp ‹_›, by simpa using ‹¬scratch p.asStr = true›⟩
        · exact ih h p hp

omit [Blake3] in
theorem checkpointWithReader_ok {reader : Session.Reader} {scratch : String → Bool}
    {changes : List Change} {before after : Baseline × BlobStore} {includes : List String}
    {all : Bool} {selected : List NormalizedPath}
    (h : Session.checkpointWithReader reader scratch changes before includes all =
      .ok (selected, after)) :
    Session.selection changes includes all = .ok selected ∧
      (∀ p ∈ selected, p.asStr ∈ changes.map Change.path ∧ scratch p.asStr = false) ∧
      Session.applySelectedChanges reader selected changes before = .ok after := by
  unfold Session.checkpointWithReader at h
  obtain ⟨selected, hsel, h⟩ := Run.bind_eq_ok.mp h
  obtain ⟨_, hcheck, h⟩ := Run.bind_eq_ok.mp h
  obtain ⟨retained, happly, h⟩ := Run.bind_eq_ok.mp h
  cases h
  exact ⟨hsel, checkSelected_ok hcheck, happly⟩

/-- A successful commit, taken apart. -/
theorem checkpointResident_ok {session session' : Session} {changes : List Change}
    {includes : List String} {all : Bool}
    (h : session.checkpointResident changes includes all = .ok session') :
    ∃ selected, Session.selection changes includes all = .ok selected ∧
      (∀ p ∈ selected, p.asStr ∈ changes.map Change.path ∧
        session.workspace.scratch p.asStr = false) ∧
      Session.applySelectedChanges (Session.residentReader session.workspace.state) selected
        changes (session.manifest, session.blobs) = .ok (session'.manifest, session'.blobs) ∧
      session'.workspace = { session.workspace with
        state := (selected.foldl checkpointPath session.workspace.state).refreshBaselineDirectories } := by
  unfold Session.checkpointResident at h
  obtain ⟨⟨selected, retained, blobs⟩, hread, h⟩ := Run.bind_eq_ok.mp h
  obtain ⟨hsel, hcheck, happly⟩ := checkpointWithReader_ok hread
  cases h
  refine ⟨selected, hsel, hcheck, happly, ?_⟩
  simp only [ResidentWorkspace.markCheckpointed, checkpointPaths_asStr]

theorem SessionInv.operate {src : SessionSources contents} {session : Session}
    (h : SessionInv src session) (op : ResidentOp) (hop : ∀ paths, op ≠ .markCheckpointed paths)
    (hkeeps : JournaledWorkspace.KeepsJournal ⟨session.workspace, []⟩ op) :
    SessionInv src (session.step (.operate op)) := by
  have hbase := SameBase.step op hop session.workspace []
  have hinv : JournaledWorkspace.Inv ⟨session.workspace, []⟩ := ⟨h.journal, by simp⟩
  have hscope : JournaledWorkspace.InScope ⟨session.workspace, []⟩ op := by
    cases op <;> first | trivial | exact absurd rfl (hop _)
  exact
    { journal := (hinv.step op ⟨hscope, hkeeps⟩).journal
      scratch := hbase.2.trans h.scratch
      live := fun p r hp => h.live p r (hbase.1 ▸ hp)
      agree := fun p =>
        (congrArg (fun b => recordView (FiniteMap.get? b p)) hbase.1).trans (h.agree p)
      manifest := h.manifest
      known := h.known
      extends_ := h.extends_ }

/-- The session after the journal has been read, as every commit starts. -/
def Session.journaled (session : Session) : Session :=
  { session with workspace := session.workspace.changes.1 }

theorem SessionInv.journaled {src : SessionSources contents} {session : Session}
    (h : SessionInv src session) : SessionInv src session.journaled := by
  have hstep := h.operate .changes (by simp) trivial
  exact hstep

theorem mem_changes {s : ResidentState} (h : s.JournalInv) {change : Change}
    (hc : change ∈ s.collectChanges.2) : ∃ p, s.collectChanges.1.changeFor p = some change := by
  rw [h.collectChanges.2, fullDifference, List.mem_filterMap] at hc
  obtain ⟨p, -, hp⟩ := hc
  exact ⟨p, (changeFor_collectEvaluated _ s p).trans hp⟩

theorem commitCheckpoint_fst (session : Session) (includes : List String) (all : Bool) :
    (session.commitCheckpoint includes all).1 =
      match session.journaled.checkpointResident session.workspace.changes.2 includes all with
      | .ok session' => session'
      | .error _ => session.journaled := by
  unfold Session.commitCheckpoint Session.journaled
  dsimp only
  split <;> simp_all

theorem commitCheckpoint_snd (session : Session) (includes : List String) (all : Bool) :
    (session.commitCheckpoint includes all).2 =
      (session.journaled.checkpointResident session.workspace.changes.2 includes all).map
        fun _ => () := by
  unfold Session.commitCheckpoint Session.journaled
  dsimp only
  split <;> simp_all [Except.map]

/-- What a successful commit does to a session that satisfies the invariant. -/
theorem SessionInv.checkpoint {src : SessionSources contents} {session session' : Session}
    (h : SessionInv src session) {includes : List String} {all : Bool}
    (hadm : Admissible contents session (.commit includes all))
    (hok : session.journaled.checkpointResident session.workspace.changes.2 includes all =
      .ok session') :
    SessionInv src session' ∧ ∃ selected,
      Session.selection session.workspace.changes.2 includes all = .ok selected ∧
        Checkpointed session.workspace.changes.1.state session'.workspace.state selected := by
  have hj := h.journaled
  obtain ⟨hshape, hknown, hkeep⟩ := hadm
  obtain ⟨selected, hsel, hcheck, happly, hws⟩ := checkpointResident_ok hok
  have htree : SameTree session.workspace.state session.journaled.workspace.state :=
    sameTree_collectEvaluated _ _
  have hknown' : ∀ p f, session.journaled.workspace.state.fileAt p = some f →
      f.bytes ∈ contents := by
    intro p f hf
    have hbytes := htree.files p
    rw [hf, Option.map_some] at hbytes
    obtain ⟨f₀, hf₀, hb⟩ := Option.map_eq_some_iff.mp hbytes.symm
    exact hb ▸ hknown p f₀ hf₀
  obtain ⟨hk, hext, hall⟩ := applySelectedChanges_spec src.free (hshape.congr htree) hknown'
    session.workspace.changes.2 session.manifest session.blobs
    (fun c hc => mem_changes h.journal hc) h.known happly
  have hcp := checkpointed_foldl session.journaled.workspace.state selected
  have hstate : session'.workspace.state =
      (selected.foldl checkpointPath
        session.journaled.workspace.state).refreshBaselineDirectories := by rw [hws]
  -- a path is retained exactly when it is selected
  have hall' : ∀ p, if p ∈ selected then
      ∃ r, session'.manifest.get? p = some r ∧
        Retains contents session.journaled.workspace.state session'.blobs p r
      else session'.manifest.get? p = session.manifest.get? p := by
    intro p
    have hp := hall p
    by_cases hs : p ∈ selected
    · rw [if_pos ⟨hs, (hcheck p hs).1⟩] at hp
      rwa [if_pos hs]
    · rw [if_neg fun hc => hs hc.1] at hp
      rwa [if_neg hs]
  have hbase : ∀ p, session'.workspace.state.baseline.get? p =
      if p ∈ selected then session.journaled.workspace.state.recordOf p
      else session.journaled.workspace.state.baseline.get? p := fun p => by
    rw [hstate]
    exact hcp.baseline p
  refine ⟨⟨?_, ?_, ?_, ?_, ?_, hk, fun _ _ hget => hext _ _ (h.extends_ _ _ hget)⟩,
    selected, hsel, ?_⟩
  · rw [hstate]
    exact hj.journal.checkpoint (hkeep selected hsel)
  · rw [hws]
    exact hj.scratch
  · intro p r hp
    rw [hbase] at hp
    split at hp
    · unfold recordOf at hp
      split at hp
      · cases hp
        simp
      · split at hp <;> cases hp
        simp
    · exact hj.live p r hp
  · intro p
    have hp := hall' p
    rw [hbase, layered]
    split at hp
    next hs =>
      obtain ⟨r, hr, hret⟩ := hp
      rw [if_pos hs, hr, Option.some_or]
      exact hret.view.symm
    next hs =>
      rw [if_neg hs, hp]
      exact hj.agree p
  · intro p r hp
    have hret := hall' p
    split at hret
    next hs =>
      obtain ⟨r', hr', hret⟩ := hret
      rw [hp] at hr'
      cases hr'
      exact ⟨hret.path, hj.scratch ▸ (hcheck p hs).2, hret.source⟩
    next hs =>
      rw [hret] at hp
      obtain ⟨h₁, h₂, h₃⟩ := h.manifest p r hp
      refine ⟨h₁, h₂, ?_⟩
      rcases h₃ with h₃ | h₃ | ⟨h₃, bytes, hb, hget, hhash⟩
      · exact .inl h₃
      · exact .inr (.inl h₃)
      · exact .inr (.inr ⟨h₃, bytes, hb, hext _ _ hget, hhash⟩)
  · rw [hstate]
    exact ⟨hcp.files, hcp.directories, hcp.nextFile, hcp.dirty, hcp.baseline, hcp.bytes,
      hcp.clean, hcp.kept⟩

theorem SessionInv.step {src : SessionSources contents} {session : Session} {op : SessionOp}
    (hadm : Admissible contents session op) (h : SessionInv src session) :
    SessionInv src (session.step op) := by
  cases op with
  | operate op => exact h.operate op hadm.1 hadm.2
  | commit includes all =>
    change SessionInv src (session.commitCheckpoint includes all).1
    rw [commitCheckpoint_fst]
    cases hok : session.journaled.checkpointResident session.workspace.changes.2 includes all with
    | ok session' => exact (h.checkpoint hadm hok).1
    | error e => exact h.journaled

end
end Workspace
