import Reframe.Workspace.ResidentWorkspace

/-! Loading a resident workspace from a baseline: each distinct hash is read and verified once,
then every file record becomes a shared file over its blob. -/
namespace Workspace

variable [Blake3]

/-- The files a load reads: retained blobs by store and hash, and files of registered memories. -/
structure ContentSource where
  storeRoot : String
  readBlob : String → String → Option (List UInt8)
  readMemory : MemoryLocator → Option (List UInt8)

/-- A blob whose digest has been checked. -/
abbrev SoundBlob := {blob : VerifiedBlob // blob.Sound}

inductive LoadError where
  | unsupportedSource (source : RecordSource)
  | unreadable (hash : String)
  | verify (error : VerifiedBlob.VerifyError)
  | notLoaded (path : NormalizedPath)
  deriving DecidableEq

abbrev ByHash := FiniteMap String SoundBlob

/-- `prepare_record_load`: only blobs and memory files can be read. -/
def prepareRecordLoad (record : FileRecord) : Except LoadError FileRecord :=
  match record.source with
  | .blob | .backingBlob _ | .memory _ => .ok record
  | source => .error (.unsupportedSource source)

def readRecord (content : ContentSource) (record : FileRecord) : Option (List UInt8) :=
  match record.source with
  | .blob => content.readBlob content.storeRoot record.hash
  | .backingBlob locator => content.readBlob locator.storeRoot locator.hash
  | .memory locator => content.readMemory locator
  | _ => none

/-- `load_verified`. -/
def loadVerified (content : ContentSource) (record : FileRecord) : Except LoadError SoundBlob :=
  match readRecord content record with
  | none => .error (.unreadable record.hash)
  | some bytes =>
    match h : VerifiedBlob.verify bytes record.hash with
    | .ok blob => .ok ⟨blob, (VerifiedBlob.verify_eq_ok h).1 ▸ VerifiedBlob.new_sound bytes⟩
    | .error e => .error (.verify e)

/-- The first pass: cache hits, and the records whose hash has to be read. -/
def planLoads (cached : (hash : String) → Option {blob : SoundBlob // blob.1.hashHex = hash}) :
    List FileRecord → ByHash → List FileRecord → Except LoadError (ByHash × List FileRecord)
  | [], byHash, cold => .ok (byHash, cold)
  | record :: rest, byHash, cold =>
    if record.source = .directory ∨ byHash.contains record.hash ∨
        record.hash ∈ cold.map FileRecord.hash then planLoads cached rest byHash cold
    else match cached record.hash with
      | some blob => planLoads cached rest (byHash.insert record.hash blob.1) cold
      | none => do
        let load ← prepareRecordLoad record
        planLoads cached rest byHash (cold ++ [load])

/-- The second pass, in the order of the plan. -/
def loadRecords (content : ContentSource) : List FileRecord → ByHash → Except LoadError ByHash
  | [], byHash => .ok byHash
  | record :: rest, byHash => do
    let blob ← loadVerified content record
    loadRecords content rest (byHash.insert record.hash blob)

/-- The third pass: one shared file for each file record. -/
def linkFiles (byHash : ByHash) :
    List FileRecord → ResidentState → Except LoadError ResidentState
  | [], s => .ok s
  | record :: rest, s =>
    if record.source = .directory then linkFiles byHash rest s
    else match byHash.get? record.hash with
      | none => .error (.notLoaded record.path)
      | some blob => linkFiles byHash rest (s.linkNew record.path (.shared blob.1 blob.2))

/-- Baseline records in path order. -/
def recordsInOrder (baseline : Baseline) : List FileRecord :=
  (SortedSet.toSorted baseline.keys).filterMap baseline.get?

def loadDirectories (records : List FileRecord) : Finset NormalizedPath :=
  (records.flatMap fun record =>
    if record.source = .directory then record.path.parents ++ [record.path]
    else record.path.parents).toFinset

/-- The state before any file is linked. -/
def emptyState (baseline : Baseline) (directories : Finset NormalizedPath) : ResidentState where
  baseline := baseline
  files := ∅
  directories := directories
  baselineDirectories := baselineDirectories baseline
  children := ∅
  dirty := ∅
  heap := fun _ => .owned []
  nextFile := 0

def loadCached (content : ContentSource)
    (cached : (hash : String) → Option {blob : SoundBlob // blob.1.hashHex = hash})
    (baseline : Baseline) (scratch : String → Bool) : Except LoadError ResidentWorkspace := do
  let baseline := withoutTombstones baseline
  let records := recordsInOrder baseline
  let (byHash, cold) ← planLoads cached records ∅ []
  let byHash ← loadRecords content cold byHash
  let state ← linkFiles byHash records (emptyState baseline (loadDirectories records))
  let state := { state with
    children := ChildIndex.buildChildren state.files state.directories }
  .ok (ResidentWorkspace.recount ⟨state, scratch, 0, 0⟩)

/-- A row carries its own path, a directory row no hash, and a file row a digest text that the
hasher printed: every writer of such rows stores them that way. -/
def CanonicalRecord (p : NormalizedPath) (r : FileRecord) : Prop :=
  r.path = p ∧ (r.source = .directory → r.hash = "") ∧
    (r.source ≠ .directory → r.source ≠ .tombstone → ∃ d : Blake3.Digest, r.hash = Blake3.toHex d)

def CanonicalRecords (baseline : Baseline) : Prop :=
  ∀ p r, baseline.get? p = some r → CanonicalRecord p r

omit [Blake3] in
theorem mem_recordsInOrder {baseline : Baseline} {r : FileRecord} :
    r ∈ recordsInOrder baseline ↔ ∃ p, baseline.get? p = some r := by
  simp only [recordsInOrder, List.mem_filterMap, SortedSet.mem_toSorted]
  constructor
  · rintro ⟨p, -, hp⟩
    exact ⟨p, hp⟩
  · rintro ⟨p, hp⟩
    exact ⟨p, FiniteMap.mem_keys_iff.mpr ⟨r, hp⟩, hp⟩

/-- The tree starts with exactly the directories the baseline has or implies. -/
theorem loadDirectories_eq {baseline : Baseline} (h : CanonicalRecords baseline) :
    loadDirectories (recordsInOrder baseline) = baselineDirectories baseline := by
  ext d
  simp only [loadDirectories, List.mem_toFinset, List.mem_flatMap, mem_recordsInOrder,
    mem_baselineDirectories]
  constructor
  · rintro ⟨r, ⟨p, hp⟩, hd⟩
    have hpath := (h p r hp).1
    refine ⟨p, r, hp, ?_⟩
    split at hd
    next hdir =>
      rcases List.mem_append.mp hd with hd | hd
      · exact .inl (hpath ▸ NormalizedPath.mem_parents.mp hd)
      · exact .inr ⟨by rw [List.mem_singleton.mp hd, hpath], hdir⟩
    next => exact .inl (hpath ▸ NormalizedPath.mem_parents.mp hd)
  · rintro ⟨p, r, hp, hd⟩
    have hpath := (h p r hp).1
    refine ⟨r, ⟨p, hp⟩, ?_⟩
    rcases hd with hbelow | ⟨rfl, hdir⟩
    · have hparent : d ∈ r.path.parents := NormalizedPath.mem_parents.mpr (hpath.symm ▸ hbelow)
      split
      · exact List.mem_append_left _ hparent
      · exact hparent
    · rw [if_pos hdir, hpath]
      simp

/-- What holds of every blob with the hash it is stored under. -/
def ByHash.All (P : String → SoundBlob → Prop) (byHash : ByHash) : Prop :=
  ∀ hash blob, byHash.get? hash = some blob → P hash blob

/-- Every loaded blob matches the hash it is stored under. -/
def ByHash.Matches (byHash : ByHash) : Prop :=
  ∀ hash blob, byHash.get? hash = some blob → Blake3.fromHex hash = some blob.1.digest

section All

variable {P : String → SoundBlob → Prop}

theorem ByHash.All.insert {byHash : ByHash} (h : byHash.All P) {hash : String} {blob : SoundBlob}
    (hb : P hash blob) : ByHash.All P (byHash.insert hash blob) := by
  intro hash' blob' hget
  rw [FiniteMap.get?_insert] at hget
  split at hget
  · cases hget
    simp_all
  · exact h hash' blob' hget

theorem planLoads_all
    {cached : (hash : String) → Option {blob : SoundBlob // blob.1.hashHex = hash}}
    (hcached : ∀ hash blob, cached hash = some blob → P hash blob.1) :
    ∀ (records : List FileRecord) (byHash : ByHash) (cold : List FileRecord)
      {out : ByHash × List FileRecord}, byHash.All P →
      planLoads cached records byHash cold = .ok out → ByHash.All P out.1 := by
  intro records
  induction records with
  | nil =>
    intro byHash cold out h hout
    cases hout
    exact h
  | cons record rest ih =>
    intro byHash cold out h hout
    unfold planLoads at hout
    split at hout
    · exact ih byHash cold h hout
    · cases hc : cached record.hash with
      | some blob =>
        simp only [hc] at hout
        exact ih _ cold (h.insert (hcached _ _ hc)) hout
      | none =>
        simp only [hc] at hout
        cases hp : prepareRecordLoad record with
        | error e => simp [hp, bind, Except.bind] at hout
        | ok load =>
          simp only [hp, bind, Except.bind] at hout
          exact ih byHash _ h hout

theorem loadRecords_all {content : ContentSource}
    (hload : ∀ record blob, loadVerified content record = .ok blob → P record.hash blob) :
    ∀ (cold : List FileRecord) (byHash : ByHash) {out : ByHash}, byHash.All P →
      loadRecords content cold byHash = .ok out → out.All P := by
  intro cold
  induction cold with
  | nil =>
    intro byHash out h hout
    cases hout
    exact h
  | cons record rest ih =>
    intro byHash out h hout
    unfold loadRecords at hout
    cases hl : loadVerified content record with
    | error e => simp [hl, bind, Except.bind] at hout
    | ok blob =>
      simp only [hl, bind, Except.bind] at hout
      exact ih _ (h.insert (hload record blob hl)) hout

end All

theorem planLoads_matches
    {cached : (hash : String) → Option {blob : SoundBlob // blob.1.hashHex = hash}}
    (records : List FileRecord) {out : ByHash × List FileRecord}
    (h : planLoads cached records ∅ [] = .ok out) : ByHash.Matches out.1 := by
  refine planLoads_all (P := fun hash blob => Blake3.fromHex hash = some blob.1.digest)
    (fun hash blob _ => ?_) records ∅ [] (fun _ _ hget => by cases hget) h
  have hdigest := Blake3.fromHex_toHex blob.1.1.digest
  rwa [show Blake3.toHex blob.1.1.digest = hash from blob.2] at hdigest

theorem loadVerified_matches {content : ContentSource} {record : FileRecord} {blob : SoundBlob}
    (h : loadVerified content record = .ok blob) :
    Blake3.fromHex record.hash = some blob.1.digest := by
  unfold loadVerified at h
  split at h
  · cases h
  · split at h
    next hv =>
      cases h
      obtain ⟨rfl, hd⟩ := VerifiedBlob.verify_eq_ok hv
      exact hd
    · cases h

theorem loadRecords_matches {content : ContentSource} (cold : List FileRecord) (byHash : ByHash)
    {out : ByHash} (h : byHash.Matches) (hout : loadRecords content cold byHash = .ok out) :
    out.Matches :=
  loadRecords_all (fun _ _ hload => loadVerified_matches hload) cold byHash h hout

/-- The files of a load in progress: fresh, unshared, clean, and with the recorded content. -/
structure LinkedFrom (baseline : Baseline) (s : ResidentState) : Prop where
  fresh : ∀ p id, s.files.get? p = some id → id < s.nextFile
  linked : ∀ p q id, s.files.get? p = some id → s.files.get? q = some id → p = q
  content : ∀ p id, s.files.get? p = some id → (s.heap id).dirty = false ∧
    ∃ r, baseline.get? p = some r ∧ r.source ≠ .directory ∧ r.hash = hexHash (s.heap id).bytes

theorem LinkedFrom.linkNew {baseline : Baseline} {s : ResidentState} (h : LinkedFrom baseline s)
    {record : FileRecord} (hr : baseline.get? record.path = some record)
    (hdir : record.source ≠ .directory) {blob : SoundBlob}
    (hhash : record.hash = hexHash blob.1.bytes) :
    LinkedFrom baseline (s.linkNew record.path (.shared blob.1 blob.2)) := by
  have hnew : ∀ q id, s.files.get? q = some id → id ≠ s.nextFile := fun q id hq =>
    Nat.ne_of_lt (h.fresh q id hq)
  refine ⟨fun p id hp => ?_, fun p q id hp hq => ?_, fun p id hp => ?_⟩
  · simp only [ResidentState.linkNew, FiniteMap.get?_insert] at hp ⊢
    split at hp
    · cases hp
      exact Nat.lt_succ_self _
    · exact Nat.lt_succ_of_lt (h.fresh p id hp)
  · simp only [ResidentState.linkNew, FiniteMap.get?_insert] at hp hq
    split at hp <;> split at hq
    · simp_all
    · cases hp
      exact absurd rfl (hnew q _ hq)
    · cases hq
      exact absurd rfl (hnew p _ hp)
    · exact h.linked p q id hp hq
  · simp only [ResidentState.linkNew, FiniteMap.get?_insert] at hp ⊢
    split at hp
    next he =>
      cases hp
      rw [Function.update_self, he]
      exact ⟨rfl, record, hr, hdir, hhash⟩
    next =>
      rw [Function.update_of_ne (hnew p id hp)]
      exact h.content p id hp

/-- What the third pass adds to the state it starts from. -/
theorem linkFiles_spec {baseline : Baseline} (hcanon : CanonicalRecords baseline)
    (htomb : ∀ p r, baseline.get? p = some r → r.source ≠ .tombstone) {byHash : ByHash}
    (hmatch : byHash.Matches) :
    ∀ (records : List FileRecord) {s out : ResidentState},
      (∀ r ∈ records, baseline.get? r.path = some r) → LinkedFrom baseline s →
      linkFiles byHash records s = .ok out →
      LinkedFrom baseline out ∧ out.baseline = s.baseline ∧ out.directories = s.directories ∧
        out.baselineDirectories = s.baselineDirectories ∧ out.dirty = s.dirty ∧
        (∀ p, (s.files.get? p).isSome → (out.files.get? p).isSome) ∧
        ∀ r ∈ records, r.source ≠ .directory → (out.files.get? r.path).isSome := by
  intro records
  induction records with
  | nil =>
    intro s out _ h hout
    cases hout
    exact ⟨h, rfl, rfl, rfl, rfl, fun _ hp => hp, by simp⟩
  | cons record rest ih =>
    intro s out hrec h hout
    have hr := hrec record List.mem_cons_self
    have hrest : ∀ r ∈ rest, baseline.get? r.path = some r := fun r hr' =>
      hrec r (List.mem_cons_of_mem _ hr')
    unfold linkFiles at hout
    split at hout
    next hdir =>
      obtain ⟨h₁, h₂, h₃, h₄, h₅, h₆, h₇⟩ := ih hrest h hout
      refine ⟨h₁, h₂, h₃, h₄, h₅, h₆, fun r hmem hnot => ?_⟩
      rcases List.mem_cons.mp hmem with rfl | hmem
      · exact absurd hdir hnot
      · exact h₇ r hmem hnot
    next hdir =>
      cases hb : byHash.get? record.hash with
      | none => simp [hb] at hout
      | some blob =>
        simp only [hb] at hout
        obtain ⟨d, hd⟩ := (hcanon _ _ hr).2.2 hdir (htomb _ _ hr)
        have hhash : record.hash = hexHash blob.1.bytes := by
          have hdigest := hmatch _ _ hb
          rw [hd, Blake3.fromHex_toHex] at hdigest
          rw [hd, hexHash, Option.some.inj hdigest, show blob.1.digest = _ from blob.2]
        obtain ⟨h₁, h₂, h₃, h₄, h₅, h₆, h₇⟩ := ih hrest (h.linkNew hr hdir hhash) hout
        have hself : (out.files.get? record.path).isSome := h₆ _ (by simp [ResidentState.linkNew])
        refine ⟨h₁, h₂, h₃, h₄, h₅, fun p hp => h₆ p ?_, fun r hmem hnot => ?_⟩
        · simp only [ResidentState.linkNew, FiniteMap.get?_insert]
          split
          · rfl
          · exact hp
        · rcases List.mem_cons.mp hmem with rfl | hmem
          · exact hself
          · exact h₇ r hmem hnot

/-- A loaded tree is its baseline: the recorded files with the recorded content, the recorded
and implied directories, and an empty journal. -/
structure LoadedState (records : Baseline) (s : ResidentState) : Prop where
  baseline : s.baseline = records
  directories : s.directories = baselineDirectories records
  index : s.baselineDirectories = baselineDirectories records
  dirty : s.dirty = ∅
  linkedFrom : LinkedFrom records s
  files : ∀ p r, records.get? p = some r → r.source ≠ .directory → (s.files.get? p).isSome

theorem loadCached_spec {content : ContentSource}
    {cached : (hash : String) → Option {blob : SoundBlob // blob.1.hashHex = hash}}
    {baseline : Baseline} {scratch : String → Bool} (hcanon : CanonicalRecords baseline)
    {ws : ResidentWorkspace} (h : loadCached content cached baseline scratch = .ok ws) :
    LoadedState (withoutTombstones baseline) ws.state ∧ ws.scratch = scratch := by
  have hcanon' : CanonicalRecords (withoutTombstones baseline) := fun p r hp =>
    hcanon p r (get?_withoutTombstones.mp hp).1
  unfold loadCached at h
  cases hplan : planLoads cached (recordsInOrder (withoutTombstones baseline)) ∅ [] with
  | error e => simp [hplan, bind, Except.bind] at h
  | ok plan =>
    cases hload : loadRecords content plan.2 plan.1 with
    | error e => simp [hplan, hload, bind, Except.bind] at h
    | ok byHash =>
      cases hlink : linkFiles byHash (recordsInOrder (withoutTombstones baseline))
          (emptyState (withoutTombstones baseline)
            (loadDirectories (recordsInOrder (withoutTombstones baseline)))) with
      | error e => simp [hplan, hload, hlink, bind, Except.bind] at h
      | ok state =>
        simp only [hplan, hload, hlink, bind, Except.bind, Except.ok.injEq] at h
        subst h
        have hmatch := loadRecords_matches plan.2 plan.1 (planLoads_matches _ hplan) hload
        have hrecords : ∀ r ∈ recordsInOrder (withoutTombstones baseline),
            (withoutTombstones baseline).get? r.path = some r := by
          intro r hr
          obtain ⟨p, hp⟩ := mem_recordsInOrder.mp hr
          rw [(hcanon' p r hp).1]
          exact hp
        obtain ⟨h₁, h₂, h₃, h₄, h₅, -, h₇⟩ := linkFiles_spec hcanon'
          (fun p r hp => (get?_withoutTombstones.mp hp).2) hmatch _ hrecords
          ⟨fun _ _ hp => (by cases hp), fun _ _ _ hp => (by cases hp), fun _ _ hp => (by cases hp)⟩
          hlink
        refine ⟨⟨h₂, ?_, h₄, h₅, ⟨h₁.fresh, h₁.linked, h₁.content⟩, fun p r hp hdir => ?_⟩, rfl⟩
        · exact h₃.trans (loadDirectories_eq hcanon')
        · have := h₇ r (mem_recordsInOrder.mpr ⟨p, hp⟩) hdir
          rwa [(hcanon' p r hp).1] at this

/-! Loads succeed when every record can be read, and then hold only known contents. -/

section Known

variable (contents : Set (List UInt8))

/-- No two known contents share a digest. -/
def CollisionFree : Prop :=
  ∀ a ∈ contents, ∀ b ∈ contents, Blake3.hash a = Blake3.hash b → a = b

/-- The record can be read, and gives a known content with the recorded hash. -/
def Readable (content : ContentSource) (record : FileRecord) : Prop :=
  (prepareRecordLoad record).isOk ∧
    ∃ bytes ∈ contents, readRecord content record = some bytes ∧ record.hash = hexHash bytes

/-- Every blob is a known content. -/
def ByHash.Known (byHash : ByHash) : Prop :=
  ∀ hash blob, byHash.get? hash = some blob → blob.1.bytes ∈ contents

variable {contents}

theorem ByHash.Known.insert {byHash : ByHash} (h : byHash.Known contents) (hash : String)
    {blob : SoundBlob} (hb : blob.1.bytes ∈ contents) :
    ByHash.Known contents (byHash.insert hash blob) := by
  intro hash' blob' hget
  rw [FiniteMap.get?_insert] at hget
  split at hget
  · cases hget
    exact hb
  · exact h hash' blob' hget

omit [Blake3] in
theorem prepareRecordLoad_eq {record : FileRecord} (h : (prepareRecordLoad record).isOk) :
    prepareRecordLoad record = .ok record := by
  unfold prepareRecordLoad at h ⊢
  split at h <;> simp_all [Except.isOk, Except.toBool]

theorem planLoads_ok {content : ContentSource}
    {cached : (hash : String) → Option {blob : SoundBlob // blob.1.hashHex = hash}}
    (hcached : ∀ hash blob, cached hash = some blob → blob.1.1.bytes ∈ contents) :
    ∀ (records : List FileRecord) (byHash : ByHash) (cold : List FileRecord),
      (∀ r ∈ records, r.source ≠ .directory → Readable contents content r) →
      byHash.Known contents → (∀ r ∈ cold, Readable contents content r) →
      ∃ out, planLoads cached records byHash cold = .ok out ∧ ByHash.Known contents out.1 ∧
        (∀ r ∈ out.2, Readable contents content r) ∧
        (∀ hash, byHash.contains hash ∨ hash ∈ cold.map FileRecord.hash →
          out.1.contains hash ∨ hash ∈ out.2.map FileRecord.hash) ∧
        ∀ r ∈ records, r.source ≠ .directory →
          out.1.contains r.hash ∨ r.hash ∈ out.2.map FileRecord.hash := by
  intro records
  induction records with
  | nil =>
    intro byHash cold _ hk hcold
    exact ⟨(byHash, cold), rfl, hk, hcold, fun _ h => h, by simp⟩
  | cons record rest ih =>
    intro byHash cold hread hk hcold
    have hrest : ∀ r ∈ rest, r.source ≠ .directory → Readable contents content r :=
      fun r hr => hread r (List.mem_cons_of_mem _ hr)
    -- whichever branch is taken, the hash of this record is planned before the rest
    have finish : ∀ (byHash' : ByHash) (cold' : List FileRecord), byHash'.Known contents →
        (∀ r ∈ cold', Readable contents content r) →
        (∀ hash, byHash.contains hash ∨ hash ∈ cold.map FileRecord.hash →
          byHash'.contains hash ∨ hash ∈ cold'.map FileRecord.hash) →
        (record.source ≠ .directory →
          byHash'.contains record.hash ∨ record.hash ∈ cold'.map FileRecord.hash) →
        ∃ out, planLoads cached rest byHash' cold' = .ok out ∧ ByHash.Known contents out.1 ∧
          (∀ r ∈ out.2, Readable contents content r) ∧
          (∀ hash, byHash.contains hash ∨ hash ∈ cold.map FileRecord.hash →
            out.1.contains hash ∨ hash ∈ out.2.map FileRecord.hash) ∧
          ∀ r ∈ record :: rest, r.source ≠ .directory →
            out.1.contains r.hash ∨ r.hash ∈ out.2.map FileRecord.hash := by
      intro byHash' cold' hk' hcold' hmono hself
      obtain ⟨out, h₁, h₂, h₃, h₄, h₅⟩ := ih byHash' cold' hrest hk' hcold'
      refine ⟨out, h₁, h₂, h₃, fun hash hh => h₄ hash (hmono hash hh), fun r hr hdir => ?_⟩
      rcases List.mem_cons.mp hr with rfl | hr
      · exact h₄ _ (hself hdir)
      · exact h₅ r hr hdir
    unfold planLoads
    split
    next hskip =>
      exact finish byHash cold hk hcold (fun _ h => h) fun hdir => hskip.resolve_left hdir
    next hskip =>
      simp only [not_or] at hskip
      cases hc : cached record.hash with
      | some blob =>
        refine finish _ cold (hk.insert _ (hcached _ _ hc)) hcold (fun hash hh => ?_) fun _ => ?_
        · refine hh.imp_left fun hb => ?_
          rw [FiniteMap.contains_iff] at hb ⊢
          obtain ⟨b, hb⟩ := hb
          rw [FiniteMap.get?_insert]
          split
          · exact ⟨_, rfl⟩
          · exact ⟨b, hb⟩
        · exact .inl (by simp [FiniteMap.contains])
      | none =>
        have hr := hread record List.mem_cons_self hskip.1
        simp only [prepareRecordLoad_eq hr.1, bind, Except.bind]
        refine finish byHash (cold ++ [record]) hk (fun r hr' => ?_) (fun hash hh => ?_) fun _ => ?_
        · rcases List.mem_append.mp hr' with hr' | hr'
          · exact hcold r hr'
          · exact List.mem_singleton.mp hr' ▸ hr
        · refine hh.imp_right fun hh => ?_
          rw [List.map_append]
          exact List.mem_append_left _ hh
        · exact .inr (by simp)

theorem loadVerified_ok {content : ContentSource} {record : FileRecord}
    (h : Readable contents content record) :
    ∃ blob, loadVerified content record = .ok blob ∧ blob.1.bytes ∈ contents := by
  obtain ⟨-, bytes, hmem, hread, hhash⟩ := h
  have hverify : VerifiedBlob.verify bytes record.hash = .ok (.new bytes) := by
    rw [hhash]
    exact VerifiedBlob.verify_hexHash bytes
  refine ⟨⟨.new bytes, VerifiedBlob.new_sound bytes⟩, ?_, hmem⟩
  unfold loadVerified
  grind

theorem loadRecords_ok {content : ContentSource} :
    ∀ (cold : List FileRecord) (byHash : ByHash), (∀ r ∈ cold, Readable contents content r) →
      byHash.Known contents → ∃ out, loadRecords content cold byHash = .ok out ∧
        out.Known contents ∧ ∀ hash, byHash.contains hash ∨ hash ∈ cold.map FileRecord.hash →
          out.contains hash := by
  intro cold
  induction cold with
  | nil => intro byHash _ hk; exact ⟨byHash, rfl, hk, by simp⟩
  | cons record rest ih =>
    intro byHash hread hk
    obtain ⟨blob, hb, hmem⟩ := loadVerified_ok (hread record List.mem_cons_self)
    obtain ⟨out, h₁, h₂, h₃⟩ := ih (byHash.insert record.hash blob)
      (fun r hr => hread r (List.mem_cons_of_mem _ hr)) (hk.insert _ hmem)
    refine ⟨out, by simp only [loadRecords, hb, bind, Except.bind, h₁], h₂, fun hash hh => ?_⟩
    apply h₃
    by_cases he : hash = record.hash
    · exact .inl (by simp [FiniteMap.contains, he])
    · rcases hh with hh | hh
      · refine .inl ?_
        rw [FiniteMap.contains, FiniteMap.get?_insert_ne _ he]
        exact hh
      · rw [List.map_cons, List.mem_cons] at hh
        exact .inr (hh.resolve_left he)

theorem linkFiles_ok {byHash : ByHash} (hk : byHash.Known contents) :
    ∀ (records : List FileRecord) (s : ResidentState),
      (∀ r ∈ records, r.source ≠ .directory → byHash.contains r.hash) →
      (∀ p id, s.files.get? p = some id → id < s.nextFile ∧ (s.heap id).bytes ∈ contents) →
      ∃ out, linkFiles byHash records s = .ok out ∧
        ∀ p id, out.files.get? p = some id → id < out.nextFile ∧ (out.heap id).bytes ∈ contents := by
  intro records
  induction records with
  | nil => intro s _ hs; exact ⟨s, rfl, hs⟩
  | cons record rest ih =>
    intro s hall hs
    have hrest : ∀ r ∈ rest, r.source ≠ .directory → byHash.contains r.hash :=
      fun r hr => hall r (List.mem_cons_of_mem _ hr)
    unfold linkFiles
    split
    · exact ih s hrest hs
    next hdir =>
      obtain ⟨blob, hb⟩ := FiniteMap.contains_iff.mp (hall record List.mem_cons_self hdir)
      simp only [hb]
      apply ih _ hrest
      intro p id hp
      simp only [ResidentState.linkNew, FiniteMap.get?_insert] at hp ⊢
      split at hp
      · cases hp
        rw [Function.update_self]
        exact ⟨Nat.lt_succ_self _, hk _ _ hb⟩
      · have hold := hs p id hp
        rw [Function.update_of_ne (Nat.ne_of_lt hold.1)]
        exact ⟨Nat.lt_succ_of_lt hold.1, hold.2⟩

theorem loadCached_ok {content : ContentSource}
    {cached : (hash : String) → Option {blob : SoundBlob // blob.1.hashHex = hash}}
    (hcached : ∀ hash blob, cached hash = some blob → blob.1.1.bytes ∈ contents)
    {baseline : Baseline} (scratch : String → Bool)
    (hread : ∀ p r, (withoutTombstones baseline).get? p = some r → r.source ≠ .directory →
      Readable contents content r) :
    ∃ ws, loadCached content cached baseline scratch = .ok ws ∧
      ∀ p f, ws.state.fileAt p = some f → f.bytes ∈ contents := by
  have hrecords : ∀ r ∈ recordsInOrder (withoutTombstones baseline), r.source ≠ .directory →
      Readable contents content r := by
    intro r hr
    obtain ⟨p, hp⟩ := mem_recordsInOrder.mp hr
    exact hread p r hp
  obtain ⟨plan, h₁, hk₁, hcold, -, hplan⟩ := planLoads_ok hcached _ ∅ [] hrecords
    (fun _ _ hget => by cases hget) (by simp)
  obtain ⟨byHash, h₂, hk₂, hall⟩ := loadRecords_ok plan.2 plan.1 hcold hk₁
  obtain ⟨state, h₃, hstate⟩ := linkFiles_ok hk₂ (recordsInOrder (withoutTombstones baseline))
    (emptyState (withoutTombstones baseline)
      (loadDirectories (recordsInOrder (withoutTombstones baseline))))
    (fun r hr hdir => hall r.hash (hplan r hr hdir)) (fun _ _ hp => by cases hp)
  refine ⟨ResidentWorkspace.recount ⟨{ state with
    children := ChildIndex.buildChildren state.files state.directories }, scratch, 0, 0⟩,
    by simp only [loadCached, h₁, h₂, h₃, bind, Except.bind], fun p f hf => ?_⟩
  obtain ⟨id, hid, rfl⟩ := Option.map_eq_some_iff.mp hf
  exact (hstate p id hid).2

end Known
end Workspace
