import Reframe.Lib.Run
import Reframe.Memory.Publication

/-! The outbox and the memory graph agree, whatever the publishers do at the same time and wherever
they fail: a manifest has one node, under the id that follows from it, and no other id is ever
recorded for it. -/
namespace Publication

/-- What tells memories apart before their ids are hashed. -/
inductive Locator where
  | directory (path : String)
  | checkpoint (path manifestId : String)
  deriving DecidableEq

section

variable (host : Host) (store : String) (locators : Set Locator)

def locatorId : Locator → String
  | .directory path => scopedMemoryId host "directory" [path]
  | .checkpoint path manifestId => scopedMemoryId host "checkpoint" [path, manifestId]

def locator : FilesystemMemory → Locator
  | .directory _ _ sourcePath _ => .directory (host.canonicalPath sourcePath)
  | .checkpoint _ _ backingStore manifestId _ =>
    .checkpoint (host.canonicalPath backingStore) manifestId

/-- The id of the node of a manifest. -/
def manifestNodeId (manifestId : String) : String :=
  filesystemCheckpointMemoryId host store manifestId

/-- The locator of a manifest of the store. -/
def ownLocator (manifestId : String) : Locator := .checkpoint (host.canonicalPath store) manifestId

/-- The memories of others are not checkpoints of this store, and all are among those whose ids do
not collide. -/
def Allowed : Action → Prop
  | .publishOther memory _ _ =>
    locator host memory ∈ locators ∧
      ∀ manifestId, locator host memory ≠ ownLocator host store manifestId
  | .commitCheckpoint _ manifestId _ _ => ownLocator host store manifestId ∈ locators
  | _ => True

/-- A publication of a manifest that was committed, with the memories of its session. -/
def Ours (w : World) (publication : CheckpointPublication) : Prop :=
  publication.backingStore = store ∧
    w.manifests.get? publication.manifestId = some publication.baseMemoryIds

/-- A memory is published for a manifest of the store only with the memories of its session. -/
def Faithful (w : World) (memory : FilesystemMemory) : Prop :=
  ∀ manifestId, locator host memory = ownLocator host store manifestId →
    ∃ baseMemoryIds, w.manifests.get? manifestId = some baseMemoryIds ∧
      persistentIdentity host memory =
        .checkpoint (host.canonicalPath store) manifestId baseMemoryIds

/-- The node of a manifest, as a publisher has it. -/
def NodeOf (publication : CheckpointPublication) (node : FilesystemMemoryNode) : Prop :=
  node.id = manifestNodeId host store publication.manifestId ∧
    persistentIdentity host node.content =
      persistentIdentity host (checkpointMemory publication)

/-- The publication is the one that the job is about. -/
def JobOf (publication : CheckpointPublication) : Job → Prop
  | .publishManifest manifestId => publication.manifestId = manifestId
  | .publishExternal publication' => publication = publication'
  | .reconcile _ => True

/-- The row of a manifest is published, or was pruned. -/
def Completed (w : World) (manifestId : String) : Prop :=
  ∀ row, w.outbox.get? manifestId = some row → row.state = .published

/-- The world after the row of a manifest is published. -/
def completed (w : World) (manifestId : String) (row : OutboxRow) (now : ℕ) : World :=
  { w with
    outbox := w.outbox.insert manifestId
      { row with
        state := .published
        memoryId := some (manifestNodeId host store manifestId)
        publishedAt := some now } }

/-- What a publisher knows at its stage. -/
def StageInv (w : World) (job : Job) : Stage → Prop
  | .start => ∀ publication, job = .publishExternal publication → Ours store w publication
  | .publish publication rest =>
    JobOf publication job ∧ Ours store w publication ∧ (∀ p ∈ rest, Ours store w p)
  | .fetch publication rest =>
    JobOf publication job ∧ Ours store w publication ∧ (∀ p ∈ rest, Ours store w p) ∧
      (w.nodes.get? (manifestNodeId host store publication.manifestId)).isSome
  | .complete publication node rest =>
    JobOf publication job ∧ Ours store w publication ∧ (∀ p ∈ rest, Ours store w p) ∧
      (w.nodes.get? (manifestNodeId host store publication.manifestId)).isSome ∧
      NodeOf host store publication node
  | .returned node => ∃ publication, JobOf publication job ∧ Ours store w publication ∧
    NodeOf host store publication node ∧
    ∀ manifestId, job = .publishManifest manifestId → Completed w manifestId
  | .raised error => error = .missing ∨ error = .failed ∨
    ∃ manifestId, error = .completion ("unknown checkpoint publication: " ++ manifestId)
  | .reconciled | .lost => True

structure RowInv (w : World) (manifestId : String) (row : OutboxRow) : Prop where
  manifest : w.manifests.get? manifestId = some row.baseMemoryIds
  pending : row.state = .pending → row.memoryId = none
  published : row.state = .published → row.memoryId = some (manifestNodeId host store manifestId) ∧
    (w.nodes.get? (manifestNodeId host store manifestId)).isSome

structure RecordInv (w : World) (id : String) (record : NodeRecord) : Prop where
  id : id = memoryId host record.content
  known : locator host record.content ∈ locators
  identity : record.filesystemIdentity = some (persistentIdentity host record.content)
  faithful : Faithful host store w record.content

structure Inv (w : World) : Prop where
  rows : ∀ manifestId row, w.outbox.get? manifestId = some row → RowInv host store w manifestId row
  heads : ∀ sessionId workspace manifestId, w.workspaces.get? sessionId = some workspace →
    workspace.headManifest = some manifestId →
    w.manifests.get? manifestId = some workspace.memoryIds
  known : ∀ manifestId, (w.manifests.get? manifestId).isSome →
    ownLocator host store manifestId ∈ locators
  nodes : ∀ id record, w.nodes.get? id = some record → RecordInv host store locators w id record
  edges : ∀ id, w.edges.count (filesystemMemoriesRootId, id) =
    if (w.nodes.get? id).isSome then 1 else 0
  publishers : ∀ publisher ∈ w.publishers, StageInv host store w publisher.job publisher.stage

end

section

variable {host : Host} {store : String} {locators : Set Locator} {w w' : World}

theorem memoryId_eq (memory : FilesystemMemory) :
    memoryId host memory = locatorId host (locator host memory) := by
  cases memory <;> rfl

theorem manifestNodeId_eq (manifestId : String) :
    manifestNodeId host store manifestId = locatorId host (ownLocator host store manifestId) := rfl

theorem Ours.locator {publication : CheckpointPublication} (h : Ours store w publication) :
    Publication.locator host (checkpointMemory publication) =
      ownLocator host store publication.manifestId := by
  rw [checkpointMemory, Publication.locator, h.1, ownLocator]

theorem Ours.memoryId {publication : CheckpointPublication} (h : Ours store w publication) :
    Publication.memoryId host (checkpointMemory publication) =
      manifestNodeId host store publication.manifestId := by
  rw [memoryId_eq, h.locator, manifestNodeId_eq]

theorem Ours.identity {publication : CheckpointPublication} (h : Ours store w publication) :
    persistentIdentity host (checkpointMemory publication) = .checkpoint (host.canonicalPath store)
      publication.manifestId publication.baseMemoryIds := by
  rw [checkpointMemory, persistentIdentity, h.1]

theorem Ours.faithful {publication : CheckpointPublication} (h : Ours store w publication) :
    Faithful host store w (checkpointMemory publication) := by
  intro manifestId hlocator
  rw [h.locator, ownLocator, ownLocator, Locator.checkpoint.injEq] at hlocator
  obtain ⟨-, rfl⟩ := hlocator
  exact ⟨publication.baseMemoryIds, h.2, h.identity⟩

/-- What is kept of a world: manifests and nodes stay, and what is published stays so. -/
structure Grows (w w' : World) : Prop where
  manifests : ∀ manifestId baseMemoryIds, w.manifests.get? manifestId = some baseMemoryIds →
    w'.manifests.get? manifestId = some baseMemoryIds
  nodes : ∀ id, (w.nodes.get? id).isSome → (w'.nodes.get? id).isSome
  completed : ∀ manifestId, (w.manifests.get? manifestId).isSome → Completed w manifestId →
    Completed w' manifestId

theorem Grows.refl (w : World) : Grows w w := ⟨fun _ _ h => h, fun _ h => h, fun _ _ h => h⟩

theorem Ours.grows {publication : CheckpointPublication} (h : Ours store w publication)
    (hgrows : Grows w w') : Ours store w' publication := ⟨h.1, hgrows.manifests _ _ h.2⟩

theorem Faithful.grows {memory : FilesystemMemory} (h : Faithful host store w memory)
    (hgrows : Grows w w') : Faithful host store w' memory := by
  intro manifestId hlocator
  obtain ⟨baseMemoryIds, hmanifest, hidentity⟩ := h manifestId hlocator
  exact ⟨baseMemoryIds, hgrows.manifests _ _ hmanifest, hidentity⟩

theorem StageInv.grows {job : Job} {stage : Stage} (h : StageInv host store w job stage)
    (hgrows : Grows w w') : StageInv host store w' job stage := by
  cases stage with
  | start => exact fun publication hjob => (h publication hjob).grows hgrows
  | publish publication rest =>
    obtain ⟨hjob, hours, hrest⟩ := h
    exact ⟨hjob, hours.grows hgrows, fun p hp => (hrest p hp).grows hgrows⟩
  | fetch publication rest =>
    obtain ⟨hjob, hours, hrest, hsome⟩ := h
    exact ⟨hjob, hours.grows hgrows, fun p hp => (hrest p hp).grows hgrows, hgrows.nodes _ hsome⟩
  | complete publication node rest =>
    obtain ⟨hjob, hours, hrest, hsome, hnode⟩ := h
    exact ⟨hjob, hours.grows hgrows, fun p hp => (hrest p hp).grows hgrows, hgrows.nodes _ hsome,
      hnode⟩
  | returned node =>
    obtain ⟨publication, hjob, hours, hnode, hcompleted⟩ := h
    refine ⟨publication, hjob, hours.grows hgrows, hnode, ?_⟩
    rintro manifestId rfl
    refine hgrows.completed manifestId ?_ (hcompleted manifestId rfl)
    rw [← show publication.manifestId = manifestId from hjob, hours.2]
    rfl
  | raised error => exact h
  | reconciled => trivial
  | lost => trivial

theorem RowInv.grows {manifestId : String} {row : OutboxRow}
    (h : RowInv host store w manifestId row) (hgrows : Grows w w') :
    RowInv host store w' manifestId row :=
  ⟨hgrows.manifests _ _ h.manifest, h.pending, fun hstate =>
    ⟨(h.published hstate).1, hgrows.nodes _ (h.published hstate).2⟩⟩

theorem RecordInv.grows {id : String} {record : NodeRecord}
    (h : RecordInv host store locators w id record) (hgrows : Grows w w') :
    RecordInv host store locators w' id record :=
  ⟨h.id, h.known, h.identity, h.faithful.grows hgrows⟩

/-! The graph transaction. -/

/-- The record that is there for a memory has its identity. -/
theorem Inv.existing (h : Inv host store locators w) (hinj : Set.InjOn (locatorId host) locators)
    {memory : FilesystemMemory} (hknown : locator host memory ∈ locators) {record : NodeRecord}
    (hrecord : w.nodes.get? (memoryId host memory) = some record) :
    locator host record.content = locator host memory := by
  have hinv := h.nodes _ _ hrecord
  refine hinj hinv.known hknown ?_
  rw [← memoryId_eq, ← memoryId_eq]
  exact hinv.id.symm

/-- A checkpoint of the store has the memories of its session as its identity. -/
theorem identity_eq {memory memory' : FilesystemMemory}
    (hlocator : locator host memory = locator host memory')
    (hfaithful : Faithful host store w memory) (hfaithful' : Faithful host store w memory')
    {manifestId : String} (hown : locator host memory = ownLocator host store manifestId) :
    persistentIdentity host memory = persistentIdentity host memory' := by
  obtain ⟨baseMemoryIds, hmanifest, hidentity⟩ := hfaithful manifestId hown
  obtain ⟨baseMemoryIds', hmanifest', hidentity'⟩ := hfaithful' manifestId (hlocator ▸ hown)
  rw [hidentity, hidentity', Option.some.inj (hmanifest.symm.trans hmanifest')]

variable (host) in
/-- What the transaction leaves: the graph as it was, or the record of the memory with its edge. -/
theorem publish_cases (w : World) (memory : FilesystemMemory) (tags : List String) (now : ℕ) :
    (publishFilesystemMemory host w memory tags now = w ∧
      (w.nodes.get? (memoryId host memory)).isSome) ∨
    ∃ record : NodeRecord, record.content = memory ∧
      record.filesystemIdentity = some (persistentIdentity host memory) ∧
      publishFilesystemMemory host w memory tags now = { w with
        nodes := w.nodes.insert (memoryId host memory) record
        edges := w.edges.filter (· ≠ (filesystemMemoriesRootId, memoryId host memory)) ++
          [(filesystemMemoriesRootId, memoryId host memory)] } := by
  rw [publishFilesystemMemory]
  split_ifs with hconflict
  · refine .inl ⟨rfl, ?_⟩
    cases hexisting : w.nodes.get? (memoryId host memory) with
    | none =>
      rw [hexisting] at hconflict
      cases hconflict
    | some record => rfl
  · exact .inr ⟨_, rfl, rfl, rfl⟩

variable (host w) in
theorem publish_grows (memory : FilesystemMemory) (tags : List String) (now : ℕ) :
    Grows w (publishFilesystemMemory host w memory tags now) := by
  rcases publish_cases host w memory tags now with ⟨heq, -⟩ | ⟨record, -, -, heq⟩
  · rw [heq]
    exact .refl w
  · rw [heq]
    refine ⟨fun _ _ h => h, fun id hsome => ?_, fun _ _ h => h⟩
    change ((w.nodes.insert _ _).get? id).isSome = true
    rw [FiniteMap.get?_insert]
    split_ifs
    · rfl
    · exact hsome

variable (host w) in
/-- After it there is a record for the memory. -/
theorem publish_isSome (memory : FilesystemMemory) (tags : List String) (now : ℕ) :
    ((publishFilesystemMemory host w memory tags now).nodes.get?
      (memoryId host memory)).isSome := by
  rcases publish_cases host w memory tags now with ⟨heq, hsome⟩ | ⟨record, -, -, heq⟩
  · rw [heq]
    exact hsome
  · rw [heq]
    change ((w.nodes.insert _ _).get? _).isSome = true
    rw [FiniteMap.get?_insert_self]
    rfl

theorem count_relinked (edges : List (String × String)) (id id' : String) :
    (edges.filter (· ≠ (filesystemMemoriesRootId, id)) ++ [(filesystemMemoriesRootId, id)]).count
      (filesystemMemoriesRootId, id') =
      if id' = id then 1 else edges.count (filesystemMemoriesRootId, id') := by
  rw [List.count_append]
  split_ifs with hid
  · subst hid
    have hnone : (edges.filter (· ≠ (filesystemMemoriesRootId, id'))).count
        (filesystemMemoriesRootId, id') = 0 :=
      List.count_eq_zero.mpr fun hmem => of_decide_eq_true (List.mem_filter.mp hmem).2 rfl
    rw [hnone, List.count_singleton_self]
  · have hne : (filesystemMemoriesRootId, id') ≠ (filesystemMemoriesRootId, id) := fun heq =>
      hid (Prod.mk.inj heq).2
    have hkept : (edges.filter (· ≠ (filesystemMemoriesRootId, id))).count
        (filesystemMemoriesRootId, id') = edges.count (filesystemMemoriesRootId, id') :=
      List.count_filter (decide_eq_true hne)
    rw [hkept, List.count_eq_zero.mpr fun hmem => hne (List.mem_singleton.mp hmem), Nat.add_zero]

theorem Inv.publish (h : Inv host store locators w) {memory : FilesystemMemory}
    (hknown : locator host memory ∈ locators) (hfaithful : Faithful host store w memory)
    (tags : List String) (now : ℕ) :
    Inv host store locators (publishFilesystemMemory host w memory tags now) := by
  have hgrows := publish_grows host w memory tags now
  rcases publish_cases host w memory tags now with ⟨heq, -⟩ | ⟨record, hcontent, hidentity, heq⟩
  · rwa [heq]
  · rw [heq] at hgrows ⊢
    refine ⟨fun manifestId row hrow => (h.rows _ _ hrow).grows hgrows, h.heads, h.known,
      fun id record' hrecord => ?_, fun id => ?_, fun publisher hmem =>
        (h.publishers publisher hmem).grows hgrows⟩
    · change (w.nodes.insert _ _).get? id = _ at hrecord
      rw [FiniteMap.get?_insert] at hrecord
      split_ifs at hrecord with hid
      · cases hrecord
        refine ⟨?_, ?_, ?_, ?_⟩
        · rw [hcontent, hid]
        · rwa [hcontent]
        · rw [hidentity, hcontent]
        · rw [hcontent]
          exact hfaithful.grows hgrows
      · exact (h.nodes _ _ hrecord).grows hgrows
    · change (w.edges.filter _ ++ _).count _ =
        if ((w.nodes.insert _ _).get? id).isSome then 1 else 0
      rw [count_relinked, FiniteMap.get?_insert]
      by_cases hid : id = memoryId host memory
      · rw [if_pos hid, if_pos hid]
        rfl
      · rw [if_neg hid, if_neg hid]
        exact h.edges id

/-- What a publisher reads after the transaction is the node of its manifest. -/
theorem Inv.publishedNode (h : Inv host store locators w)
    (hinj : Set.InjOn (locatorId host) locators) {publication : CheckpointPublication}
    (hours : Ours store w publication)
    (hsome : (w.nodes.get? (manifestNodeId host store publication.manifestId)).isSome) :
    ∃ node, publishedNode host w (checkpointMemory publication) = .ok node ∧
      NodeOf host store publication node := by
  obtain ⟨record, hrecord⟩ := Option.isSome_iff_exists.mp hsome
  rw [← hours.memoryId] at hrecord
  have hknown : locator host (checkpointMemory publication) ∈ locators := by
    rw [hours.locator]
    exact h.known _ (by rw [hours.2]; rfl)
  have hlocator := h.existing hinj hknown hrecord
  have hidentity := identity_eq hlocator (h.nodes _ _ hrecord).faithful hours.faithful
    (hlocator.trans hours.locator)
  refine ⟨⟨record, memoryId host (checkpointMemory publication)⟩, ?_, hours.memoryId, hidentity⟩
  rw [Publication.publishedNode, hrecord]
  dsimp only
  rw [if_neg fun hne => hne hidentity]

/-! The completion. -/

theorem validateMemoryId_manifestNodeId (manifestId : String) :
    validateMemoryId (manifestNodeId host store manifestId) = .ok () := by
  have hkind : ("memory_node:filesystem_" ++ "checkpoint" ++ "_").utf8ByteSize = 34 := by
    decide +kernel
  have hsize : (manifestNodeId host store manifestId).utf8ByteSize = 34 + 64 :=
    String.utf8ByteSize_append.trans (congrArg₂ (· + ·) hkind (host.digest_size _))
  rw [validateMemoryId, if_neg]
  rintro (hempty | hlarge)
  · rw [String.isEmpty_iff] at hempty
    rw [hempty] at hsize
    cases hsize
  · omega

/-- The completion of a publisher: it is recorded, was recorded, or its row is gone. -/
theorem markPublished_cases (h : Inv host store locators w) (manifestId : String) (now : ℕ) :
    (w.outbox.get? manifestId = none ∧
      markPublished w manifestId (manifestNodeId host store manifestId) now =
        .error ("unknown checkpoint publication: " ++ manifestId)) ∨
    ∃ row, w.outbox.get? manifestId = some row ∧
      ((row.state = .published ∧
        markPublished w manifestId (manifestNodeId host store manifestId) now = .ok w) ∨
      markPublished w manifestId (manifestNodeId host store manifestId) now =
        .ok (completed host store w manifestId row now)) := by
  rw [markPublished, validateMemoryId_manifestNodeId]
  cases hrow : w.outbox.get? manifestId with
  | none => exact .inl ⟨rfl, rfl⟩
  | some row =>
    refine .inr ⟨row, rfl, ?_⟩
    cases hstate : row.state with
    | pending => exact .inr (if_pos hstate)
    | published =>
      refine .inl ⟨rfl, ?_⟩
      have hid := ((h.rows _ _ hrow).published hstate).1
      change (if row.state = .pending then _ else if row.memoryId = _ then _ else _) = _
      rw [if_neg (by rw [hstate]; decide), if_pos hid]

theorem completed_get {manifestId manifestId' : String} {row row' : OutboxRow} {now : ℕ}
    (hrow : (completed host store w manifestId row now).outbox.get? manifestId' = some row') :
    (manifestId' = manifestId ∧ row' = { row with
      state := .published
      memoryId := some (manifestNodeId host store manifestId)
      publishedAt := some now }) ∨ w.outbox.get? manifestId' = some row' := by
  change (w.outbox.insert _ _).get? manifestId' = _ at hrow
  rw [FiniteMap.get?_insert] at hrow
  split_ifs at hrow with hid
  · exact .inl ⟨hid, (Option.some.inj hrow).symm⟩
  · exact .inr hrow

variable (host store w) in
theorem completed_grows (manifestId : String) (row : OutboxRow) (now : ℕ) :
    Grows w (completed host store w manifestId row now) := by
  refine ⟨fun _ _ h => h, fun _ h => h, fun other _ hcompleted row' hrow => ?_⟩
  rcases completed_get hrow with ⟨-, rfl⟩ | hrow
  · rfl
  · exact hcompleted row' hrow

theorem completed_completed (manifestId : String) (row : OutboxRow) (now : ℕ) :
    Completed (completed host store w manifestId row now) manifestId := by
  intro row' hrow
  rw [completed, FiniteMap.get?_insert_self] at hrow
  cases hrow
  rfl

theorem Inv.complete (h : Inv host store locators w) {manifestId : String}
    (hsome : (w.nodes.get? (manifestNodeId host store manifestId)).isSome) {row : OutboxRow}
    (hrow : w.outbox.get? manifestId = some row) (now : ℕ) :
    Inv host store locators (completed host store w manifestId row now) := by
  have hgrows := completed_grows host store w manifestId row now
  refine ⟨fun manifestId' row' hrow' => ?_, h.heads, h.known,
    fun id record hrecord => (h.nodes id record hrecord).grows hgrows, h.edges,
    fun publisher hmem => (h.publishers publisher hmem).grows hgrows⟩
  rcases completed_get hrow' with ⟨rfl, rfl⟩ | hrow'
  · exact ⟨(h.rows _ _ hrow).manifest, fun hno => (by cases hno), fun _ => ⟨rfl, hsome⟩⟩
  · exact (h.rows _ _ hrow').grows hgrows

/-! One step of a publisher. -/

theorem nextStage_inv {strict : Bool} {rest : List CheckpointPublication}
    (hrest : ∀ p ∈ rest, Ours store w p) :
    StageInv host store w (.reconcile strict) (nextStage rest) := by
  cases rest with
  | nil => trivial
  | cons publication rest => exact ⟨trivial, List.forall_mem_cons.mp hrest⟩

theorem afterError_inv {job : Job} {rest : List CheckpointPublication} {error : PublishError}
    (hrest : ∀ p ∈ rest, Ours store w p) (herror : StageInv host store w job (.raised error)) :
    StageInv host store w job (afterError job rest error) := by
  cases job with
  | publishManifest => exact herror
  | publishExternal => exact herror
  | reconcile strict =>
    cases strict with
    | true => exact herror
    | false => exact nextStage_inv hrest

/-- The pending rows are publications of manifests. -/
theorem Inv.pending (h : Inv host store locators w) {entry : String × OutboxRow}
    (hmem : entry ∈ pendingCheckpointPublications w) :
    Ours store w (outboxPublication store entry) := by
  obtain ⟨hmem, -⟩ := List.mem_filter.mp (List.mem_mergeSort.mp hmem)
  exact ⟨rfl, (h.rows entry.1 entry.2 (FiniteMap.mem_toList.mp hmem)).manifest⟩

theorem Inv.startStage (h : Inv host store locators w) (job : Job)
    (hexternal : ∀ publication, job = .publishExternal publication → Ours store w publication) :
    StageInv host store w job (startStage store w job) := by
  cases job with
  | publishManifest manifestId =>
    rw [Publication.startStage]
    split
    · rename_i entry hfind
      have hid : entry.1 = manifestId := by simpa using List.find?_some hfind
      exact ⟨hid, h.pending (List.mem_of_find?_eq_some hfind),
        fun _ hp => absurd hp List.not_mem_nil⟩
    · exact .inl rfl
  | publishExternal publication =>
    exact ⟨rfl, hexternal publication rfl, fun _ hp => absurd hp List.not_mem_nil⟩
  | reconcile strict =>
    refine nextStage_inv fun publication hp => ?_
    obtain ⟨entry, hentry, rfl⟩ := List.mem_map.mp hp
    exact h.pending hentry

theorem Inv.advance (h : Inv host store locators w) (hinj : Set.InjOn (locatorId host) locators)
    {publisher : Publisher} (hstage : StageInv host store w publisher.job publisher.stage)
    (now : ℕ) :
    Inv host store locators (advance host store w publisher now).1 ∧
      Grows w (advance host store w publisher now).1 ∧
      StageInv host store (advance host store w publisher now).1 publisher.job
        (advance host store w publisher now).2 := by
  obtain ⟨job, stage⟩ := publisher
  cases stage with
  | start => exact ⟨h, .refl w, h.startStage job hstage⟩
  | publish publication rest =>
    obtain ⟨hjob, hours, hrest⟩ := hstage
    have hgrows := publish_grows host w (checkpointMemory publication) checkpointTags now
    have hknown : locator host (checkpointMemory publication) ∈ locators := by
      rw [hours.locator]
      exact h.known _ (by rw [hours.2]; rfl)
    have hsome := publish_isSome host w (checkpointMemory publication) checkpointTags now
    rw [hours.memoryId] at hsome
    exact ⟨h.publish hknown hours.faithful _ _, hgrows, hjob, hours.grows hgrows,
      fun p hp => (hrest p hp).grows hgrows, hsome⟩
  | fetch publication rest =>
    obtain ⟨hjob, hours, hrest, hsome⟩ := hstage
    obtain ⟨node, hnode, hof⟩ := h.publishedNode hinj hours hsome
    rw [Publication.advance]
    dsimp only
    rw [hnode]
    cases job with
    | publishManifest => exact ⟨h, .refl w, hjob, hours, hrest, hsome, hof⟩
    | publishExternal =>
      exact ⟨h, .refl w, publication, hjob, hours, hof, fun _ hno => (by cases hno)⟩
    | reconcile => exact ⟨h, .refl w, hjob, hours, hrest, hsome, hof⟩
  | complete publication node rest =>
    obtain ⟨hjob, hours, hrest, hsome, hof⟩ := hstage
    rw [Publication.advance]
    dsimp only
    rw [hof.1]
    rcases markPublished_cases h publication.manifestId now with
      ⟨-, hmark⟩ | ⟨row, hrow, ⟨hstate, hmark⟩ | hmark⟩
    · rw [hmark]
      exact ⟨h, .refl w, afterError_inv hrest (.inr (.inr ⟨_, rfl⟩))⟩
    · rw [hmark]
      cases job with
      | reconcile => exact ⟨h, .refl w, nextStage_inv hrest⟩
      | publishManifest =>
        refine ⟨h, .refl w, publication, hjob, hours, hof, fun _ hid row' hrow' => ?_⟩
        cases hid
        rw [← hjob, hrow] at hrow'
        cases hrow'
        exact hstate
      | publishExternal =>
        exact ⟨h, .refl w, publication, hjob, hours, hof, fun _ hno => (by cases hno)⟩
    · rw [hmark]
      have hgrows := completed_grows host store w
        publication.manifestId row now
      have hcomplete := h.complete hsome hrow now
      cases job with
      | reconcile => exact ⟨hcomplete, hgrows, nextStage_inv fun p hp => (hrest p hp).grows hgrows⟩
      | publishManifest =>
        refine ⟨hcomplete, hgrows, publication, hjob, hours.grows hgrows, hof, fun _ hid => ?_⟩
        cases hid
        rw [← show publication.manifestId = _ from hjob]
        exact completed_completed publication.manifestId row now
      | publishExternal =>
        exact ⟨hcomplete, hgrows, publication, hjob, hours.grows hgrows, hof,
          fun _ hno => (by cases hno)⟩
  | returned node => exact ⟨h, .refl w, hstage⟩
  | reconciled => exact ⟨h, .refl w, hstage⟩
  | raised error => exact ⟨h, .refl w, hstage⟩
  | lost => exact ⟨h, .refl w, hstage⟩

theorem failedStage_inv {publisher : Publisher}
    (hstage : StageInv host store w publisher.job publisher.stage) :
    StageInv host store w publisher.job (failedStage publisher) := by
  obtain ⟨job, stage⟩ := publisher
  have hfailed : StageInv host store w job (.raised .failed) := .inr (.inl rfl)
  cases stage with
  | start =>
    cases job with
    | reconcile strict =>
      cases strict with
      | true => exact hfailed
      | false => trivial
    | publishManifest => exact hfailed
    | publishExternal => exact hfailed
  | publish publication rest => exact afterError_inv hstage.2.2 hfailed
  | fetch publication rest => exact afterError_inv hstage.2.2.1 hfailed
  | complete publication node rest => exact afterError_inv hstage.2.2.1 hfailed
  | returned node => exact hstage
  | reconciled => exact hstage
  | raised error => exact hstage
  | lost => exact hstage

/-! Every run. -/

theorem Inv.moved (h : Inv host store locators w) {i : ℕ} {publisher : Publisher} {stage : Stage}
    (hstage : StageInv host store w publisher.job stage) :
    Inv host store locators (w.moved i publisher stage) := by
  have hgrows : Grows w (w.moved i publisher stage) :=
    ⟨fun _ _ h => h, fun _ h => h, fun _ _ h => h⟩
  refine ⟨fun m row hrow => (h.rows m row hrow).grows hgrows, h.heads, h.known,
    fun id record hrecord => (h.nodes id record hrecord).grows hgrows, h.edges, fun p hmem => ?_⟩
  rcases List.mem_or_eq_of_mem_set hmem with hmem | rfl
  · exact (h.publishers p hmem).grows hgrows
  · exact hstage.grows hgrows

theorem Inv.spawn (h : Inv host store locators w) {job : Job}
    (hexternal : ∀ publication, job = .publishExternal publication → Ours store w publication) :
    Inv host store locators (w.spawn job) := by
  have hgrows : Grows w (w.spawn job) := ⟨fun _ _ h => h, fun _ h => h, fun _ _ h => h⟩
  refine ⟨fun m row hrow => (h.rows m row hrow).grows hgrows, h.heads, h.known,
    fun id record hrecord => (h.nodes id record hrecord).grows hgrows, h.edges, fun p hmem => ?_⟩
  rcases List.mem_append.mp hmem with hmem | hmem
  · exact (h.publishers p hmem).grows hgrows
  · rw [List.mem_singleton.mp hmem]
    exact fun publication hjob => (hexternal publication hjob).grows hgrows

theorem inv_initial : Inv host store locators .initial :=
  ⟨fun _ _ h => (by cases h), fun _ _ _ h => (by cases h), fun _ h => (by cases h),
    fun _ _ h => (by cases h), fun _ => rfl, fun _ h => absurd h List.not_mem_nil⟩

theorem Inv.commit (h : Inv host store locators w) {manifestId : String} (sessionId : String)
    (workspace : Workspace) (hfresh : w.manifests.get? manifestId = none)
    (hknown : ownLocator host store manifestId ∈ locators)
    (retainedCount now : ℕ) :
    Inv host store locators { w with
      workspaces := w.workspaces.insert sessionId { workspace with headManifest := some manifestId }
      manifests := w.manifests.insert manifestId workspace.memoryIds
      outbox := w.outbox.insert manifestId ⟨sessionId, workspace.name, workspace.memoryIds,
        retainedCount, .pending, none, now, none⟩ } := by
  have hgrows : Grows w { w with
      workspaces := w.workspaces.insert sessionId { workspace with headManifest := some manifestId }
      manifests := w.manifests.insert manifestId workspace.memoryIds
      outbox := w.outbox.insert manifestId ⟨sessionId, workspace.name, workspace.memoryIds,
        retainedCount, .pending, none, now, none⟩ } := by
    have hne : ∀ {other}, (w.manifests.get? other).isSome → other ≠ manifestId := by
      intro other hsome heq
      rw [heq, hfresh] at hsome
      cases hsome
    refine ⟨fun other baseMemoryIds hother => ?_, fun _ h => h,
      fun other hsome hcompleted row hrow => ?_⟩
    · exact (FiniteMap.get?_insert_ne _ (hne (by rw [hother]; rfl)) _).trans hother
    · exact hcompleted row ((FiniteMap.get?_insert_ne _ (hne hsome) _).symm.trans hrow)
  refine ⟨fun other row hrow => ?_, fun session head other hsession hhead => ?_,
    fun other hsome => ?_,
    fun id record hrecord => (h.nodes id record hrecord).grows hgrows, h.edges,
    fun publisher hmem => (h.publishers publisher hmem).grows hgrows⟩
  · change (w.outbox.insert _ _).get? other = _ at hrow
    rw [FiniteMap.get?_insert] at hrow
    split_ifs at hrow with hid
    · cases hrow
      subst hid
      exact ⟨FiniteMap.get?_insert_self _ _ _, fun _ => rfl, fun hno => (by cases hno)⟩
    · exact (h.rows _ _ hrow).grows hgrows
  · change (w.workspaces.insert _ _).get? session = _ at hsession
    rw [FiniteMap.get?_insert] at hsession
    split_ifs at hsession with hid
    · cases hsession
      cases hhead
      exact FiniteMap.get?_insert_self _ _ _
    · exact hgrows.manifests _ _ (h.heads _ _ _ hsession hhead)
  · change ((w.manifests.insert _ _).get? other).isSome = true at hsome
    rw [FiniteMap.get?_insert] at hsome
    split_ifs at hsome with hid
    · rwa [hid]
    · exact h.known other hsome

theorem Inv.step (hinj : Set.InjOn (locatorId host) locators) (w : World) (action : Action)
    (hallowed : Allowed host store locators action) (h : Inv host store locators w) :
    Inv host store locators (w.step host store action) := by
  cases action with
  | createWorkspace sessionId name memoryIds =>
    rw [World.step]
    split
    · exact h
    · have hgrows : Grows w { w with
          workspaces := w.workspaces.insert sessionId ⟨name, memoryIds, none⟩ } :=
        ⟨fun _ _ h => h, fun _ h => h, fun _ _ h => h⟩
      refine ⟨fun m row hrow => (h.rows m row hrow).grows hgrows,
        fun session head m hsession hhead => ?_, h.known,
        fun id record hrecord => (h.nodes id record hrecord).grows hgrows, h.edges,
        fun publisher hmem => (h.publishers publisher hmem).grows hgrows⟩
      change (w.workspaces.insert _ _).get? session = _ at hsession
      rw [FiniteMap.get?_insert] at hsession
      split_ifs at hsession
      · cases hsession
        cases hhead
      · exact h.heads _ _ _ hsession hhead
  | destroyWorkspace sessionId =>
    have hgrows : Grows w { w with workspaces := w.workspaces.erase sessionId } :=
      ⟨fun _ _ h => h, fun _ h => h, fun _ _ h => h⟩
    exact ⟨fun m row hrow => (h.rows m row hrow).grows hgrows,
      fun session head m hsession hhead =>
        h.heads _ _ _ (FiniteMap.get?_erase_some hsession).2 hhead,
      h.known,
        fun id record hrecord => (h.nodes id record hrecord).grows hgrows, h.edges,
      fun publisher hmem => (h.publishers publisher hmem).grows hgrows⟩
  | commitCheckpoint sessionId manifestId retainedCount now =>
    rw [World.step]
    split
    · rename_i workspace _ hfresh
      exact h.commit sessionId workspace hfresh hallowed retainedCount now
    · exact h
  | pruneProtocolHistory cutoff =>
    rw [World.step]
    have hgrows : Grows w { w with
        outbox := w.outbox.retain fun _ row =>
          !(row.state = .published &&
            row.publishedAt.any fun time => decide (time < cutoff)) } := by
      refine ⟨fun _ _ h => h, fun _ h => h, fun m _ hcompleted row hrow => hcompleted row ?_⟩
      change (w.outbox.retain _).get? m = _ at hrow
      rw [FiniteMap.get?_retain] at hrow
      exact (Option.filter_eq_some_iff.mp hrow).1
    refine ⟨fun m row hrow => ?_, h.heads, h.known,
      fun id record hrecord => (h.nodes id record hrecord).grows hgrows, h.edges,
      fun publisher hmem => (h.publishers publisher hmem).grows hgrows⟩
    change (w.outbox.retain _).get? m = _ at hrow
    rw [FiniteMap.get?_retain] at hrow
    exact (h.rows m row (Option.filter_eq_some_iff.mp hrow).1).grows hgrows
  | publishManifest manifestId => exact h.spawn fun _ hno => (by cases hno)
  | continueTarget sessionId =>
    rw [World.step]
    split
    · rename_i workspace hworkspace
      split
      · rename_i manifestId hhead
        refine h.spawn fun publication hjob => ?_
        cases hjob
        exact ⟨rfl, h.heads _ _ _ hworkspace hhead⟩
      · exact h
    · exact h
  | reconcile strict => exact h.spawn fun _ hno => (by cases hno)
  | step i now =>
    rw [World.step]
    split
    · rename_i publisher hget
      obtain ⟨hadvance, -, hstage⟩ :=
        h.advance hinj (h.publishers publisher (List.mem_of_getElem? hget)) now
      exact hadvance.moved hstage
    · exact h
  | fail i applied now =>
    rw [World.step]
    split
    · rename_i publisher hget
      have hbefore := h.publishers publisher (List.mem_of_getElem? hget)
      obtain ⟨hadvance, hgrows, -⟩ := h.advance hinj hbefore now
      dsimp only
      split_ifs
      · exact hadvance.moved ((failedStage_inv hbefore).grows hgrows)
      · exact h.moved (failedStage_inv hbefore)
    · exact h
  | lose i =>
    rw [World.step]
    split
    · exact h.moved trivial
    · exact h
  | publishOther memory tags now =>
    exact h.publish hallowed.1 (fun manifestId hown => absurd hown (hallowed.2 manifestId)) tags now

theorem run_inv (hinj : Set.InjOn (locatorId host) locators) {actions : List Action}
    (hallowed : ∀ action ∈ actions, Allowed host store locators action) :
    Inv host store locators (World.run host store actions) :=
  Run.foldl_keeps_of_mem (Inv.step hinj) actions _ hallowed inv_initial

/-! A publisher that nothing disturbs. -/

variable (host store w) in
theorem advance_publishers (publisher : Publisher) (now : ℕ) :
    (advance host store w publisher now).1.publishers = w.publishers := by
  obtain ⟨job, stage⟩ := publisher
  cases stage with
  | publish publication rest =>
    change (publishFilesystemMemory host w _ _ now).publishers = _
    rcases publish_cases host w (checkpointMemory publication) checkpointTags now with
      ⟨heq, -⟩ | ⟨record, -, -, heq⟩
    · rw [heq]
    · rw [heq]
  | fetch publication rest =>
    rw [Publication.advance]
    dsimp only
    split <;> rfl
  | complete publication node rest =>
    have hmark : ∀ {w'}, markPublished w publication.manifestId node.id now = .ok w' →
        w'.publishers = w.publishers := by
      intro w' hok
      obtain ⟨-, -, hok⟩ := Run.bind_ok.mp hok
      split at hok
      · split_ifs at hok <;> cases hok <;> rfl
      · cases hok
    rw [Publication.advance]
    dsimp only
    split
    · rename_i hok
      exact hmark hok
    · rename_i hok _
      exact hmark hok
    · rfl
  | start | returned | reconciled | raised | lost => rfl

theorem step_get {i now : ℕ} {job : Job} {stage stage' : Stage}
    (hget : w.publishers[i]? = some ⟨job, stage⟩)
    (hadvance : advance host store w ⟨job, stage⟩ now = (w', stage')) :
    (w.step host store (.step i now)).publishers[i]? = some ⟨job, stage'⟩ ∧
      (w.step host store (.step i now)).outbox = w'.outbox := by
  have hpublishers := advance_publishers host store w ⟨job, stage⟩ now
  rw [World.step, hget]
  dsimp only
  rw [hadvance] at hpublishers ⊢
  refine ⟨?_, rfl⟩
  change (w'.publishers.set i _)[i]? = _
  rw [hpublishers]
  exact List.getElem?_set_self (List.getElem?_eq_some_iff.mp hget).1

variable (host) in
theorem publish_outbox (w : World) (memory : FilesystemMemory) (tags : List String) (now : ℕ) :
    (publishFilesystemMemory host w memory tags now).outbox = w.outbox := by
  rcases publish_cases host w memory tags now with ⟨heq, -⟩ | ⟨record, -, -, heq⟩
  · rw [heq]
  · rw [heq]

theorem startStage_pending {manifestId : String} {row : OutboxRow}
    (hrow : w.outbox.get? manifestId = some row) (hstate : row.state = .pending) :
    startStage store w (.publishManifest manifestId) =
      .publish (outboxPublication store (manifestId, row)) [] := by
  have hmem : (manifestId, row) ∈ pendingCheckpointPublications w :=
    List.mem_mergeSort.mpr (List.mem_filter.mpr
      ⟨FiniteMap.mem_toList.mpr hrow, decide_eq_true hstate⟩)
  rw [startStage]
  split
  · rename_i entry hfind
    have hid : entry.1 = manifestId := by simpa using List.find?_some hfind
    have hentry := List.mem_of_find?_eq_some hfind
    have hget := FiniteMap.mem_toList.mp (List.mem_filter.mp (List.mem_mergeSort.mp hentry)).1
    rw [hid, hrow] at hget
    obtain ⟨entryId, entryRow⟩ := entry
    cases hid
    cases hget
    rfl
  · rename_i hnone
    exact absurd (decide_eq_true rfl) (List.find?_eq_none.mp hnone _ hmem)

/-- Publisher `i` publishes a manifest from its first step to its last. -/
def publishing (manifestId : String) (i t₁ t₂ t₃ t₄ : ℕ) : List Action :=
  [.publishManifest manifestId, .step i t₁, .step i t₂, .step i t₃, .step i t₄]

theorem Inv.publishing (h : Inv host store locators w)
    (hinj : Set.InjOn (locatorId host) locators) {manifestId : String} {row : OutboxRow}
    (hrow : w.outbox.get? manifestId = some row) (hstate : row.state = .pending) {i : ℕ}
    (hi : w.publishers.length = i) (t₁ t₂ t₃ t₄ : ℕ) :
    ∃ w', (Publication.publishing manifestId i t₁ t₂ t₃ t₄).foldl (World.step host store) w = w' ∧
      ∃ node row', w'.publishers[i]? = some ⟨.publishManifest manifestId, .returned node⟩ ∧
        w'.outbox.get? manifestId = some row' ∧
        node.id = manifestNodeId host store manifestId ∧ row'.state = .published ∧
        row'.memoryId = some node.id := by
  refine ⟨_, rfl, ?_⟩
  rw [Publication.publishing, List.foldl_cons, List.foldl_cons, List.foldl_cons, List.foldl_cons,
    List.foldl_cons, List.foldl_nil]
  have h₀ := Inv.step hinj w (.publishManifest manifestId) trivial h
  have hget₀ : (w.step host store (.publishManifest manifestId)).publishers[i]? =
      some ⟨.publishManifest manifestId, .start⟩ := by
    rw [← hi]
    exact List.getElem?_concat_length
  have hrow₀ : (w.step host store (.publishManifest manifestId)).outbox.get? manifestId =
      some row := hrow
  generalize w.step host store (.publishManifest manifestId) = w₀ at h₀ hget₀ hrow₀ ⊢
  -- It reads the outbox.
  have h₁ := Inv.step hinj w₀ (.step i t₁) trivial h₀
  obtain ⟨hget₁, houtbox₁⟩ := step_get hget₀
    (show Publication.advance host store w₀ _ t₁ = _ from
      congrArg (Prod.mk w₀) (startStage_pending hrow₀ hstate))
  rw [← houtbox₁] at hrow₀
  generalize w₀.step host store (.step i t₁) = w₁ at h₁ hget₁ hrow₀ ⊢
  -- It writes the node.
  have h₂ := Inv.step hinj w₁ (.step i t₂) trivial h₁
  obtain ⟨hget₂, houtbox₂⟩ := step_get hget₁
    (show Publication.advance host store w₁ _ t₂ = _ from rfl)
  rw [← publish_outbox host _ _ checkpointTags t₂, ← houtbox₂] at hrow₀
  generalize w₁.step host store (.step i t₂) = w₂ at h₂ hget₂ hrow₀ ⊢
  -- It reads the node back.
  obtain ⟨hjob, hours, -, hsome⟩ := h₂.publishers _ (List.mem_of_getElem? hget₂)
  obtain ⟨node, hnode, hof⟩ := h₂.publishedNode hinj hours hsome
  obtain ⟨hget₃, houtbox₃⟩ := step_get hget₂
    (show Publication.advance host store w₂ _ t₃ = (w₂, .complete _ node []) by
      rw [Publication.advance]
      dsimp only
      rw [hnode])
  have h₃ := Inv.step hinj w₂ (.step i t₃) trivial h₂
  rw [← houtbox₃] at hrow₀
  generalize w₂.step host store (.step i t₃) = w₃ at h₃ hget₃ hrow₀ ⊢
  -- It completes the publication.
  rcases markPublished_cases h₃ manifestId t₄ with ⟨hnone, -⟩ | ⟨row', hrow', hmark⟩
  · rw [hrow₀] at hnone
    cases hnone
  · rw [hrow₀] at hrow'
    cases hrow'
    rcases hmark with ⟨hpublished, -⟩ | hmark
    · rw [hstate] at hpublished
      cases hpublished
    · have hadvance : Publication.advance host store w₃
          ⟨.publishManifest manifestId,
            .complete (outboxPublication store (manifestId, row)) node []⟩ t₄ =
          (completed host store w₃ manifestId row t₄, .returned node) := by
        rw [Publication.advance]
        dsimp only
        rw [hof.1,
          show (outboxPublication store (manifestId, row)).manifestId = manifestId from rfl, hmark]
      obtain ⟨hget₄, houtbox₄⟩ := step_get hget₃ hadvance
      exact ⟨node, _, hget₄, (congrArg (·.get? manifestId) houtbox₄).trans
        (FiniteMap.get?_insert_self _ _ _), hof.1, rfl, congrArg some hof.1.symm⟩

variable (host store) in
/-- What the outbox, the graph and the publishers agree on. -/
structure Agreement (w : World) : Prop where
  /-- A published row names the node of its manifest. -/
  rows : ∀ manifestId row, w.outbox.get? manifestId = some row → row.state = .published →
    row.memoryId = some (manifestNodeId host store manifestId) ∧
      (w.nodes.get? (manifestNodeId host store manifestId)).isSome
  /-- The memory of a manifest is one node, linked once, with the memories of its session. -/
  nodes : ∀ id record manifestId, w.nodes.get? id = some record →
    locator host record.content = ownLocator host store manifestId →
    id = manifestNodeId host store manifestId ∧
      w.edges.count (filesystemMemoriesRootId, id) = 1 ∧
      ∃ baseMemoryIds, w.manifests.get? manifestId = some baseMemoryIds ∧
        record.filesystemIdentity =
          some (.checkpoint (host.canonicalPath store) manifestId baseMemoryIds)
  /-- A publisher that returned has the node of its manifest; one that took the manifest from the
  outbox has completed its row. -/
  returned : ∀ publisher ∈ w.publishers, ∀ node, publisher.stage = .returned node →
    ∃ manifestId baseMemoryIds, w.manifests.get? manifestId = some baseMemoryIds ∧
      node.id = manifestNodeId host store manifestId ∧
      persistentIdentity host node.content =
        .checkpoint (host.canonicalPath store) manifestId baseMemoryIds ∧
      (∀ manifestId', publisher.job = .publishManifest manifestId' →
        manifestId' = manifestId ∧ Completed w manifestId) ∧
      ∀ publication, publisher.job = .publishExternal publication →
        publication.manifestId = manifestId
  /-- Publishers never see a collision, a node that is gone or another id in the outbox. -/
  raised : ∀ publisher ∈ w.publishers, ∀ error, publisher.stage = .raised error →
    error = .missing ∨ error = .failed ∨
      ∃ manifestId, error = .completion ("unknown checkpoint publication: " ++ manifestId)
  /-- A completion can be repeated. -/
  repeated : ∀ manifestId row now, w.outbox.get? manifestId = some row →
    markPublished w manifestId (manifestNodeId host store manifestId) now =
      .ok (if row.state = .published then w else completed host store w manifestId row now)
  /-- It cannot be changed. -/
  conflict : ∀ manifestId row id now, w.outbox.get? manifestId = some row →
    row.state = .published → id ≠ manifestNodeId host store manifestId →
    ∀ w', markPublished w manifestId id now ≠ .ok w'

theorem Inv.repeated (h : Inv host store locators w) {manifestId : String} {row : OutboxRow}
    (hrow : w.outbox.get? manifestId = some row) (now : ℕ) :
    markPublished w manifestId (manifestNodeId host store manifestId) now =
      .ok (if row.state = .published then w else completed host store w manifestId row now) := by
  rw [markPublished, validateMemoryId_manifestNodeId, hrow]
  cases hstate : row.state with
  | pending => exact if_pos hstate
  | published =>
    have hid := ((h.rows _ _ hrow).published hstate).1
    change (if row.state = .pending then _ else if row.memoryId = _ then _ else _) = _
    rw [if_neg (by rw [hstate]; decide), if_pos hid, if_pos rfl]

theorem Inv.conflict (h : Inv host store locators w) {manifestId id : String} {row : OutboxRow}
    (hrow : w.outbox.get? manifestId = some row) (hstate : row.state = .published)
    (hne : id ≠ manifestNodeId host store manifestId) (now : ℕ) (w' : World) :
    markPublished w manifestId id now ≠ .ok w' := by
  intro hok
  obtain ⟨-, -, hok⟩ := Run.bind_ok.mp hok
  rw [hrow] at hok
  dsimp only at hok
  rw [if_neg (by rw [hstate]; decide), ((h.rows _ _ hrow).published hstate).1,
    if_neg fun heq => hne (Option.some.inj heq).symm] at hok
  cases hok

theorem Inv.agreement (h : Inv host store locators w) : Agreement host store w where
  rows manifestId row hrow hstate := (h.rows manifestId row hrow).published hstate
  nodes id record manifestId hrecord hlocator := by
    have hinv := h.nodes id record hrecord
    obtain ⟨baseMemoryIds, hmanifest, hidentity⟩ := hinv.faithful manifestId hlocator
    refine ⟨?_, ?_, baseMemoryIds, hmanifest, hinv.identity.trans (congrArg some hidentity)⟩
    · rw [hinv.id, memoryId_eq, hlocator, manifestNodeId_eq]
    · rw [h.edges, hrecord]
      rfl
  returned publisher hmem node hstage := by
    have hinv := h.publishers publisher hmem
    rw [hstage] at hinv
    obtain ⟨publication, hjob, hours, hof, hcompleted⟩ := hinv
    refine ⟨publication.manifestId, publication.baseMemoryIds, hours.2, hof.1,
      hof.2.trans hours.identity, fun manifestId' hpublish => ?_, fun publication' hexternal => ?_⟩
    · rw [hpublish] at hjob
      cases hjob
      exact ⟨rfl, hcompleted _ hpublish⟩
    · rw [hexternal] at hjob
      cases hjob
      rfl
  raised publisher hmem error hstage := by
    have hinv := h.publishers publisher hmem
    rwa [hstage] at hinv
  repeated _ _ now hrow := h.repeated hrow now
  conflict _ _ _ now hrow hstate hne := h.conflict hrow hstate hne now

/-- In every run the outbox and the graph agree, and a publisher of a pending manifest that is not
disturbed publishes it. -/
theorem publication_outbox (hinj : Set.InjOn (locatorId host) locators) {actions : List Action}
    (hallowed : ∀ action ∈ actions, Allowed host store locators action) :
    Agreement host store (World.run host store actions) ∧
      ∀ manifestId row, (World.run host store actions).outbox.get? manifestId = some row →
        row.state = .pending → ∀ i, (World.run host store actions).publishers.length = i →
        ∀ t₁ t₂ t₃ t₄,
          ∃ w', World.run host store (actions ++ publishing manifestId i t₁ t₂ t₃ t₄) = w' ∧
            ∃ node row', w'.publishers[i]? = some ⟨.publishManifest manifestId, .returned node⟩ ∧
              w'.outbox.get? manifestId = some row' ∧
              node.id = manifestNodeId host store manifestId ∧ row'.state = .published ∧
              row'.memoryId = some node.id := by
  have hinv := run_inv hinj hallowed
  refine ⟨hinv.agreement, fun manifestId row hrow hstate i hi t₁ t₂ t₃ t₄ => ?_⟩
  obtain ⟨w', hw', hpublished⟩ := hinv.publishing hinj hrow hstate hi t₁ t₂ t₃ t₄
  refine ⟨w', ?_, hpublished⟩
  rw [World.run, List.foldl_append]
  exact hw'

end

namespace TestVectors

/-- The digests of the texts of one manifest and one directory. -/
def host : Host where
  digest text :=
    if text = "checkpoint\x00/state/workspaces.db\x00manifest-1" then
      "d0caa689b78b9a5cda5c8b3db3d822bba51c917513f93986c420414326441f68"
    else if text = "directory\x00/work/notes" then
      "12abd4d831f8e416d4f4991fc52f24b06776c7bbb954eeeb9287181b40fcb320"
    else "0000000000000000000000000000000000000000000000000000000000000000"
  canonicalPath path := path
  digest_size text := by split_ifs <;> decide +kernel

def locators : List Locator :=
  [.checkpoint "/state/workspaces.db" "manifest-1", .directory "/work/notes"]

/-- A publisher fails after its completion took effect, while a reconciliation works on the same
manifest. -/
def actions : List Action :=
  [.createWorkspace "session-1" "Notes" ["memory_node:notes"],
    .publishOther (.directory "Notes" "" "/work/notes" []) [] 5,
    .commitCheckpoint "session-1" "manifest-1" 2 10, .publishManifest "manifest-1",
    .step 0 11, .step 0 12, .reconcile true, .step 1 13, .step 0 14, .step 1 15, .fail 0 true 16,
    .step 1 17, .step 1 18, .pruneProtocolHistory 5, .continueTarget "session-1"]

theorem locators_injOn : Set.InjOn (locatorId host) {locator | locator ∈ locators} := by
  have hall : ∀ a ∈ locators, ∀ b ∈ locators, locatorId host a = locatorId host b → a = b := by
    decide +kernel
  exact fun a ha b hb => hall a ha b hb

theorem actions_allowed : ∀ action ∈ actions,
    Allowed host "/state/workspaces.db" {locator | locator ∈ locators} action := by
  simp [actions, Allowed, locators, locator, ownLocator, host]

theorem publication_outbox_twoPublishers :
    Agreement host "/state/workspaces.db" (World.run host "/state/workspaces.db" actions) :=
  (publication_outbox locators_injOn actions_allowed).1

end TestVectors

end Publication
