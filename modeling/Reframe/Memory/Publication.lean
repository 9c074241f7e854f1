import Reframe.Lib.FiniteMap

/-! Checkpoints on their way into the memory graph: the outbox of the daemon, the publishers that
read it, the graph transaction, and the completion. A publisher can fail or be lost before and after
each of its steps. -/
namespace Publication

/-- `hashlib.sha256(..).hexdigest()` of the UTF-8 text, and `os.path.normcase(.. .resolve())`. -/
structure Host where
  digest : String → String
  canonicalPath : String → String
  digest_size : ∀ text, (digest text).utf8ByteSize = 64

inductive FilesystemMemory where
  | directory (title description sourcePath : String) (baseMemoryIds : List String)
  | checkpoint (title description backingStore manifestId : String) (baseMemoryIds : List String)
  deriving DecidableEq

/-- What `_persistent_identity` returns. -/
inductive Identity where
  | directory (path : String)
  | checkpoint (path manifestId : String) (baseMemoryIds : List String)
  deriving DecidableEq

/-- A record of the graph; the JSON text of the identity is kept as the identity. -/
structure NodeRecord where
  tags : List String
  content : FilesystemMemory
  filesystemIdentity : Option Identity
  createdAt : ℕ
  updatedAt : ℕ
  readAt : Option ℕ
  deriving DecidableEq

structure FilesystemMemoryNode extends NodeRecord where
  id : String
  deriving DecidableEq

inductive PublicationState where
  | pending
  | published
  deriving DecidableEq

/-- A row of `checkpoint_publications`. -/
structure OutboxRow where
  workspaceId : String
  workspaceName : String
  baseMemoryIds : List String
  retainedCount : ℕ
  state : PublicationState
  memoryId : Option String
  createdAt : ℕ
  publishedAt : Option ℕ
  deriving DecidableEq

structure Workspace where
  name : String
  memoryIds : List String
  headManifest : Option String
  deriving DecidableEq

structure CheckpointPublication where
  sessionId : String
  sessionName : String
  backingStore : String
  manifestId : String
  baseMemoryIds : List String
  retainedCount : Option ℕ
  deriving DecidableEq

inductive PublishError where
  /-- `checkpoint publication outbox is missing manifest ..` -/
  | missing
  /-- `filesystem memory publication disappeared: ..` -/
  | disappeared
  /-- `filesystem memory id collision: ..` -/
  | collision
  /-- What the daemon answers to the completion. -/
  | completion (message : String)
  /-- A failure of the database or of the daemon. -/
  | failed
  deriving DecidableEq

inductive Job where
  | publishManifest (manifestId : String)
  | publishExternal (publication : CheckpointPublication)
  | reconcile (strict : Bool)
  deriving DecidableEq

/-- Where a publisher stands; `rest` are the publications that a reconciliation has before it. -/
inductive Stage where
  | start
  | publish (publication : CheckpointPublication) (rest : List CheckpointPublication)
  | fetch (publication : CheckpointPublication) (rest : List CheckpointPublication)
  | complete (publication : CheckpointPublication) (node : FilesystemMemoryNode)
      (rest : List CheckpointPublication)
  | returned (node : FilesystemMemoryNode)
  | reconciled
  | raised (error : PublishError)
  | lost
  deriving DecidableEq

structure Publisher where
  job : Job
  stage : Stage
  deriving DecidableEq

structure World where
  workspaces : FiniteMap String Workspace
  /-- The manifests that were ever committed, with the memories of their session. -/
  manifests : FiniteMap String (List String)
  outbox : FiniteMap String OutboxRow
  nodes : FiniteMap String NodeRecord
  /-- The `contains` edges, by their ends. -/
  edges : List (String × String)
  publishers : List Publisher

def filesystemMemoriesRootId : String := "memory_root:filesystem_memories"

section

variable (host : Host)

/-! The graph. -/

/-- `_scoped_memory_id` -/
def scopedMemoryId (kind : String) (parts : List String) : String :=
  "memory_node:filesystem_" ++ kind ++ "_" ++ host.digest ("\x00".intercalate (kind :: parts))

def filesystemDirectoryMemoryId (sourcePath : String) : String :=
  scopedMemoryId host "directory" [host.canonicalPath sourcePath]

def filesystemCheckpointMemoryId (backingStore manifestId : String) : String :=
  scopedMemoryId host "checkpoint" [host.canonicalPath backingStore, manifestId]

/-- The id under which `publish_directory` and `publish_checkpoint` store a memory. -/
def memoryId : FilesystemMemory → String
  | .directory _ _ sourcePath _ => filesystemDirectoryMemoryId host sourcePath
  | .checkpoint _ _ backingStore manifestId _ =>
    filesystemCheckpointMemoryId host backingStore manifestId

def persistentIdentity : FilesystemMemory → Identity
  | .directory _ _ sourcePath _ => .directory (host.canonicalPath sourcePath)
  | .checkpoint _ _ backingStore manifestId baseMemoryIds =>
    .checkpoint (host.canonicalPath backingStore) manifestId baseMemoryIds

/-- `$legacy_identity_matches`, of a record that is there. -/
def legacyIdentityMatches (existing memory : FilesystemMemory) : Bool :=
  match existing, memory with
  | .directory _ _ sourcePath _, .directory _ _ sourcePath' _ => sourcePath = sourcePath'
  | .checkpoint _ _ backingStore manifestId baseMemoryIds,
    .checkpoint _ _ backingStore' manifestId' baseMemoryIds' =>
    backingStore = backingStore' ∧ manifestId = manifestId' ∧ baseMemoryIds = baseMemoryIds'
  | _, _ => false

def identityConflicts (existing : NodeRecord) (memory : FilesystemMemory) : Bool :=
  existing.filesystemIdentity ≠ some (persistentIdentity host memory) ∧
    ¬(existing.filesystemIdentity = none ∧ legacyIdentityMatches existing.content memory)

/-- The transaction of `publish_filesystem_memory`. -/
def publishFilesystemMemory (w : World) (memory : FilesystemMemory) (tags : List String) (now : ℕ) :
    World :=
  let recordId := memoryId host memory
  let existing := w.nodes.get? recordId
  if existing.any fun record => identityConflicts host record memory then w
  else
    { w with
      nodes := w.nodes.insert recordId {
        tags := tags
        content := memory
        filesystemIdentity := some (persistentIdentity host memory)
        createdAt := (existing.map NodeRecord.createdAt).getD now
        updatedAt := match existing with
          | none => now
          | some record =>
            if record.tags ≠ tags ∨ record.content ≠ memory then now else record.updatedAt
        readAt := existing.bind NodeRecord.readAt }
      edges := w.edges.filter (· ≠ (filesystemMemoriesRootId, recordId)) ++
        [(filesystemMemoriesRootId, recordId)] }

/-- What `_publish` returns after the transaction. -/
def publishedNode (w : World) (memory : FilesystemMemory) :
    Except PublishError FilesystemMemoryNode :=
  match w.nodes.get? (memoryId host memory) with
  | none => .error .disappeared
  | some record =>
    if persistentIdentity host record.content ≠ persistentIdentity host memory then
      .error .collision
    else .ok ⟨record, memoryId host memory⟩

/-! The outbox. -/

def pendingCheckpointPublications (w : World) : List (String × OutboxRow) :=
  (w.outbox.toList.filter fun entry => entry.2.state = .pending).mergeSort
    fun a b => a.2.createdAt ≤ b.2.createdAt

def validateMemoryId (id : String) : Except String Unit :=
  if id.isEmpty ∨ 256 < id.utf8ByteSize then
    .error "resolved memory id must be between 1 and 256 characters"
  else .ok ()

/-- `mark_checkpoint_publication_published` -/
def markPublished (w : World) (manifestId id : String) (now : ℕ) : Except String World := do
  validateMemoryId id
  match w.outbox.get? manifestId with
  | some row =>
    if row.state = .pending then
      .ok { w with
        outbox := w.outbox.insert manifestId
          { row with state := .published, memoryId := some id, publishedAt := some now } }
    else if row.memoryId = some id then .ok w
    else .error ("checkpoint publication " ++ manifestId ++ " is published with memory id " ++
      match row.memoryId with
      | none => "None"
      | some existing => "Some(\"" ++ existing ++ "\")")
  | none => .error ("unknown checkpoint publication: " ++ manifestId)

/-! The publishers of one daemon, whose store is `store`. -/

variable (store : String)

def publicationDescription : Option ℕ → String
  | none => "Immutable session checkpoint containing selected files"
  | some retainedCount =>
    "Immutable session checkpoint containing " ++ toString retainedCount ++ " retained files"

def checkpointMemory (publication : CheckpointPublication) : FilesystemMemory :=
  .checkpoint (publication.sessionName ++ " checkpoint")
    (publicationDescription publication.retainedCount) publication.backingStore
    publication.manifestId publication.baseMemoryIds

def checkpointTags : List String := ["workspace", "checkpoint", "session-filesystem"]

/-- The publication that `_publish_outbox` makes of a row. -/
def outboxPublication (entry : String × OutboxRow) : CheckpointPublication :=
  ⟨entry.2.workspaceId, entry.2.workspaceName, store, entry.1, entry.2.baseMemoryIds,
    some entry.2.retainedCount⟩

/-- The publication that `_continue_target` makes of the head of a session. -/
def headPublication (sessionId : String) (workspace : Workspace) (manifestId : String) :
    CheckpointPublication :=
  ⟨sessionId, workspace.name, store, manifestId, workspace.memoryIds, none⟩

/-- A reconciliation goes on to its next publication. -/
def nextStage : List CheckpointPublication → Stage
  | [] => .reconciled
  | publication :: rest => .publish publication rest

/-- What an exception does: a reconciliation that is not strict goes on. -/
def afterError (job : Job) (rest : List CheckpointPublication) (error : PublishError) : Stage :=
  match job with
  | .reconcile false => nextStage rest
  | _ => .raised error

/-- The first step of a job: it reads the outbox. -/
def startStage (w : World) : Job → Stage
  | .publishManifest manifestId =>
    match (pendingCheckpointPublications w).find? fun entry => entry.1 = manifestId with
    | some entry => .publish (outboxPublication store entry) []
    | none => .raised .missing
  | .publishExternal publication => .publish publication []
  | .reconcile _ => nextStage ((pendingCheckpointPublications w).map (outboxPublication store))

/-- The next step of a publisher: what it does to the world, and where the publisher stands then. -/
def advance (w : World) (publisher : Publisher) (now : ℕ) : World × Stage :=
  match publisher.stage with
  | .start => (w, startStage store w publisher.job)
  | .publish publication rest =>
    (publishFilesystemMemory host w (checkpointMemory publication) checkpointTags now,
      .fetch publication rest)
  | .fetch publication rest =>
    match publishedNode host w (checkpointMemory publication), publisher.job with
    | .ok node, .publishExternal _ => (w, .returned node)
    | .ok node, _ => (w, .complete publication node rest)
    | .error error, job => (w, afterError job rest error)
  | .complete publication node rest =>
    match markPublished w publication.manifestId node.id now, publisher.job with
    | .ok w, .reconcile _ => (w, nextStage rest)
    | .ok w, _ => (w, .returned node)
    | .error message, job => (w, afterError job rest (.completion message))
  | stage => (w, stage)

/-- Where a publisher stands after a failure of its next step. -/
def failedStage (publisher : Publisher) : Stage :=
  match publisher.stage, publisher.job with
  -- The outbox could not be read.
  | .start, .reconcile false => .reconciled
  | .start, _ => .raised .failed
  | .publish _ rest, job => afterError job rest .failed
  | .fetch _ rest, job => afterError job rest .failed
  | .complete _ _ rest, job => afterError job rest .failed
  | stage, _ => stage

inductive Action where
  | createWorkspace (sessionId name : String) (memoryIds : List String)
  | destroyWorkspace (sessionId : String)
  | commitCheckpoint (sessionId manifestId : String) (retainedCount now : ℕ)
  | pruneProtocolHistory (cutoff : ℕ)
  /-- A publisher begins. -/
  | publishManifest (manifestId : String)
  | continueTarget (sessionId : String)
  | reconcile (strict : Bool)
  | step (publisher now : ℕ)
  /-- The step fails, before or after it took effect. -/
  | fail (publisher : ℕ) (applied : Bool) (now : ℕ)
  | lose (publisher : ℕ)
  /-- Another memory is published. -/
  | publishOther (memory : FilesystemMemory) (tags : List String) (now : ℕ)
  deriving DecidableEq

namespace World

def initial : World := ⟨∅, ∅, ∅, ∅, [], []⟩

def spawn (w : World) (job : Job) : World :=
  { w with publishers := w.publishers ++ [⟨job, .start⟩] }

def moved (w : World) (i : ℕ) (publisher : Publisher) (stage : Stage) : World :=
  { w with publishers := w.publishers.set i { publisher with stage := stage } }

def step (w : World) : Action → World
  | .createWorkspace sessionId name memoryIds =>
    match w.workspaces.get? sessionId with
    | some _ => w
    | none => { w with workspaces := w.workspaces.insert sessionId ⟨name, memoryIds, none⟩ }
  | .destroyWorkspace sessionId => { w with workspaces := w.workspaces.erase sessionId }
  | .commitCheckpoint sessionId manifestId retainedCount now =>
    match w.workspaces.get? sessionId, w.manifests.get? manifestId with
    | some workspace, none =>
      { w with
        workspaces := w.workspaces.insert sessionId
          { workspace with headManifest := some manifestId }
        manifests := w.manifests.insert manifestId workspace.memoryIds
        outbox := w.outbox.insert manifestId ⟨sessionId, workspace.name, workspace.memoryIds,
          retainedCount, .pending, none, now, none⟩ }
    | _, _ => w
  | .pruneProtocolHistory cutoff =>
    { w with
      outbox := w.outbox.retain fun _ row =>
        !(row.state = .published && row.publishedAt.any fun time => decide (time < cutoff)) }
  | .publishManifest manifestId => w.spawn (.publishManifest manifestId)
  | .continueTarget sessionId =>
    match w.workspaces.get? sessionId with
    | some workspace =>
      match workspace.headManifest with
      | some manifestId =>
        w.spawn (.publishExternal (headPublication store sessionId workspace manifestId))
      | none => w
    | none => w
  | .reconcile strict => w.spawn (.reconcile strict)
  | .step i now =>
    match w.publishers[i]? with
    | some publisher =>
      let (w, stage) := advance host store w publisher now
      w.moved i publisher stage
    | none => w
  | .fail i applied now =>
    match w.publishers[i]? with
    | some publisher =>
      let w := if applied then (advance host store w publisher now).1 else w
      w.moved i publisher (failedStage publisher)
    | none => w
  | .lose i =>
    match w.publishers[i]? with
    | some publisher => w.moved i publisher .lost
    | none => w
  | .publishOther memory tags now => publishFilesystemMemory host w memory tags now

def run (actions : List Action) : World := actions.foldl (step host store) initial

end World

end

end Publication
