import Reframe.Memory.Graph

/-! The stores over the memory graph: conversations, session memories, tasks and task histories,
each call as the program of queries it is, and what the readers return. -/
namespace ReframeMemory
open Interaction
open PyText (fromKeys)

def sessionsRootId : String := "memory_root:sessions"
def conversationsRootId : String := "memory_root:conversations"
def sessionMemoriesRootId : String := "memory_root:session_memories"
def providersRootId : String := "memory_root:providers"
def tasksRootId : String := "memory_root:tasks"

structure Conversation where
  name : String
  deriving DecidableEq

structure ConversationMessage where
  role : String
  content : String
  deriving DecidableEq

structure SessionMemory where
  title : String
  description : String
  deriving DecidableEq

structure Task where
  name : String
  description : String
  input : String
  output : String
  prompt : String
  providerId : String
  deriving DecidableEq

structure TaskHistoryNode where
  session : String
  conversation : String
  deriving DecidableEq

structure Action where
  name : String
  input : String
  output : String
  deriving DecidableEq

def Conversation.asdict (c : Conversation) : Content := [("name", c.name)]

def ConversationMessage.asdict (m : ConversationMessage) : Content :=
  [("role", m.role), ("content", m.content)]

def SessionMemory.asdict (m : SessionMemory) : Content :=
  [("title", m.title), ("description", m.description)]

def Task.asdict (t : Task) : Content :=
  [("name", t.name), ("description", t.description), ("input", t.input), ("output", t.output),
    ("prompt", t.prompt), ("provider_id", t.providerId)]

/-- `memory_node_from_record`: a node with its parsed content. -/
structure Parsed (α : Type) where
  id : String
  tags : List String
  createdAt : ℕ
  updatedAt : ℕ
  readAt : Option ℕ
  content : α
  deriving DecidableEq

def memoryNodeFromRecord {α : Type} (node : MemoryNode) (parse : Content → Except PyError α) :
    Except PyError (Parsed α) :=
  (parse node.content).map
    fun content => ⟨node.id, node.tags, node.createdAt, node.updatedAt, node.readAt, content⟩

theorem id_of_memoryNodeFromRecord {α : Type} {node : MemoryNode}
    {parse : Content → Except PyError α} {parsed : Parsed α} (h : memoryNodeFromRecord node parse = .ok parsed) :
    parsed.id = node.id := by
  unfold memoryNodeFromRecord at h
  cases hparse : parse node.content with
  | error e =>
    rw [hparse] at h
    cases h
  | ok content =>
    rw [hparse] at h
    cases h
    rfl

def parseConversation (content : Content) : Except PyError Conversation := do
  let name ← field content "name"
  .ok ⟨name⟩

def messageRoles : List String :=
  ["human", "agent", "agent_thought", "agent_reply_interrupted", "validation_reply"]

def parseConversationMessage (content : Content) : Except PyError ConversationMessage := do
  let role ← field content "role"
  if role ∈ messageRoles then do
    let text ← field content "content"
    .ok ⟨role, text⟩
  else .error (.valueError ("conversation message role must be human, agent, agent_thought, " ++
    "agent_reply_interrupted, or validation_reply, got '" ++ role ++ "'"))

def parseSessionMemory (content : Content) : Except PyError SessionMemory := do
  let title ← field content "title"
  let description ← field content "description"
  .ok ⟨title, description⟩

def parseTask (content : Content) : Except PyError Task := do
  let name ← field content "name"
  let description ← field content "description"
  let input ← field content "input"
  let output ← field content "output"
  let prompt ← field content "prompt"
  let provider ← field content "provider_id"
  let providerId ← memoryNodeRecordId provider
  .ok ⟨name, description, input, output, prompt, providerId⟩

def parseTaskHistoryNode (content : Content) : Except PyError TaskHistoryNode := do
  let session ← field content "session"
  let session ← memoryNodeRecordId session
  let conversation ← field content "conversation"
  let conversation ← memoryNodeRecordId conversation
  .ok ⟨session, conversation⟩

/-- Objects are texts here; a missing one is the empty object. -/
def parseAction (content : Content) : Except PyError Action := do
  let name ← field content "name"
  .ok ⟨name, (content.lookup "input").getD "{}", (content.lookup "output").getD "{}"⟩

/-! Readers. -/

/-- `mark_records_read`: what the update returns, or the record where it returns nothing. -/
def markRecordsRead : List Record → MemoryProgram (List Record)
  | [] => .done []
  | .node node :: rest => do
    let id ← ofExcept (memoryNodeRecordId node.id)
    let result ← ask [.markRead id]
    let marked ← markRecordsRead rest
    .done (result.headD (.node node) :: marked)
  | .edge .. :: _ => .raise (.keyError "id")
  | .position _ :: _ => .raise (.keyError "id")

def parseRecords {α : Type} (parse : Content → Except PyError α) :
    List Record → Except PyError (List (Parsed α))
  | [] => .ok []
  | .node node :: rest => do
    let parsed ← memoryNodeFromRecord node parse
    let others ← parseRecords parse rest
    .ok (parsed :: others)
  | .edge .. :: _ => .error (.keyError "id")
  | .position _ :: _ => .error (.keyError "id")

/-- The records a reader returns: marked as read, if it is asked to. -/
def touchedRecords (markRead : Bool) (records : List Record) : MemoryProgram (List Record) :=
  if markRead then markRecordsRead records else .done records

/-- A listing: selected, marked as read if asked, parsed. -/
def readSelected {α : Type} (statement : Statement) (parse : Content → Except PyError α)
    (markRead : Bool) : MemoryProgram (List (Parsed α)) := do
  let records ← ask [statement]
  let records ← touchedRecords markRead records
  ofExcept (parseRecords parse records)

/-- A single record: `None` where nothing is selected, before anything is marked. -/
def readOne {α : Type} (statement : Statement) (parse : Content → Except PyError α)
    (markRead : Bool) : MemoryProgram (Option (Parsed α)) := do
  let records ← ask [statement]
  if records = [] then .done none
  else do
    let records ← touchedRecords markRead records
    let node ← ofExcept (firstRecord records)
    ofExcept ((memoryNodeFromRecord node parse).map some)

/-- The loop over a listing of edges: the items of the targets that are there, in its order. -/
def inOrder {α : Type} (item : List Record → MemoryProgram α) : List Record → MemoryProgram (List α)
  | [] => .done []
  | .edge target _ :: rest => do
    let id ← ofExcept (memoryNodeRecordId target)
    let records ← ask [.selectNode id]
    if records = [] then inOrder item rest
    else do
      let read ← item records
      let others ← inOrder item rest
      .done (read :: others)
  | .node _ :: _ => .raise (.keyError "out")
  | .position _ :: _ => .raise (.keyError "out")

/-! Writers. -/

/-- A record has to be linked under a root; `missing` is the message when it is not. -/
def ensureUnder (rootId recordId missing : String) : MemoryProgram String := do
  let id ← ofExcept (memoryNodeRecordId recordId)
  let result ← ask [.selectOne rootId .contains fun node => node.id = id]
  if result = [] then .raise (.valueError missing) else .done id

def ensureSession (sessionId : String) : MemoryProgram String :=
  ensureUnder sessionsRootId sessionId
    ("session does not exist under Sessions root: " ++ sessionId)

def ensureConversation (conversationId : String) : MemoryProgram String :=
  ensureUnder conversationsRootId conversationId
    ("conversation does not exist under Conversations root: " ++ conversationId)

def ensureProvider (providerId : String) : MemoryProgram String :=
  ensureUnder providersRootId providerId
    ("task provider does not exist under Providers root: " ++ providerId)

/-- A node below a parent: created, linked from its root, then linked from the parent. -/
def createLinked {α : Type} (ensureParent : MemoryProgram String) (rootId : String)
    (table : Relation) (content : Content) (parse : Content → Except PyError α)
    (tags : List String) : MemoryProgram (Parsed α) := do
  let parentRecordId ← ensureParent
  let result ← ask [.create (cleanTags tags) content]
  let node ← ofExcept (firstRecord result)
  let _ ← ask [.relate .contains rootId node.id none]
  let _ ← ask [.relate table parentRecordId node.id none]
  ofExcept (memoryNodeFromRecord node parse)

namespace ConversationMemory

def create (sessionId : String) (conversation : Conversation) (tags : List String) :
    MemoryProgram (Parsed Conversation) :=
  createLinked (ensureSession sessionId) conversationsRootId .hasConversation conversation.asdict
    parseConversation tags

/-- `records[0]["position"] + 1`, or zero. -/
def nextPosition : List Record → Except PyError ℤ
  | [] => .ok 0
  | .position position :: _ => .ok (position + 1)
  | .edge _ position :: _ => .ok (position + 1)
  | .node _ :: _ => .error (.keyError "position")

def nextMessagePosition (conversationRecordId : String) : MemoryProgram ℤ := do
  let result ← ask [.topPosition .hasMessage conversationRecordId]
  ofExcept (nextPosition result)

/-- The queries of `add_message` once the position is known. -/
def storeMessage (conversationRecordId : String) (message : ConversationMessage)
    (tags : List String) (messagePosition : ℤ) : MemoryProgram (Parsed ConversationMessage) := do
  let result ← ask [.create (cleanTags tags) message.asdict]
  let node ← ofExcept (firstRecord result)
  let _ ← ask [.relate .hasMessage conversationRecordId node.id (some messagePosition)]
  let _ ← ask [.touch conversationRecordId]
  ofExcept (memoryNodeFromRecord node parseConversationMessage)

def addMessage (conversationId : String) (message : ConversationMessage) (tags : List String)
    (position : Option ℤ) : MemoryProgram (Parsed ConversationMessage) := do
  let conversationRecordId ← ensureConversation conversationId
  let messagePosition ← match position with
    | some position => .done position
    | none => nextMessagePosition conversationRecordId
  storeMessage conversationRecordId message tags messagePosition

def messagesFor (conversationId : String) (markRead : Bool) :
    MemoryProgram (List (Parsed ConversationMessage)) := do
  let conversationRecordId ← ofExcept (memoryNodeRecordId conversationId)
  let relations ← ask [.selectPositions .hasMessage conversationRecordId]
  inOrder (fun records => do
    let touched ← touchedRecords markRead records
    let node ← ofExcept (firstRecord touched)
    ofExcept (memoryNodeFromRecord node parseConversationMessage)) relations

/-- `keep` is the `WHERE` clause of the search. -/
def search (keep : MemoryNode → Bool) (markRead : Bool) :
    MemoryProgram (List (Parsed Conversation)) :=
  readSelected (.select conversationsRootId .contains keep) parseConversation markRead

end ConversationMemory

namespace SessionStore

def conversationsFor (sessionId : String) (markRead : Bool) :
    MemoryProgram (List (Parsed Conversation)) := do
  let sessionRecordId ← ofExcept (memoryNodeRecordId sessionId)
  readSelected (.select sessionRecordId .hasConversation fun _ => true) parseConversation markRead

def memoriesFor (sessionId : String) (markRead : Bool) :
    MemoryProgram (List (Parsed SessionMemory)) := do
  let sessionRecordId ← ofExcept (memoryNodeRecordId sessionId)
  readSelected (.select sessionRecordId .hasSessionMemory fun _ => true) parseSessionMemory markRead

end SessionStore

namespace SessionMemoryStore

def create (sessionId : String) (memory : SessionMemory) (tags : List String) :
    MemoryProgram (Parsed SessionMemory) :=
  createLinked (ensureSession sessionId) sessionMemoriesRootId .hasSessionMemory memory.asdict
    parseSessionMemory tags

def search (keep : MemoryNode → Bool) (markRead : Bool) :
    MemoryProgram (List (Parsed SessionMemory)) :=
  readSelected (.select sessionMemoriesRootId .contains keep) parseSessionMemory markRead

end SessionMemoryStore

namespace TaskMemory

def create (task : Task) (tags : List String) : MemoryProgram (Parsed Task) :=
  createLinked (ensureProvider task.providerId) tasksRootId .providesTask task.asdict parseTask tags

def update (taskId : String) (task : Task) (tags : List String) : MemoryProgram (Parsed Task) := do
  let providerRecordId ← ensureProvider task.providerId
  let taskRecordId ← ofExcept (memoryNodeRecordId taskId)
  let result ← ask [.update taskRecordId (cleanTags tags) task.asdict]
  if result = [] then .raise (.valueError ("task does not exist: " ++ taskId))
  else do
    let node ← ofExcept (firstRecord result)
    let _ ← ask [.deleteTo .providesTask taskRecordId,
      .relate .providesTask providerRecordId taskRecordId none]
    ofExcept (memoryNodeFromRecord node parseTask)

def search (keep : MemoryNode → Bool) (markRead : Bool) : MemoryProgram (List (Parsed Task)) :=
  readSelected (.select tasksRootId .contains keep) parseTask markRead

def get (taskId : String) (markRead : Bool) : MemoryProgram (Option (Parsed Task)) := do
  let taskRecordId ← ofExcept (memoryNodeRecordId taskId)
  readOne (.selectOne tasksRootId .contains fun node => node.id = taskRecordId) parseTask markRead

end TaskMemory

namespace TaskHistoryStore

/-- `_create_node`. -/
def createNode (content : Content) (tags : List String) : MemoryProgram MemoryNode := do
  let result ← ask [.create (cleanTags tags) content]
  ofExcept (firstRecord result)

/-- `_tags`. -/
def historyTags (kind : String) (tags : List String) : List String :=
  fromKeys (kind :: "task-history" :: tags)

/-- The loop of `append_node` over the actions, from a position on. -/
def relateActions (nodeRecordId : String) (position : ℤ) : List String → MemoryProgram Unit
  | [] => .done ()
  | actionId :: rest => do
    let actionRecordId ← ofExcept (memoryNodeRecordId actionId)
    let _ ← ask [.relate .actions nodeRecordId actionRecordId (some position)]
    relateActions nodeRecordId (position + 1) rest

/-- `_next_position` for the history relation. -/
def nextHistoryPosition (taskHistoryRecordId : String) : MemoryProgram ℤ := do
  let result ← ask [.topPosition .history taskHistoryRecordId]
  ofExcept (ConversationMemory.nextPosition result)

def appendNode (taskHistoryId sessionId conversationId : String) (actions tags : List String) :
    MemoryProgram (Parsed TaskHistoryNode) := do
  let taskHistoryRecordId ← ofExcept (memoryNodeRecordId taskHistoryId)
  let session ← ofExcept (memoryNodeRecordId sessionId)
  let conversation ← ofExcept (memoryNodeRecordId conversationId)
  let record ← createNode [("session", session), ("conversation", conversation)]
    (historyTags "task-history-node" tags)
  let nodeRecordId ← ofExcept (memoryNodeRecordId record.id)
  relateActions nodeRecordId 0 actions
  let historyPosition ← nextHistoryPosition taskHistoryRecordId
  let _ ← ask [.relate .history taskHistoryRecordId nodeRecordId (some historyPosition),
    .touch taskHistoryRecordId]
  ofExcept (memoryNodeFromRecord record parseTaskHistoryNode)

def actionForSessionAction (sessionActionId : String) : MemoryProgram (Option (Parsed Action)) := do
  let sessionActionRecordId ← ofExcept (memoryNodeRecordId sessionActionId)
  let relations ← ask [.selectTarget .action sessionActionRecordId]
  match relations with
  | .edge target _ :: _ => do
    let actionRecordId ← ofExcept (memoryNodeRecordId target)
    let records ← ask [.selectNode actionRecordId]
    if records = [] then .done none
    else do
      let node ← ofExcept (firstRecord records)
      ofExcept ((memoryNodeFromRecord node parseAction).map some)
  | [] => .done none
  | .node _ :: _ => .raise (.keyError "out")
  | .position _ :: _ => .raise (.keyError "out")

/-- The loop of `actions_for_node`. -/
def actionsOf : List Record → MemoryProgram (List (Parsed Action))
  | [] => .done []
  | .edge target _ :: rest => do
    let action ← actionForSessionAction target
    let others ← actionsOf rest
    .done (action.toList ++ others)
  | .node _ :: _ => .raise (.keyError "out")
  | .position _ :: _ => .raise (.keyError "out")

def actionsForNode (taskHistoryNodeId : String) : MemoryProgram (List (Parsed Action)) := do
  let nodeRecordId ← ofExcept (memoryNodeRecordId taskHistoryNodeId)
  let relations ← ask [.selectPositions .actions nodeRecordId]
  actionsOf relations

structure TaskHistoryRecord where
  node : Parsed TaskHistoryNode
  actions : List (Parsed Action)
  deriving DecidableEq

def records (taskHistoryId : String) : MemoryProgram (List TaskHistoryRecord) := do
  let taskHistoryRecordId ← ofExcept (memoryNodeRecordId taskHistoryId)
  let relations ← ask [.selectPositions .history taskHistoryRecordId]
  inOrder (fun records => do
    let first ← ofExcept (firstRecord records)
    let node ← ofExcept (memoryNodeFromRecord first parseTaskHistoryNode)
    let actions ← actionsForNode node.id
    .done ⟨node, actions⟩) relations

end TaskHistoryStore
end ReframeMemory
