import Mathlib.Data.List.Nodup
import Mathlib.Tactic.Common

/-! Selected memories on their way into the task prompt. The retrieved graph is listed as
candidates, filtered to the kept ids with the wrappers around them, and turned into prompt contexts:
three traversals of one nested graph. -/
namespace Baml

structure RetrievedTaskNode where
  id : String
  name : String
  description : String
  input : String
  output : String
  prompt : String
  providerId : String
  tags : List String
  createdAt : String
  updatedAt : String
  readAt : String
  deriving DecidableEq

structure RetrievedSessionNode where
  id : String
  name : String
  tags : List String
  createdAt : String
  updatedAt : String
  readAt : String
  deriving DecidableEq

structure RetrievedSessionMemoryNode where
  id : String
  title : String
  description : String
  tags : List String
  createdAt : String
  updatedAt : String
  readAt : String
  deriving DecidableEq

structure RetrievedConversationNode where
  id : String
  name : String
  tags : List String
  createdAt : String
  updatedAt : String
  readAt : String
  deriving DecidableEq

structure RetrievedConversationMessageNode where
  id : String
  role : String
  content : String
  tags : List String
  createdAt : String
  updatedAt : String
  readAt : String
  deriving DecidableEq

structure RetrievedConversationGraph where
  conversation : RetrievedConversationNode
  isMatched : Bool
  messages : List RetrievedConversationMessageNode
  matchedMessageIds : List String
  deriving DecidableEq

structure RetrievedSessionGraph where
  session : RetrievedSessionNode
  isMatched : Bool
  conversations : List RetrievedConversationGraph
  sessionMemories : List RetrievedSessionMemoryNode
  deriving DecidableEq

structure RetrievedMemoryGraph where
  taskCatalog : List RetrievedTaskNode
  pastSessions : List RetrievedSessionGraph
  currentSessionMemories : List RetrievedSessionMemoryNode
  deriving DecidableEq

structure UserPreferenceMemoryContext where
  id : String
  title : String
  description : String
  tags : List String
  createdAt : String
  updatedAt : String
  readAt : String
  deriving DecidableEq

structure RelevantMemoryDecision where
  keptMemoryIds : List String
  deriving DecidableEq

structure RetrievedMemoryCandidate where
  id : String
  kind : String
  title : String
  description : String
  tags : List String
  createdAt : String
  updatedAt : String
  readAt : String
  retrievalMatched : Bool
  parentSessionId : Option String
  parentConversationId : Option String
  deriving DecidableEq

structure TaskPromptSelectedMemoryContext where
  title : String
  description : String
  tags : List String
  createdAt : String
  updatedAt : String
  readAt : String
  deriving DecidableEq

/-! The candidates. -/

def taskCandidateDescription (task : RetrievedTaskNode) : String :=
  "\n".intercalate <|
    (if task.description ≠ "" then ["description: " ++ task.description] else []) ++
    (if task.input ≠ "" then ["input: " ++ task.input] else []) ++
    (if task.output ≠ "" then ["output: " ++ task.output] else []) ++
    (if task.prompt ≠ "" then ["prompt: " ++ task.prompt] else []) ++
    (if task.providerId ≠ "" then ["provider_id: " ++ task.providerId] else [])

def taskCandidate (task : RetrievedTaskNode) : RetrievedMemoryCandidate where
  id := task.id
  kind := "task"
  title := task.name
  description := taskCandidateDescription task
  tags := task.tags
  createdAt := task.createdAt
  updatedAt := task.updatedAt
  readAt := task.readAt
  retrievalMatched := true
  parentSessionId := none
  parentConversationId := none

def currentSessionMemoryCandidate (memory : RetrievedSessionMemoryNode)
    (currentSessionId : Option String) : RetrievedMemoryCandidate where
  id := memory.id
  kind := "current_session_memory"
  title := memory.title
  description := memory.description
  tags := memory.tags
  createdAt := memory.createdAt
  updatedAt := memory.updatedAt
  readAt := memory.readAt
  retrievalMatched := false
  parentSessionId := currentSessionId
  parentConversationId := none

def userPreferenceCandidate (preference : UserPreferenceMemoryContext) :
    RetrievedMemoryCandidate where
  id := preference.id
  kind := "user_preference"
  title := preference.title
  description := preference.description
  tags := preference.tags
  createdAt := preference.createdAt
  updatedAt := preference.updatedAt
  readAt := preference.readAt
  retrievalMatched := false
  parentSessionId := none
  parentConversationId := none

def sessionCandidate (session : RetrievedSessionGraph) (isCurrentSession : Bool) :
    RetrievedMemoryCandidate where
  id := session.session.id
  kind := if isCurrentSession then "current_session" else "past_session"
  title := session.session.name
  description := if isCurrentSession then "Current session wrapper." else "Past session wrapper."
  tags := session.session.tags
  createdAt := session.session.createdAt
  updatedAt := session.session.updatedAt
  readAt := session.session.readAt
  retrievalMatched := session.isMatched
  parentSessionId := none
  parentConversationId := none

def sessionMemoryCandidate (session : RetrievedSessionGraph) (memory : RetrievedSessionMemoryNode)
    (isCurrentSession : Bool) : RetrievedMemoryCandidate where
  id := memory.id
  kind := if isCurrentSession then "current_session_memory" else "past_session_memory"
  title := memory.title
  description := memory.description
  tags := memory.tags
  createdAt := memory.createdAt
  updatedAt := memory.updatedAt
  readAt := memory.readAt
  retrievalMatched := true
  parentSessionId := some session.session.id
  parentConversationId := none

def conversationCandidate (session : RetrievedSessionGraph)
    (conversation : RetrievedConversationGraph) (isCurrentSession : Bool) :
    RetrievedMemoryCandidate where
  id := conversation.conversation.id
  kind := if isCurrentSession then "current_conversation" else "past_conversation"
  title := conversation.conversation.name
  description :=
    if isCurrentSession then "Current conversation wrapper." else "Past conversation wrapper."
  tags := conversation.conversation.tags
  createdAt := conversation.conversation.createdAt
  updatedAt := conversation.conversation.updatedAt
  readAt := conversation.conversation.readAt
  retrievalMatched := conversation.isMatched
  parentSessionId := some session.session.id
  parentConversationId := none

def messageMatchedMemorySearch (conversation : RetrievedConversationGraph)
    (message : RetrievedConversationMessageNode) : Bool :=
  if conversation.matchedMessageIds ≠ [] then conversation.matchedMessageIds.contains message.id
  else true

def conversationMessageCandidate (session : RetrievedSessionGraph)
    (conversation : RetrievedConversationGraph) (message : RetrievedConversationMessageNode)
    (isCurrentSession : Bool) : RetrievedMemoryCandidate where
  id := message.id
  kind := if isCurrentSession then "current_conversation_message" else "past_conversation_message"
  title := message.role ++ " message"
  description := message.content
  tags := message.tags
  createdAt := message.createdAt
  updatedAt := message.updatedAt
  readAt := message.readAt
  retrievalMatched := messageMatchedMemorySearch conversation message
  parentSessionId := some session.session.id
  parentConversationId := some conversation.conversation.id

def isCurrentSession (session : RetrievedSessionGraph) (currentSessionId : Option String) : Bool :=
  currentSessionId = some session.session.id

def candidates (memories : RetrievedMemoryGraph) (currentSessionId : Option String)
    (userPreferences : List UserPreferenceMemoryContext) : List RetrievedMemoryCandidate :=
  memories.taskCatalog.map taskCandidate ++
  memories.currentSessionMemories.map (currentSessionMemoryCandidate · currentSessionId) ++
  userPreferences.map userPreferenceCandidate ++
  memories.pastSessions.flatMap fun session =>
    let current := isCurrentSession session currentSessionId
    sessionCandidate session current ::
      (session.sessionMemories.map (sessionMemoryCandidate session · current) ++
      session.conversations.flatMap fun conversation =>
        conversationCandidate session conversation current ::
          conversation.messages.map (conversationMessageCandidate session conversation · current))

/-! The filter. -/

def relevantConversationGraph (conversation : RetrievedConversationGraph) (keptIds : List String) :
    Option RetrievedConversationGraph :=
  let messages := conversation.messages.filter fun message => keptIds.contains message.id
  let hasRelevantContext :=
    keptIds.contains conversation.conversation.id || decide (messages ≠ [])
  if !hasRelevantContext then none
  else some { conversation with
    messages
    matchedMessageIds := conversation.matchedMessageIds.filter fun id => keptIds.contains id }

def relevantSessionGraph (session : RetrievedSessionGraph) (keptIds : List String) :
    Option RetrievedSessionGraph :=
  let conversations := session.conversations.filterMap (relevantConversationGraph · keptIds)
  let sessionMemories := session.sessionMemories.filter fun memory => keptIds.contains memory.id
  let hasRelevantContext := keptIds.contains session.session.id || decide (conversations ≠ []) ||
    decide (sessionMemories ≠ [])
  if !hasRelevantContext then none
  else some { session with conversations, sessionMemories }

def selectedGraph (memories : RetrievedMemoryGraph) (decision : RelevantMemoryDecision) :
    RetrievedMemoryGraph :=
  let keptIds := decision.keptMemoryIds
  { taskCatalog := memories.taskCatalog.filter fun task => keptIds.contains task.id
    pastSessions := memories.pastSessions.filterMap (relevantSessionGraph · keptIds)
    currentSessionMemories :=
      memories.currentSessionMemories.filter fun memory => keptIds.contains memory.id }

/-! The contexts. -/

def contextFromTask (task : RetrievedTaskNode) : TaskPromptSelectedMemoryContext :=
  ⟨task.name, task.description, task.tags, task.createdAt, task.updatedAt, task.readAt⟩

def contextFromSession (session : RetrievedSessionGraph) (isCurrentSession : Bool) :
    TaskPromptSelectedMemoryContext :=
  ⟨(if isCurrentSession then "Current" else "Past") ++ " session: " ++ session.session.name,
    "Parent session for selected remembered context.", session.session.tags,
    session.session.createdAt, session.session.updatedAt, session.session.readAt⟩

def contextFromConversation (session : RetrievedSessionGraph)
    (conversation : RetrievedConversationGraph) (isCurrentSession : Bool) :
    TaskPromptSelectedMemoryContext :=
  ⟨(if isCurrentSession then "Current" else "Past") ++ " conversation: " ++
      conversation.conversation.name,
    "Parent conversation for selected remembered context in session: " ++ session.session.name ++
      ".", conversation.conversation.tags,
    conversation.conversation.createdAt, conversation.conversation.updatedAt,
    conversation.conversation.readAt⟩

def contextFromSessionMemory (memory : RetrievedSessionMemoryNode) :
    TaskPromptSelectedMemoryContext :=
  ⟨memory.title, memory.description, memory.tags, memory.createdAt, memory.updatedAt,
    memory.readAt⟩

def contextFromUserPreference (preference : UserPreferenceMemoryContext) :
    TaskPromptSelectedMemoryContext :=
  ⟨preference.title, preference.description, preference.tags, preference.createdAt,
    preference.updatedAt, preference.readAt⟩

def contextFromMessage (message : RetrievedConversationMessageNode) :
    TaskPromptSelectedMemoryContext :=
  ⟨message.role ++ " message", message.content, message.tags, message.createdAt,
    message.updatedAt, message.readAt⟩

def keepSessionContext (session : RetrievedSessionGraph) (selectedIds : List String) : Bool :=
  session.isMatched || selectedIds.contains session.session.id ||
    decide (session.sessionMemories ≠ []) || decide (session.conversations ≠ [])

def keepConversationContext (conversation : RetrievedConversationGraph)
    (selectedIds : List String) : Bool :=
  conversation.isMatched || selectedIds.contains conversation.conversation.id ||
    decide (conversation.messages ≠ [])

def promptContexts (memories : RetrievedMemoryGraph) (selectedMemoryIds : List String)
    (currentSessionId : Option String) (userPreferences : List UserPreferenceMemoryContext) :
    List TaskPromptSelectedMemoryContext :=
  memories.taskCatalog.map contextFromTask ++
  memories.currentSessionMemories.map contextFromSessionMemory ++
  (userPreferences.filter fun preference => selectedMemoryIds.contains preference.id).map
    contextFromUserPreference ++
  memories.pastSessions.flatMap fun session =>
    let current := isCurrentSession session currentSessionId
    (if keepSessionContext session selectedMemoryIds then [contextFromSession session current]
      else []) ++
    (session.sessionMemories.map contextFromSessionMemory ++
    session.conversations.flatMap fun conversation =>
      (if keepConversationContext conversation selectedMemoryIds then
        [contextFromConversation session conversation current] else []) ++
      conversation.messages.map contextFromMessage)

/-! What the three traversals have in common: the entries of the graph in their order. -/

inductive Entry where
  | task (task : RetrievedTaskNode)
  | currentSessionMemory (memory : RetrievedSessionMemoryNode)
  | userPreference (preference : UserPreferenceMemoryContext)
  | session (session : RetrievedSessionGraph)
  | sessionMemory (session : RetrievedSessionGraph) (memory : RetrievedSessionMemoryNode)
  | conversation (session : RetrievedSessionGraph) (conversation : RetrievedConversationGraph)
  | message (session : RetrievedSessionGraph) (conversation : RetrievedConversationGraph)
      (message : RetrievedConversationMessageNode)
  deriving DecidableEq

namespace Entry

def id : Entry → String
  | .task node => node.id
  | .currentSessionMemory node => node.id
  | .userPreference node => node.id
  | .session outer => outer.session.id
  | .sessionMemory _ node => node.id
  | .conversation _ inner => inner.conversation.id
  | .message _ _ node => node.id

def candidate (currentSessionId : Option String) : Entry → RetrievedMemoryCandidate
  | .task node => taskCandidate node
  | .currentSessionMemory node => currentSessionMemoryCandidate node currentSessionId
  | .userPreference node => userPreferenceCandidate node
  | .session outer => sessionCandidate outer (isCurrentSession outer currentSessionId)
  | .sessionMemory outer node =>
    sessionMemoryCandidate outer node (isCurrentSession outer currentSessionId)
  | .conversation outer inner =>
    conversationCandidate outer inner (isCurrentSession outer currentSessionId)
  | .message outer inner node =>
    conversationMessageCandidate outer inner node (isCurrentSession outer currentSessionId)

def context (currentSessionId : Option String) : Entry → TaskPromptSelectedMemoryContext
  | .task node => contextFromTask node
  | .currentSessionMemory node => contextFromSessionMemory node
  | .userPreference node => contextFromUserPreference node
  | .session outer => contextFromSession outer (isCurrentSession outer currentSessionId)
  | .sessionMemory _ node => contextFromSessionMemory node
  | .conversation outer inner =>
    contextFromConversation outer inner (isCurrentSession outer currentSessionId)
  | .message _ _ node => contextFromMessage node

/-- The first is the session or the conversation that the second lies in. -/
def surrounds : Entry → Entry → Bool
  | .session outer, .sessionMemory inner _ => outer.session.id = inner.session.id
  | .session outer, .conversation inner _ => outer.session.id = inner.session.id
  | .session outer, .message inner _ _ => outer.session.id = inner.session.id
  | .conversation _ outer, .message _ inner _ => outer.conversation.id = inner.conversation.id
  | _, _ => false

end Entry

def conversationEntries (session : RetrievedSessionGraph)
    (conversation : RetrievedConversationGraph) : List Entry :=
  .conversation session conversation :: conversation.messages.map (.message session conversation)

def sessionEntries (session : RetrievedSessionGraph) : List Entry :=
  .session session :: (session.sessionMemories.map (.sessionMemory session) ++
    session.conversations.flatMap (conversationEntries session))

def entries (memories : RetrievedMemoryGraph)
    (userPreferences : List UserPreferenceMemoryContext) : List Entry :=
  memories.taskCatalog.map .task ++ memories.currentSessionMemories.map .currentSessionMemory ++
    userPreferences.map .userPreference ++ memories.pastSessions.flatMap sessionEntries

/-- No two entries of the graph share an id. -/
def RetrievedMemoryGraph.DistinctIds (memories : RetrievedMemoryGraph) : Prop :=
  ((entries memories []).map Entry.id).Nodup

instance (memories : RetrievedMemoryGraph) : Decidable memories.DistinctIds :=
  inferInstanceAs (Decidable (List.Nodup _))

/-- An entry is kept itself, or lies around a kept one. -/
def keptOrAround (all : List Entry) (keptIds : List String) (entry : Entry) : Bool :=
  keptIds.contains entry.id ||
    all.any fun inner => keptIds.contains inner.id && entry.surrounds inner

theorem candidates_eq (memories : RetrievedMemoryGraph) (currentSessionId : Option String)
    (userPreferences : List UserPreferenceMemoryContext) :
    candidates memories currentSessionId userPreferences =
      (entries memories userPreferences).map (Entry.candidate currentSessionId) := by
  simp only [candidates, entries, sessionEntries, conversationEntries, List.map_append,
    List.map_map, List.map_flatMap, List.map_cons, Function.comp_def, Entry.candidate]

variable {memories : RetrievedMemoryGraph} {keptIds : List String}
  {userPreferences : List UserPreferenceMemoryContext}
  {session : RetrievedSessionGraph} {conversation : RetrievedConversationGraph}

theorem mem_entries {entry : Entry} : entry ∈ entries memories userPreferences ↔
    (∃ task ∈ memories.taskCatalog, entry = .task task) ∨
    (∃ memory ∈ memories.currentSessionMemories, entry = .currentSessionMemory memory) ∨
    (∃ preference ∈ userPreferences, entry = .userPreference preference) ∨
    ∃ session ∈ memories.pastSessions, entry ∈ sessionEntries session := by
  simp only [entries, List.mem_append, List.mem_map, List.mem_flatMap, or_assoc, eq_comm]

theorem mem_sessionEntries {entry : Entry} : entry ∈ sessionEntries session ↔
    entry = .session session ∨
    (∃ memory ∈ session.sessionMemories, entry = .sessionMemory session memory) ∨
    ∃ conversation ∈ session.conversations, entry ∈ conversationEntries session conversation := by
  simp only [sessionEntries, List.mem_cons, List.mem_append, List.mem_map, List.mem_flatMap,
    eq_comm]

theorem mem_conversationEntries {entry : Entry} :
    entry ∈ conversationEntries session conversation ↔
    entry = .conversation session conversation ∨
    ∃ message ∈ conversation.messages, entry = .message session conversation message := by
  simp only [conversationEntries, List.mem_cons, List.mem_map, eq_comm]

/-- The entries of a graph are told apart by their ids. -/
theorem RetrievedMemoryGraph.DistinctIds.eq_of_id (h : memories.DistinctIds)
    {outer inner : Entry} (houter : outer ∈ entries memories [])
    (hinner : inner ∈ entries memories []) (hid : outer.id = inner.id) : outer = inner :=
  List.inj_on_of_nodup_map h houter hinner hid

theorem RetrievedMemoryGraph.DistinctIds.session_eq (h : memories.DistinctIds)
    (hsession : session ∈ memories.pastSessions) {other : RetrievedSessionGraph}
    (hother : other ∈ memories.pastSessions) (hid : session.session.id = other.session.id) :
    session = other := by
  have hmem : ∀ s ∈ memories.pastSessions, Entry.session s ∈ entries memories [] :=
    fun s hs => mem_entries.mpr (.inr (.inr (.inr ⟨s, hs, mem_sessionEntries.mpr (.inl rfl)⟩)))
  exact Entry.session.inj (h.eq_of_id (hmem _ hsession) (hmem _ hother) hid)

theorem RetrievedMemoryGraph.DistinctIds.conversation_eq (h : memories.DistinctIds)
    (hsession : session ∈ memories.pastSessions)
    (hconversation : conversation ∈ session.conversations)
    {other : RetrievedSessionGraph} (hother : other ∈ memories.pastSessions)
    {inner : RetrievedConversationGraph} (hinner : inner ∈ other.conversations)
    (hid : conversation.conversation.id = inner.conversation.id) : conversation = inner := by
  have hmem : ∀ s ∈ memories.pastSessions, ∀ c ∈ s.conversations,
      Entry.conversation s c ∈ entries memories [] := by
    intro s hs c hc
    exact mem_entries.mpr (.inr (.inr (.inr ⟨s, hs, mem_sessionEntries.mpr
      (.inr (.inr ⟨c, hc, mem_conversationEntries.mpr (.inl rfl)⟩))⟩)))
  exact (Entry.conversation.inj
    (h.eq_of_id (hmem _ hsession _ hconversation) (hmem _ hother _ hinner) hid)).2

theorem keptOrAround_iff {all : List Entry} {entry : Entry} :
    keptOrAround all keptIds entry = true ↔ entry.id ∈ keptIds ∨
      ∃ inner ∈ all, inner.id ∈ keptIds ∧ entry.surrounds inner = true := by
  simp only [keptOrAround, Bool.or_eq_true, List.any_eq_true, Bool.and_eq_true,
    List.contains_iff_mem]

/-- Only sessions and conversations lie around others. -/
theorem keptOrAround_leaf {all : List Entry} {entry : Entry}
    (h : ∀ inner, entry.surrounds inner = false) :
    keptOrAround all keptIds entry = keptIds.contains entry.id := by
  simp only [keptOrAround, h, Bool.and_false, List.any_eq_false.mpr fun _ _ => Bool.false_ne_true,
    Bool.or_false]

theorem relevantConversationGraph_isSome :
    (relevantConversationGraph conversation keptIds).isSome = true ↔
      conversation.conversation.id ∈ keptIds ∨
        ∃ message ∈ conversation.messages, message.id ∈ keptIds := by
  have hmessages : (conversation.messages.filter fun message => keptIds.contains message.id) ≠ [] ↔
      ∃ message ∈ conversation.messages, message.id ∈ keptIds := by
    simp only [Ne, List.filter_eq_nil_iff, List.contains_iff_mem]
    push Not
    rfl
  rw [← hmessages, ← List.contains_iff_mem, relevantConversationGraph]
  split_ifs with h
  · simpa using h
  · simpa only [Bool.not_eq_true', Bool.not_eq_false, Bool.or_eq_true, decide_eq_true_eq,
      Option.isSome_some, true_iff] using h

theorem relevantSessionGraph_isSome :
    (relevantSessionGraph session keptIds).isSome = true ↔ session.session.id ∈ keptIds ∨
      (∃ conversation ∈ session.conversations,
        (relevantConversationGraph conversation keptIds).isSome = true) ∨
      ∃ memory ∈ session.sessionMemories, memory.id ∈ keptIds := by
  have hmemories : (session.sessionMemories.filter fun memory => keptIds.contains memory.id) ≠ [] ↔
      ∃ memory ∈ session.sessionMemories, memory.id ∈ keptIds := by
    simp only [Ne, List.filter_eq_nil_iff, List.contains_iff_mem]
    push Not
    rfl
  have hconversations :
      (session.conversations.filterMap (relevantConversationGraph · keptIds)) ≠ [] ↔
        ∃ conversation ∈ session.conversations,
          (relevantConversationGraph conversation keptIds).isSome = true := by
    simp only [Ne, List.filterMap_eq_nil_iff, Option.isSome_iff_ne_none]
    push Not
    rfl
  rw [← hmemories, ← hconversations, ← List.contains_iff_mem, relevantSessionGraph]
  split_ifs with h
  · simpa [and_assoc] using h
  · simpa only [Bool.not_eq_true', Bool.not_eq_false, Bool.or_eq_true, decide_eq_true_eq,
      Option.isSome_some, true_iff, or_assoc] using h

/-- A conversation is passed on exactly when it is kept or lies around something kept. -/
theorem RetrievedMemoryGraph.DistinctIds.conversation_kept (h : memories.DistinctIds)
    (hsession : session ∈ memories.pastSessions)
    (hconversation : conversation ∈ session.conversations) :
    keptOrAround (entries memories userPreferences) keptIds (.conversation session conversation) =
      (relevantConversationGraph conversation keptIds).isSome := by
  rw [Bool.eq_iff_iff, keptOrAround_iff, relevantConversationGraph_isSome]
  refine or_congr_right ⟨?_, ?_⟩
  · rintro ⟨inner, hinner, hkept, hsurrounds⟩
    obtain ⟨task, -, rfl⟩ | ⟨memory, -, rfl⟩ | ⟨preference, -, rfl⟩ | ⟨other, hother, hinner⟩ :=
      mem_entries.mp hinner
    · cases hsurrounds
    · cases hsurrounds
    · cases hsurrounds
    · obtain rfl | ⟨memory, -, rfl⟩ | ⟨c, hc, hinner⟩ := mem_sessionEntries.mp hinner
      · cases hsurrounds
      · cases hsurrounds
      · obtain rfl | ⟨message, hmessage, rfl⟩ := mem_conversationEntries.mp hinner
        · cases hsurrounds
        · have heq := h.conversation_eq hsession hconversation hother hc
            (of_decide_eq_true hsurrounds)
          exact ⟨message, heq ▸ hmessage, hkept⟩
  · rintro ⟨message, hmessage, hkept⟩
    refine ⟨.message session conversation message, ?_, hkept, decide_eq_true rfl⟩
    exact mem_entries.mpr (.inr (.inr (.inr ⟨session, hsession, mem_sessionEntries.mpr
      (.inr (.inr ⟨conversation, hconversation, mem_conversationEntries.mpr
        (.inr ⟨message, hmessage, rfl⟩)⟩))⟩)))

theorem RetrievedMemoryGraph.DistinctIds.session_kept (h : memories.DistinctIds)
    (hsession : session ∈ memories.pastSessions) :
    keptOrAround (entries memories userPreferences) keptIds (.session session) =
      (relevantSessionGraph session keptIds).isSome := by
  rw [Bool.eq_iff_iff, keptOrAround_iff, relevantSessionGraph_isSome]
  refine or_congr_right ⟨?_, ?_⟩
  · rintro ⟨inner, hinner, hkept, hsurrounds⟩
    obtain ⟨task, -, rfl⟩ | ⟨memory, -, rfl⟩ | ⟨preference, -, rfl⟩ | ⟨other, hother, hinner⟩ :=
      mem_entries.mp hinner
    · cases hsurrounds
    · cases hsurrounds
    · cases hsurrounds
    · obtain rfl | ⟨memory, hmemory, rfl⟩ | ⟨c, hc, hinner⟩ := mem_sessionEntries.mp hinner
      · cases hsurrounds
      · obtain rfl := h.session_eq hsession hother (of_decide_eq_true hsurrounds)
        exact .inr ⟨memory, hmemory, hkept⟩
      · obtain rfl | ⟨message, hmessage, rfl⟩ := mem_conversationEntries.mp hinner
        · obtain rfl := h.session_eq hsession hother (of_decide_eq_true hsurrounds)
          exact .inl ⟨c, hc, relevantConversationGraph_isSome.mpr (.inl hkept)⟩
        · obtain rfl := h.session_eq hsession hother (of_decide_eq_true hsurrounds)
          exact .inl ⟨c, hc, relevantConversationGraph_isSome.mpr (.inr ⟨message, hmessage, hkept⟩)⟩
  · have hmem : ∀ inner ∈ sessionEntries session, inner ∈ entries memories userPreferences :=
      fun inner hinner => mem_entries.mpr (.inr (.inr (.inr ⟨session, hsession, hinner⟩)))
    rintro (⟨c, hc, hsome⟩ | ⟨memory, hmemory, hkept⟩)
    · obtain hkept | ⟨message, hmessage, hkept⟩ := relevantConversationGraph_isSome.mp hsome
      · exact ⟨.conversation session c, hmem _ (mem_sessionEntries.mpr (.inr (.inr
          ⟨c, hc, mem_conversationEntries.mpr (.inl rfl)⟩))), hkept, decide_eq_true rfl⟩
      · exact ⟨.message session c message, hmem _ (mem_sessionEntries.mpr (.inr (.inr
          ⟨c, hc, mem_conversationEntries.mpr (.inr ⟨message, hmessage, rfl⟩)⟩))), hkept,
          decide_eq_true rfl⟩
    · exact ⟨.sessionMemory session memory, hmem _ (mem_sessionEntries.mpr (.inr (.inl
        ⟨memory, hmemory, rfl⟩))), hkept, decide_eq_true rfl⟩

/-- What is passed on of a conversation gives its context and those of its kept messages. -/
theorem RetrievedMemoryGraph.DistinctIds.conversation_contexts (h : memories.DistinctIds)
    (hsession : session ∈ memories.pastSessions)
    (hconversation : conversation ∈ session.conversations) (currentSessionId : Option String)
    {outer : RetrievedSessionGraph} (houter : outer.session = session.session) :
    ((relevantConversationGraph conversation keptIds).elim [] fun kept =>
        (if keepConversationContext kept keptIds then
          [contextFromConversation outer kept (isCurrentSession outer currentSessionId)] else []) ++
        kept.messages.map contextFromMessage) =
      ((conversationEntries session conversation).filter
        (keptOrAround (entries memories userPreferences) keptIds)).map
          (Entry.context currentSessionId) := by
  have hmessages : ((conversation.messages.map (Entry.message session conversation)).filter
      (keptOrAround (entries memories userPreferences) keptIds)).map
        (Entry.context currentSessionId) =
      (conversation.messages.filter fun message => keptIds.contains message.id).map
        contextFromMessage := by
    rw [List.filter_map, List.map_map]
    congr 1
    exact List.filter_congr fun message _ => keptOrAround_leaf fun inner => by cases inner <;> rfl
  rw [conversationEntries, List.filter_cons, h.conversation_kept hsession hconversation]
  cases hrelevant : relevantConversationGraph conversation keptIds with
  | none =>
    have hnone := mt relevantConversationGraph_isSome.mpr (by rw [hrelevant]; exact Bool.false_ne_true)
    have hfilter : (conversation.messages.filter fun message => keptIds.contains message.id) = [] := by
      refine List.filter_eq_nil_iff.mpr fun message hmessage hkept => hnone (.inr ?_)
      exact ⟨message, hmessage, List.contains_iff_mem.mp hkept⟩
    rw [if_neg (by simp), hmessages, hfilter]
    rfl
  | some kept =>
    have hkeep : keepConversationContext kept keptIds = true ∧
        kept.conversation = conversation.conversation ∧
        kept.messages = conversation.messages.filter fun message => keptIds.contains message.id := by
      rw [relevantConversationGraph] at hrelevant
      split_ifs at hrelevant with hcontext
      cases hrelevant
      refine ⟨?_, rfl, rfl⟩
      rw [keepConversationContext, Bool.or_assoc, Bool.or_eq_true]
      exact .inr (by simpa only [Bool.not_eq_true', Bool.not_eq_false] using hcontext)
    rw [if_pos (by simp), List.map_cons, hmessages, Option.elim_some, if_pos hkeep.1, hkeep.2.2,
      List.singleton_append, Entry.context, contextFromConversation, contextFromConversation,
      hkeep.2.1, isCurrentSession, isCurrentSession, houter]

theorem flatMap_filterMap_eq {α β γ : Type} (f : α → Option β) (g : β → List γ) (l : List α) :
    (l.filterMap f).flatMap g = l.flatMap fun a => (f a).elim [] g := by
  induction l with
  | nil => rfl
  | cons a l ih =>
    rw [List.filterMap_cons, List.flatMap_cons, ← ih]
    cases f a <;> rfl

/-- The contexts of one session, as `PromptContexts` pushes them. -/
def sessionContexts (selectedMemoryIds : List String) (currentSessionId : Option String)
    (session : RetrievedSessionGraph) : List TaskPromptSelectedMemoryContext :=
  let current := isCurrentSession session currentSessionId
  (if keepSessionContext session selectedMemoryIds then [contextFromSession session current]
    else []) ++
  (session.sessionMemories.map contextFromSessionMemory ++
  session.conversations.flatMap fun conversation =>
    (if keepConversationContext conversation selectedMemoryIds then
      [contextFromConversation session conversation current] else []) ++
    conversation.messages.map contextFromMessage)

theorem RetrievedMemoryGraph.DistinctIds.session_contexts (h : memories.DistinctIds)
    (hsession : session ∈ memories.pastSessions) (currentSessionId : Option String) :
    ((relevantSessionGraph session keptIds).elim [] (sessionContexts keptIds currentSessionId)) =
      ((sessionEntries session).filter
        (keptOrAround (entries memories userPreferences) keptIds)).map
          (Entry.context currentSessionId) := by
  have hmemories : ((session.sessionMemories.map (Entry.sessionMemory session)).filter
      (keptOrAround (entries memories userPreferences) keptIds)).map
        (Entry.context currentSessionId) =
      (session.sessionMemories.filter fun memory => keptIds.contains memory.id).map
        contextFromSessionMemory := by
    rw [List.filter_map, List.map_map]
    congr 1
    exact List.filter_congr fun memory _ => keptOrAround_leaf fun inner => by cases inner <;> rfl
  have hconversations : ∀ outer : RetrievedSessionGraph, outer.session = session.session →
      ((session.conversations.flatMap (conversationEntries session)).filter
        (keptOrAround (entries memories userPreferences) keptIds)).map
          (Entry.context currentSessionId) =
      (session.conversations.filterMap (relevantConversationGraph · keptIds)).flatMap fun kept =>
        (if keepConversationContext kept keptIds then
          [contextFromConversation outer kept (isCurrentSession outer currentSessionId)] else []) ++
        kept.messages.map contextFromMessage := by
    intro outer houter
    rw [flatMap_filterMap_eq, List.filter_flatMap, List.map_flatMap]
    exact List.flatMap_congr fun conversation hconversation =>
      (h.conversation_contexts hsession hconversation currentSessionId houter).symm
  rw [sessionEntries, List.filter_cons, h.session_kept hsession]
  cases hrelevant : relevantSessionGraph session keptIds with
  | none =>
    have hnone := mt relevantSessionGraph_isSome.mpr (by rw [hrelevant]; exact Bool.false_ne_true)
    have hfilter : (session.sessionMemories.filter fun memory => keptIds.contains memory.id) = [] := by
      refine List.filter_eq_nil_iff.mpr fun memory hmemory hkept => hnone (.inr (.inr ?_))
      exact ⟨memory, hmemory, List.contains_iff_mem.mp hkept⟩
    have hnoConversation :
        session.conversations.filterMap (relevantConversationGraph · keptIds) = [] := by
      refine List.filterMap_eq_nil_iff.mpr fun conversation hconversation => ?_
      by_contra hsome
      exact hnone (.inr (.inl ⟨conversation, hconversation, Option.isSome_iff_ne_none.mpr hsome⟩))
    rw [if_neg (by simp), List.filter_append, List.map_append, hmemories, hfilter,
      hconversations session rfl, hnoConversation]
    rfl
  | some kept =>
    have hkeep : keepSessionContext kept keptIds = true ∧ kept.session = session.session ∧
        kept.sessionMemories =
          (session.sessionMemories.filter fun memory => keptIds.contains memory.id) ∧
        kept.conversations =
          session.conversations.filterMap (relevantConversationGraph · keptIds) := by
      rw [relevantSessionGraph] at hrelevant
      split_ifs at hrelevant with hcontext
      cases hrelevant
      refine ⟨?_, rfl, rfl, rfl⟩
      simp only [Bool.not_eq_true', Bool.not_eq_false, Bool.or_eq_true] at hcontext
      simp only [keepSessionContext, Bool.or_eq_true]
      tauto
    obtain ⟨hkept, hsame, hkeptMemories, hkeptConversations⟩ := hkeep
    rw [if_pos (by simp), List.map_cons, List.filter_append, List.map_append, hmemories,
      hconversations kept hsame, Option.elim_some, sessionContexts, if_pos hkept, hkeptMemories,
      hkeptConversations, List.singleton_append, Entry.context, contextFromSession,
      contextFromSession, isCurrentSession, isCurrentSession, hsame]

theorem promptContexts_selectedGraph (h : memories.DistinctIds)
    (decision : RelevantMemoryDecision) (currentSessionId : Option String) :
    promptContexts (selectedGraph memories decision) decision.keptMemoryIds currentSessionId
        userPreferences =
      ((entries memories userPreferences).filter
        (keptOrAround (entries memories userPreferences) decision.keptMemoryIds)).map
          (Entry.context currentSessionId) := by
  have hleaf : ∀ {α : Type} (wrap : α → Entry) (l : List α),
      (∀ a inner, (wrap a).surrounds inner = false) →
      (l.map wrap).filter (keptOrAround (entries memories userPreferences) decision.keptMemoryIds) =
        (l.filter fun a => decision.keptMemoryIds.contains (wrap a).id).map wrap := by
    intro α wrap l hwrap
    rw [List.filter_map]
    congr 1
    exact List.filter_congr fun a _ => keptOrAround_leaf (hwrap a)
  have hsessions : ((memories.pastSessions.flatMap sessionEntries).filter
      (keptOrAround (entries memories userPreferences) decision.keptMemoryIds)).map
        (Entry.context currentSessionId) =
      (memories.pastSessions.filterMap (relevantSessionGraph · decision.keptMemoryIds)).flatMap
        (sessionContexts decision.keptMemoryIds currentSessionId) := by
    rw [flatMap_filterMap_eq, List.filter_flatMap, List.map_flatMap]
    exact List.flatMap_congr fun session hsession =>
      (h.session_contexts hsession currentSessionId).symm
  generalize keptOrAround (entries memories userPreferences) decision.keptMemoryIds = keep
    at hleaf hsessions ⊢
  rw [entries, List.filter_append, List.filter_append, List.filter_append,
    hleaf .task _ fun a inner => by cases inner <;> rfl,
    hleaf .currentSessionMemory _ fun a inner => by cases inner <;> rfl,
    hleaf .userPreference _ fun a inner => by cases inner <;> rfl]
  rw [List.map_append, hsessions]
  simp only [List.map_append, List.map_map, Function.comp_def, Entry.context]
  rfl

theorem filter_filter_self {α : Type} (p : α → Bool) (l : List α) :
    (l.filter p).filter p = l.filter p := by
  rw [List.filter_filter]
  simp only [Bool.and_self]

/-- What was filtered passes the filter unchanged. -/
theorem filterMap_filterMap_self {α : Type} {f : α → Option α}
    (h : ∀ a b, f a = some b → f b = some b) (l : List α) :
    (l.filterMap f).filterMap f = l.filterMap f := by
  induction l with
  | nil => rfl
  | cons a l ih =>
    rw [List.filterMap_cons]
    cases hfa : f a with
    | none => exact ih
    | some b =>
      dsimp only
      rw [List.filterMap_cons, h a b hfa, ih]

theorem relevantConversationGraph_again {kept : RetrievedConversationGraph}
    (h : relevantConversationGraph conversation keptIds = some kept) :
    relevantConversationGraph kept keptIds = some kept := by
  rw [relevantConversationGraph] at h ⊢
  split_ifs at h with hcontext
  cases h
  dsimp only at hcontext ⊢
  rw [filter_filter_self, filter_filter_self, if_neg hcontext]

theorem relevantSessionGraph_again {kept : RetrievedSessionGraph}
    (h : relevantSessionGraph session keptIds = some kept) :
    relevantSessionGraph kept keptIds = some kept := by
  rw [relevantSessionGraph] at h ⊢
  split_ifs at h with hcontext
  cases h
  dsimp only at hcontext ⊢
  rw [filter_filter_self, filterMap_filterMap_self fun _ _ => relevantConversationGraph_again,
    if_neg hcontext]

theorem selectedGraph_again (memories : RetrievedMemoryGraph) (decision : RelevantMemoryDecision) :
    selectedGraph (selectedGraph memories decision) decision = selectedGraph memories decision := by
  simp only [selectedGraph, filter_filter_self,
    filterMap_filterMap_self fun _ _ => relevantSessionGraph_again]

/-- The contexts of the selected graph are those of the candidates that are kept or lie around a
kept one, in the order of the candidates; and selecting again changes nothing. -/
theorem selected_memories_reach_prompt (h : memories.DistinctIds)
    (userPreferences : List UserPreferenceMemoryContext) (decision : RelevantMemoryDecision)
    (currentSessionId : Option String) :
    candidates memories currentSessionId userPreferences =
        (entries memories userPreferences).map (Entry.candidate currentSessionId) ∧
      promptContexts (selectedGraph memories decision) decision.keptMemoryIds currentSessionId
          userPreferences =
        ((entries memories userPreferences).filter
          (keptOrAround (entries memories userPreferences) decision.keptMemoryIds)).map
            (Entry.context currentSessionId) ∧
      selectedGraph (selectedGraph memories decision) decision = selectedGraph memories decision :=
  ⟨candidates_eq memories currentSessionId userPreferences,
    promptContexts_selectedGraph h decision currentSessionId,
    selectedGraph_again memories decision⟩

namespace TestVectors

/-- A session that matched nothing itself, with one conversation of two messages. -/
def jokeSession : RetrievedSessionGraph where
  session := ⟨"session", "Past session", [], "", "", "NONE"⟩
  isMatched := false
  conversations := [{
    conversation := ⟨"conversation", "Joke conversation", [], "", "", "NONE"⟩
    isMatched := false
    messages := [⟨"human-message", "human", "Tell me a joke.", [], "", "", "NONE"⟩,
      ⟨"agent-message", "agent", "Unselected reply.", [], "", "", "NONE"⟩]
    matchedMessageIds := ["human-message"] }]
  sessionMemories := []

/-- A kept message comes with its two wrappers, and without its neighbour. -/
theorem selected_memories_reach_prompt_joke :
    RetrievedMemoryGraph.DistinctIds ⟨[], [jokeSession], []⟩ ∧
      (promptContexts (selectedGraph ⟨[], [jokeSession], []⟩ ⟨["human-message"]⟩) ["human-message"]
        none []).map TaskPromptSelectedMemoryContext.title =
        ["Past session: Past session", "Past conversation: Joke conversation",
          "human message"] := by
  have hdistinct : RetrievedMemoryGraph.DistinctIds ⟨[], [jokeSession], []⟩ := by decide
  refine ⟨hdistinct, ?_⟩
  rw [(selected_memories_reach_prompt hdistinct [] ⟨["human-message"]⟩ none).2.1]
  decide

end TestVectors
end Baml
