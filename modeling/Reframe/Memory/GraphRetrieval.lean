import Reframe.Memory.NodeSearch
import Reframe.Memory.Stores

/-! The memory context of a turn: a nested traversal of tasks, sessions, conversations, messages and
session memories that marks what it returns as read, level by level. -/
namespace ReframeMemory
open Interaction
open PyText (fromKeys mem_fromKeys)

structure Session where
  name : String
  deriving DecidableEq

def Session.asdict (s : Session) : Content := [("name", s.name)]

def parseSession (content : Content) : Except PyError Session := do
  let name ← field content "name"
  .ok ⟨name⟩

def SessionStore.search (keep : MemoryNode → Bool) (markRead : Bool) :
    MemoryProgram (List (Parsed Session)) :=
  readSelected (.select sessionsRootId .contains keep) parseSession markRead

/-! What matches. -/

structure TimestampBreadth where
  createdAfter : ℕ
  updatedAfter : ℕ
  readAfter : ℕ
  deriving DecidableEq

/-- `matches`: a node that was never read is new enough. -/
def TimestampBreadth.includes {α : Type} (breadth : TimestampBreadth) (node : Parsed α) : Bool :=
  if node.createdAt < breadth.createdAfter then false
  else if node.updatedAt < breadth.updatedAfter then false
  else match node.readAt with
    | none => true
    | some readAt => breadth.readAfter ≤ readAt

structure GraphSearchHints where
  tags : TagSearch
  strings : StringSearch
  deriving DecidableEq

/-- `_field_values`. -/
def fieldValues (content : Content) (fields : List String) : List String :=
  fields.filterMap fun key => content.lookup key

-- `str.lower`.
variable (lower : String → String)

namespace GraphSearchHints

def excludedByTags (hints : GraphSearchHints) (tags : List String) : Bool :=
  hints.tags.noneOf.any fun tag => tag ∈ tags

def hasPositiveTerms (hints : GraphSearchHints) : Bool :=
  hints.tags.anyOf ≠ [] || hints.tags.allOf ≠ [] || hints.strings.contains ≠ [] ||
    hints.strings.equals ≠ []

def matchesPositiveTag (hints : GraphSearchHints) (tags : List String) : Bool :=
  (hints.tags.anyOf ++ hints.tags.allOf).any fun tag => tag ∈ tags

def matchesPositiveString (hints : GraphSearchHints) (values : List String) : Bool :=
  (hints.strings.contains.any fun term =>
    values.any fun value => stringContains (lower value) (lower term)) ||
  values.any fun value => value ∈ hints.strings.equals

/-- `matches`, for the tags of a node and the values of the fields searched. -/
def includes (hints : GraphSearchHints) (tags values : List String) : Bool :=
  if hints.excludedByTags tags then false
  else if hints.hasPositiveTerms then
    hints.matchesPositiveTag tags || hints.matchesPositiveString lower values
  else false

end GraphSearchHints

def candidateMatches {α : Type} (node : Parsed α) (asdict : α → Content) (fields : List String)
    (hints : GraphSearchHints) (breadth : TimestampBreadth) : Bool :=
  breadth.includes node && hints.includes lower node.tags (fieldValues (asdict node.content) fields)

def taskMatches (hints : GraphSearchHints) (breadth : TimestampBreadth) (task : Parsed Task) : Bool :=
  candidateMatches lower task Task.asdict
    ["name", "description", "input", "output", "prompt", "provider_id"] hints breadth

def sessionMatches (hints : GraphSearchHints) (breadth : TimestampBreadth)
    (session : Parsed Session) : Bool :=
  candidateMatches lower session Session.asdict ["name"] hints breadth

def conversationMatches (hints : GraphSearchHints) (breadth : TimestampBreadth)
    (conversation : Parsed Conversation) : Bool :=
  candidateMatches lower conversation Conversation.asdict ["name"] hints breadth

def messageMatches (hints : GraphSearchHints) (breadth : TimestampBreadth)
    (message : Parsed ConversationMessage) : Bool :=
  candidateMatches lower message ConversationMessage.asdict ["role", "content"] hints breadth

def sessionMemoryMatches (hints : GraphSearchHints) (breadth : TimestampBreadth)
    (memory : Parsed SessionMemory) : Bool :=
  candidateMatches lower memory SessionMemory.asdict ["title", "description"] hints breadth

/-! What is returned. -/

structure RetrievedConversation where
  conversation : Parsed Conversation
  matched : Bool
  messages : List (Parsed ConversationMessage)
  matchedMessageIds : List String
  deriving DecidableEq

structure RetrievedSessionContext where
  session : Parsed Session
  matched : Bool
  conversations : List RetrievedConversation
  sessionMemories : List (Parsed SessionMemory)
  deriving DecidableEq

structure RetrievedMemoryContext where
  taskCatalog : List (Parsed Task)
  pastConversationContext : List RetrievedSessionContext
  currentSessionMemories : List (Parsed SessionMemory)
  deriving DecidableEq

/-! The records that appear in a context. -/

def RetrievedConversation.ids (c : RetrievedConversation) : List String :=
  c.conversation.id :: c.messages.map Parsed.id

def RetrievedSessionContext.ids (s : RetrievedSessionContext) : List String :=
  s.session.id :: (s.conversations.flatMap RetrievedConversation.ids ++
    s.sessionMemories.map Parsed.id)

def RetrievedMemoryContext.ids (context : RetrievedMemoryContext) : List String :=
  context.taskCatalog.map Parsed.id ++
    (context.pastConversationContext.flatMap RetrievedSessionContext.ids ++
      context.currentSessionMemories.map Parsed.id)

def taskCatalogDomain : String := "task_catalog"
def pastConversationContextDomain : String := "past_conversation_context"

structure GraphRetrievalRequest where
  hints : GraphSearchHints
  depths : List (String × TimestampBreadth)

/-! The retriever. -/

/-- The updates of `mark_record_ids_read`, one query each. -/
def markEach : List String → MemoryProgram Unit
  | [] => .done ()
  | recordId :: rest => do
    let _ ← ask [.markRead recordId]
    markEach rest

def markRecordIdsRead (recordIds : List String) : MemoryProgram Unit := do
  let ids ← ofExcept (recordIds.mapM memoryNodeRecordId)
  markEach (fromKeys ids)

structure GraphMemoryRetriever where
  currentSessionId : Option String

namespace GraphMemoryRetriever

def normalizedSessionId : Option String → Except PyError (Option String)
  | none => .ok none
  | some sessionId => (memoryNodeRecordId sessionId).map some

def sessionMemoryCandidates (sessionId : String) (hints : GraphSearchHints)
    (breadth : TimestampBreadth) : MemoryProgram (List (Parsed SessionMemory)) := do
  let memories ← SessionStore.memoriesFor sessionId false
  let matched := memories.filter (sessionMemoryMatches lower hints breadth)
  markRecordIdsRead (matched.map Parsed.id)
  .done matched

/-- All messages of a conversation where one of them matches, and which ones match. -/
def messageCandidates (conversationId : String) (hints : GraphSearchHints)
    (breadth : TimestampBreadth) :
    MemoryProgram (List (Parsed ConversationMessage) × List String) := do
  let messages ← ConversationMemory.messagesFor conversationId false
  let matched := messages.filter (messageMatches lower hints breadth)
  if matched = [] then .done ([], [])
  else do
    markRecordIdsRead (messages.map Parsed.id)
    .done (messages, matched.map Parsed.id)

/-- The loop of `_conversation_contexts`. -/
def conversationContextsOf (hints : GraphSearchHints) (breadth : TimestampBreadth) :
    List (Parsed Conversation) → MemoryProgram (List RetrievedConversation)
  | [] => .done []
  | conversation :: rest => do
    let candidates ← messageCandidates lower conversation.id hints breadth
    if conversationMatches lower hints breadth conversation || candidates.1 ≠ [] then do
      markRecordIdsRead [conversation.id]
      let others ← conversationContextsOf hints breadth rest
      .done (⟨conversation, conversationMatches lower hints breadth conversation, candidates.1,
        candidates.2⟩ :: others)
    else conversationContextsOf hints breadth rest

def conversationContexts (sessionId : String) (hints : GraphSearchHints)
    (breadth : TimestampBreadth) : MemoryProgram (List RetrievedConversation) := do
  let conversations ← SessionStore.conversationsFor sessionId false
  conversationContextsOf lower hints breadth conversations

def sessionContext (session : Parsed Session) (hints : GraphSearchHints)
    (breadth : TimestampBreadth) (includeSessionMemories : Bool) :
    MemoryProgram (Option RetrievedSessionContext) := do
  let conversations ← conversationContexts lower session.id hints breadth
  let sessionMemories ←
    (if includeSessionMemories then sessionMemoryCandidates lower session.id hints breadth
    else .done [])
  if !sessionMatches lower hints breadth session && conversations = [] && sessionMemories = [] then
    .done none
  else do
    markRecordIdsRead [session.id]
    .done (some ⟨session, sessionMatches lower hints breadth session, conversations,
      sessionMemories⟩)

/-- The loop of `_past_conversation_context`. -/
def sessionContexts (hints : GraphSearchHints) (breadth : TimestampBreadth)
    (currentSessionId : Option String) :
    List (Parsed Session) → MemoryProgram (List RetrievedSessionContext)
  | [] => .done []
  | session :: rest => do
    let context ← sessionContext lower session hints breadth (currentSessionId ≠ some session.id)
    let others ← sessionContexts hints breadth currentSessionId rest
    .done (context.toList ++ others)

variable (retriever : GraphMemoryRetriever) (request : GraphRetrievalRequest)

def taskCatalog : MemoryProgram (List (Parsed Task)) :=
  match request.depths.lookup taskCatalogDomain with
  | none => .done []
  | some breadth => do
    let tasks ← TaskMemory.search (fun _ => true) false
    let matched := tasks.filter (taskMatches lower request.hints breadth)
    markRecordIdsRead (matched.map Parsed.id)
    .done matched

def pastConversationContext : MemoryProgram (List RetrievedSessionContext) :=
  match request.depths.lookup pastConversationContextDomain with
  | none => .done []
  | some breadth => do
    let sessions ← SessionStore.search (fun _ => true) false
    let currentSessionId ← ofExcept (normalizedSessionId retriever.currentSessionId)
    sessionContexts lower request.hints breadth currentSessionId sessions

def currentSessionMemories : MemoryProgram (List (Parsed SessionMemory)) := do
  let currentSessionId ← ofExcept (normalizedSessionId retriever.currentSessionId)
  match currentSessionId with
  | none => .done []
  | some currentSessionId => SessionStore.memoriesFor currentSessionId true

def retrieve : MemoryProgram RetrievedMemoryContext := do
  let tasks ← taskCatalog lower request
  let sessions ← pastConversationContext lower retriever request
  let memories ← currentSessionMemories retriever
  .done ⟨tasks, sessions, memories⟩

end GraphMemoryRetriever

/-! What a run that returns has done. -/

theorem mapM_memoryNodeRecordId (recordIds : List String) : ∀ {ids : List String},
    recordIds.mapM memoryNodeRecordId = .ok ids → ids = recordIds := by
  induction recordIds with
  | nil => simp [pure, Except.pure, eq_comm]
  | cons recordId rest ih =>
    intro ids h
    rw [List.mapM_cons] at h
    cases hid : memoryNodeRecordId recordId with
    | error e => simp [hid, bind, Except.bind] at h
    | ok id =>
      cases hrest : rest.mapM memoryNodeRecordId with
      | error e => simp [hid, hrest, bind, Except.bind] at h
      | ok others =>
        simp [hid, hrest, bind, Except.bind, pure, Except.pure] at h
        rw [← h, memoryNodeRecordId_ok hid, ih hrest]

/-- What a reader returns for these nodes. -/
def shown {α : Type} (parse : Content → Except PyError α) (nodes : List MemoryNode) :
    Except PyError (List (Parsed α)) :=
  parseRecords parse (nodes.map .node)

theorem shown_cons {α : Type} {parse : Content → Except PyError α} {node : MemoryNode}
    {rest : List MemoryNode} {xs : List (Parsed α)} : shown parse (node :: rest) = .ok xs ↔
      ∃ x, memoryNodeFromRecord node parse = .ok x ∧ ∃ others, shown parse rest = .ok others ∧
        xs = x :: others := by
  cases hnode : memoryNodeFromRecord node parse with
  | error e => simp [shown, parseRecords, hnode, bind, Except.bind]
  | ok x =>
    cases hrest : parseRecords parse (rest.map .node) with
    | error e => simp [shown, parseRecords, hnode, hrest, bind, Except.bind]
    | ok others => simp [shown, parseRecords, hnode, hrest, bind, Except.bind, eq_comm]

section

variable [Surreal] {α β : Type}

def Returns (p : MemoryProgram α) (g : Graph) (a : α) (g' : Graph) : Prop :=
  p.run Graph.answer g = (g', .ok a)

@[simp] theorem returns_done {a b : α} {g g' : Graph} :
    Returns (.done a) g b g' ↔ g' = g ∧ b = a := by
  simp [Returns, eq_comm]

@[simp] theorem returns_raise {e : PyError} {g g' : Graph} {a : α} :
    ¬Returns (.raise e) g a g' := by
  simp [Returns]

@[simp] theorem returns_ofExcept {x : Except PyError α} {g g' : Graph} {a : α} :
    Returns (ofExcept x) g a g' ↔ g' = g ∧ x = .ok a := by
  cases x <;> simp [eq_comm]

@[simp] theorem returns_query {query : Query} {next : List Record → MemoryProgram α}
    {g g' : Graph} {a : α} : Returns (.query query next) g a g' ↔
      Returns (next (Graph.answer query g).2) (Graph.answer query g).1 a g' :=
  Iff.rfl

theorem returns_ask {query : Query} {f : List Record → MemoryProgram α} {g g' : Graph} {a : α} :
    Returns (ask query >>= f) g a g' ↔
      Returns (f (Graph.answer query g).2) (Graph.answer query g).1 a g' :=
  Iff.rfl

theorem returns_bind {p : MemoryProgram α} {f : α → MemoryProgram β} {g g' : Graph} {b : β} :
    Returns (p >>= f) g b g' ↔ ∃ a h, Returns p g a h ∧ Returns (f a) h b g' :=
  Program.run_bind_eq_ok Graph.answer

/-- A record id that passes its check is used as it is. -/
theorem returns_recordId {recordId : String} {f : String → MemoryProgram α} {g g' : Graph} {a : α}
    (hrun : Returns (ofExcept (memoryNodeRecordId recordId) >>= f) g a g') :
    Returns (f recordId) g a g' := by
  obtain ⟨id, h, hread, hrest⟩ := returns_bind.mp hrun
  obtain ⟨rfl, hid⟩ := returns_ofExcept.mp hread
  obtain rfl := memoryNodeRecordId_ok hid
  exact hrest

/-- From `g` to `g'` exactly these records have been marked as read. -/
structure MarkedRead (g g' : Graph) (ids : List String) : Prop where
  edges : g'.edges = g.edges
  ticks : g.ticks ≤ g'.ticks
  marked : ∀ id ∈ ids, ∃ fields tick, g.nodes.get? id = some fields ∧ g.ticks ≤ tick ∧
    tick < g'.ticks ∧ g'.nodes.get? id = some { fields with readAt := some (Surreal.now tick) }
  kept : ∀ id, id ∉ ids → g'.nodes.get? id = g.nodes.get? id

namespace MarkedRead

variable {g h g' : Graph} {ids more : List String}

theorem tick (g : Graph) (ticks : ℕ) (hticks : g.ticks ≤ ticks) :
    MarkedRead g { g with ticks } [] where
  edges := rfl
  ticks := hticks
  marked := by simp
  kept _ _ := rfl

theorem refl (g : Graph) : MarkedRead g g [] := tick g g.ticks le_rfl

theorem congr (hm : MarkedRead g g' ids) (hids : ∀ id, id ∈ more ↔ id ∈ ids) :
    MarkedRead g g' more where
  edges := hm.edges
  ticks := hm.ticks
  marked id hid := hm.marked id ((hids id).mp hid)
  kept id hid := hm.kept id fun hmem => hid ((hids id).mpr hmem)

theorem trans (hm : MarkedRead g h ids) (hm' : MarkedRead h g' more) :
    MarkedRead g g' (ids ++ more) where
  edges := hm'.edges.trans hm.edges
  ticks := hm.ticks.trans hm'.ticks
  marked id hid := by
    by_cases hlater : id ∈ more
    · obtain ⟨fields, tick, hget, hlow, hhigh, hmarked⟩ := hm'.marked id hlater
      by_cases hearlier : id ∈ ids
      · -- marked twice: the later time stays
        obtain ⟨first, tick', hfirst, -, -, hthen⟩ := hm.marked id hearlier
        rw [hget, Option.some.injEq] at hthen
        exact ⟨first, tick, hfirst, hm.ticks.trans hlow, hhigh, by simp [hmarked, hthen]⟩
      · exact ⟨fields, tick, by rw [← hm.kept id hearlier, hget], hm.ticks.trans hlow, hhigh,
          hmarked⟩
    · have hearlier : id ∈ ids := by simpa [hlater] using hid
      obtain ⟨fields, tick, hget, hlow, hhigh, hmarked⟩ := hm.marked id hearlier
      exact ⟨fields, tick, hget, hlow, hhigh.trans_le hm'.ticks, by rw [hm'.kept id hlater, hmarked]⟩
  kept id hid := by
    simp only [List.mem_append, not_or] at hid
    rw [hm'.kept id hid.2, hm.kept id hid.1]

/-- A node is what it was before, up to its last reading. -/
theorem node? (hm : MarkedRead g g' ids) (id : String) :
    (g'.node? id).map MemoryNode.id = (g.node? id).map MemoryNode.id := by
  unfold Graph.node?
  by_cases hid : id ∈ ids
  · obtain ⟨fields, tick, hget, -, -, hmarked⟩ := hm.marked id hid
    simp [hget, hmarked]
  · rw [hm.kept id hid]

theorem isSome (hm : MarkedRead g g' ids) (id : String) :
    (g'.nodes.get? id).isSome = (g.nodes.get? id).isSome := by
  simpa [Graph.node?] using congrArg Option.isSome (hm.node? id)

theorem edgesFrom (hm : MarkedRead g g' ids) (table : Relation) (source : String) :
    g'.edgesFrom table source = g.edgesFrom table source := by
  simp [Graph.edgesFrom, hm.edges]

theorem related (hm : MarkedRead g g' ids) (source : String) (table : Relation) :
    (g'.related source table).map MemoryNode.id = (g.related source table).map MemoryNode.id := by
  simp [Graph.related, hm.edgesFrom, List.map_filterMap, hm.node?]

/-- One update, of a record that is there. -/
theorem markRead (g : Graph) {id : String} (hid : (g.nodes.get? id).isSome) :
    MarkedRead g (g.answer [.markRead id]).1 [id] := by
  obtain ⟨fields, hget⟩ := Option.isSome_iff_exists.mp hid
  simp only [Graph.answer, Graph.execute, Graph.effect, Graph.modify, hget, List.foldl_nil]
  refine ⟨rfl, Nat.le_succ _, fun id' hid' => ?_, fun id' hid' => ?_⟩
  · obtain rfl : id' = id := by simpa using hid'
    exact ⟨fields, g.ticks, hget, le_rfl, Nat.lt_succ_self _, by simp⟩
  · exact FiniteMap.get?_insert_ne _ (by simpa using hid') _

end MarkedRead

theorem marked_markEach (ids : List String) : ∀ {g g' : Graph},
    Returns (markEach ids) g () g' → (∀ id ∈ ids, (g.nodes.get? id).isSome) →
      MarkedRead g g' ids := by
  induction ids with
  | nil =>
    intro g g' hrun _
    obtain ⟨rfl, -⟩ := returns_done.mp hrun
    exact .refl _
  | cons id rest ih =>
    intro g g' hrun hthere
    have hfirst := MarkedRead.markRead g (hthere id (by simp))
    refine hfirst.trans (ih hrun fun id' hid' => ?_)
    rw [hfirst.isSome]
    exact hthere id' (by simp [hid'])

theorem marked_markRecordIdsRead {recordIds : List String} {g g' : Graph}
    (hrun : Returns (markRecordIdsRead recordIds) g () g')
    (hthere : ∀ id ∈ recordIds, (g.nodes.get? id).isSome) : MarkedRead g g' recordIds := by
  obtain ⟨ids, h, hread, hmark⟩ := returns_bind.mp hrun
  obtain ⟨rfl, hids⟩ := returns_ofExcept.mp hread
  obtain rfl := mapM_memoryNodeRecordId _ hids
  exact (marked_markEach _ hmark fun id hid => hthere id (mem_fromKeys.mp hid)).congr
    fun id => mem_fromKeys.symm

/-! What readers show. -/

/-- The nodes along the edges of one kind, as a search lists them. -/
def Graph.listing (g : Graph) (source : String) (table : Relation) : List MemoryNode :=
  Surreal.byRecency (fun node => (node.updatedAt, node.createdAt)) (g.related source table)

/-- The messages of a conversation that are there, in order of position. -/
def Graph.messages (g : Graph) (conversationId : String) : List MemoryNode :=
  (Surreal.byPosition (g.placed .hasMessage conversationId)).filterMap fun e => g.node? e.1

omit [Surreal] in
theorem ids_of_shown {parse : Content → Except PyError α} (nodes : List MemoryNode) :
    ∀ {xs : List (Parsed α)}, shown parse nodes = .ok xs →
      xs.map Parsed.id = nodes.map MemoryNode.id := by
  induction nodes with
  | nil =>
    intro xs h
    cases h
    rfl
  | cons node rest ih =>
    intro xs h
    obtain ⟨x, hx, others, hothers, rfl⟩ := shown_cons.mp h
    simp [ih hothers, id_of_memoryNodeFromRecord hx]

theorem MarkedRead.listing {g g' : Graph} {ids : List String} (hm : MarkedRead g g' ids)
    (source : String) (table : Relation) :
    ((g'.listing source table).map MemoryNode.id).Perm
      ((g.related source table).map MemoryNode.id) := by
  rw [← hm.related]
  exact (Surreal.byRecency_perm _ _).map _

omit [Surreal] in
theorem isSome_of_related {g : Graph} {source : String} {table : Relation} {id : String}
    (h : id ∈ (g.related source table).map MemoryNode.id) : (g.nodes.get? id).isSome := by
  obtain ⟨node, hnode, rfl⟩ := List.mem_map.mp h
  obtain ⟨e, -, he⟩ := List.mem_filterMap.mp hnode
  obtain ⟨fields, hget, rfl⟩ := Option.map_eq_some_iff.mp he
  simp [hget]

theorem isSome_of_listing {g : Graph} {source : String} {table : Relation}
    {parse : Content → Except PyError α} {xs : List (Parsed α)}
    (h : shown parse (g.listing source table) = .ok xs) :
    ∀ x ∈ xs, (g.nodes.get? x.id).isSome := by
  intro x hx
  have hid : x.id ∈ (g.listing source table).map MemoryNode.id := by
    rw [← ids_of_shown _ h]
    exact List.mem_map_of_mem hx
  exact isSome_of_related (((MarkedRead.refl g).listing source table).mem_iff.mp hid)

theorem returns_readSelected {source : String} {table : Relation}
    {parse : Content → Except PyError α} {g g' : Graph} {xs : List (Parsed α)} :
    Returns (readSelected (.select source table fun _ => true) parse false) g xs g' ↔
      g' = { g with ticks := g.ticks + 1 } ∧ shown parse (g.listing source table) = .ok xs := by
  simp [readSelected, touchedRecords, Graph.answer, Graph.execute, Graph.effect, shown,
    Graph.listing]

/-- The loop over the edges shows the nodes that are there. -/
theorem returns_inOrder {parse : Content → Except PyError α}
    {item : List Record → MemoryProgram (Parsed α)}
    (hitem : ∀ node, item [.node node] = ofExcept (memoryNodeFromRecord node parse))
    (es : List (String × ℤ)) : ∀ {g g' : Graph} {xs : List (Parsed α)},
      Returns (inOrder item (es.map fun e => .edge e.1 e.2)) g xs g' →
        MarkedRead g g' [] ∧ shown parse (es.filterMap fun e => g.node? e.1) = .ok xs := by
  induction es with
  | nil =>
    intro g g' xs h
    obtain ⟨rfl, rfl⟩ := returns_done.mp h
    exact ⟨.refl _, rfl⟩
  | cons e rest ih =>
    intro g g' xs h
    replace h := returns_recordId h
    have htick : MarkedRead g { g with ticks := g.ticks + 1 } [] := .tick g _ (Nat.le_succ _)
    cases hnode : g.node? e.1 with
    | none =>
      simp only [Program.ask_bind, returns_query, Graph.answer, Graph.execute, Graph.effect,
        List.foldl_nil, hnode, Option.map_none, Option.toList_none, if_true] at h
      obtain ⟨hmarked, hshown⟩ := ih h
      -- the tick leaves the nodes as they are
      have hrest : shown parse (rest.filterMap fun e => g.node? e.1) = .ok xs := hshown
      exact ⟨htick.trans hmarked, by simpa [hnode] using hrest⟩
    | some node =>
      simp [hitem, Graph.answer, Graph.execute, Graph.effect, hnode, returns_bind] at h
      obtain ⟨x, hx, others, hothers, rfl⟩ := h
      obtain ⟨hmarked, hshown⟩ := ih hothers
      refine ⟨htick.trans hmarked, ?_⟩
      simp only [List.filterMap_cons, hnode, shown_cons]
      exact ⟨x, hx, others, hshown, rfl⟩

theorem returns_messagesFor {conversationId : String} {g g' : Graph}
    {xs : List (Parsed ConversationMessage)}
    (h : Returns (ConversationMemory.messagesFor conversationId false) g xs g') :
    MarkedRead g g' [] ∧ shown parseConversationMessage (g.messages conversationId) = .ok xs := by
  have htick : MarkedRead g { g with ticks := g.ticks + 1 } [] := .tick g _ (Nat.le_succ _)
  obtain ⟨hmarked, hshown⟩ := returns_inOrder (fun _ => rfl) _ (returns_recordId h)
  exact ⟨htick.trans hmarked, hshown⟩

theorem returns_conversationsFor {sessionId : String} {g g' : Graph}
    {xs : List (Parsed Conversation)}
    (h : Returns (SessionStore.conversationsFor sessionId false) g xs g') :
    MarkedRead g g' [] ∧
      shown parseConversation (g.listing sessionId .hasConversation) = .ok xs := by
  obtain ⟨rfl, hshown⟩ := returns_readSelected.mp (returns_recordId h)
  exact ⟨.tick g _ (Nat.le_succ _), hshown⟩

theorem returns_memoriesFor {sessionId : String} {g g' : Graph} {xs : List (Parsed SessionMemory)}
    (h : Returns (SessionStore.memoriesFor sessionId false) g xs g') :
    MarkedRead g g' [] ∧
      shown parseSessionMemory (g.listing sessionId .hasSessionMemory) = .ok xs := by
  obtain ⟨rfl, hshown⟩ := returns_readSelected.mp (returns_recordId h)
  exact ⟨.tick g _ (Nat.le_succ _), hshown⟩

theorem returns_markRecordsRead (nodes : List MemoryNode) :
    ∀ {g g' : Graph} {records : List Record},
      Returns (markRecordsRead (nodes.map .node)) g records g' →
      (∀ node ∈ nodes, (g.nodes.get? node.id).isSome) →
        MarkedRead g g' (nodes.map MemoryNode.id) ∧
          ∃ marked : List MemoryNode, records = marked.map .node ∧
            marked.map MemoryNode.id = nodes.map MemoryNode.id := by
  induction nodes with
  | nil =>
    intro g g' records hrun _
    obtain ⟨rfl, rfl⟩ := returns_done.mp hrun
    exact ⟨.refl _, [], rfl, rfl⟩
  | cons node rest ih =>
    intro g g' records hrun hthere
    have hfirst := MarkedRead.markRead g (hthere node (by simp))
    obtain ⟨fields, hget⟩ := Option.isSome_iff_exists.mp (hthere node (by simp))
    obtain ⟨others, h, hothers, hdone⟩ :=
      returns_bind.mp (returns_ask.mp (returns_recordId hrun))
    obtain ⟨hmarked, marked, rfl, hids⟩ := ih hothers fun other hother => by
      rw [hfirst.isSome]
      exact hthere other (by simp [hother])
    obtain ⟨rfl, rfl⟩ := returns_done.mp hdone
    refine ⟨hfirst.trans hmarked, ?_⟩
    simp only [Graph.answer, Graph.execute, Graph.effect, Graph.modify, hget, List.headD_cons]
    exact ⟨⟨_, node.id⟩ :: marked, rfl, by simp [hids]⟩

theorem returns_memoriesFor_marked {sessionId : String} {g g' : Graph}
    {xs : List (Parsed SessionMemory)}
    (hrun : Returns (SessionStore.memoriesFor sessionId true) g xs g') :
    MarkedRead g g' (xs.map Parsed.id) ∧ (xs.map Parsed.id).Perm
      ((g.related sessionId .hasSessionMemory).map MemoryNode.id) := by
  have htick : MarkedRead g { g with ticks := g.ticks + 1 } [] := .tick g _ (Nat.le_succ _)
  have hperm := (MarkedRead.refl g).listing sessionId .hasSessionMemory
  have hrecords : (Graph.answer [.select sessionId .hasSessionMemory fun _ => true] g).2 =
      (g.listing sessionId .hasSessionMemory).map .node := by
    simp [Graph.answer, Graph.execute, Graph.effect, Graph.listing]
  obtain ⟨records, h, hmark, hparse⟩ := returns_bind.mp (returns_ask.mp (returns_recordId hrun))
  rw [hrecords] at hmark
  obtain ⟨hmarked, marked, rfl, hids⟩ := returns_markRecordsRead _ hmark fun node hnode =>
    isSome_of_related (hperm.mem_iff.mp (List.mem_map_of_mem hnode))
  obtain ⟨rfl, hshown⟩ := returns_ofExcept.mp hparse
  rw [ids_of_shown marked hshown, hids]
  exact ⟨htick.trans hmarked, hperm⟩

/-! What the traversal finds. -/

/-- Each is read once the records are marked that come with those before it. -/
def InTurn {σ : Type} (marks : σ → List String) (Read : List String → σ → Prop)
    (marked : List String) (xs : List σ) : Prop :=
  ∀ before x after, xs = before ++ x :: after → Read (marked ++ before.flatMap marks) x

omit [Surreal] in
theorem InTurn.nil {marks : α → List String} {Read : List String → α → Prop}
    {marked : List String} : InTurn marks Read marked [] :=
  fun _ _ _ heq => absurd heq (by simp)

omit [Surreal] in
theorem InTurn.cons {marks : α → List String} {Read : List String → α → Prop}
    {marked : List String} {x : α} {xs : List α} (hx : Read marked x)
    (hxs : InTurn marks Read (marked ++ marks x) xs) : InTurn marks Read marked (x :: xs) := by
  intro before y after heq
  cases before with
  | nil =>
    obtain ⟨rfl, -⟩ := List.cons.inj heq
    simpa using hx
  | cons z before =>
    obtain ⟨rfl, rfl⟩ := List.cons.inj heq
    simpa using hxs before y after rfl

omit [Surreal] in
theorem InTurn.exists_read {marks : α → List String} {Read : List String → α → Prop}
    {marked : List String} {xs : List α} (h : InTurn marks Read marked xs) {x : α} (hx : x ∈ xs) :
    ∃ earlier, Read earlier x := by
  obtain ⟨before, after, rfl⟩ := List.append_of_mem hx
  exact ⟨_, h before x after rfl⟩

omit [Surreal] in
/-- A loop that starts after other marks. -/
theorem InTurn.after {marks : α → List String} {Read Later : List String → α → Prop}
    {first marked : List String} (hlater : ∀ marked x, Read marked x → Later (first ++ marked) x)
    {xs : List α} (h : InTurn marks Read marked xs) : InTurn marks Later (first ++ marked) xs := by
  intro before x after heq
  rw [List.append_assoc]
  exact hlater _ x (h before x after heq)

end

/-- A conversation as the traversal finds it. -/
structure SeenConversation where
  conversation : Parsed Conversation
  messages : List (Parsed ConversationMessage)

/-- A session as the traversal finds it. -/
structure SeenSession where
  session : Parsed Session
  conversations : List SeenConversation
  memories : List (Parsed SessionMemory)

section

variable (hints : GraphSearchHints) (breadth : TimestampBreadth)

/-- The conversation or one of its messages matches. -/
def SeenConversation.found (c : SeenConversation) : Bool :=
  conversationMatches lower hints breadth c.conversation ||
    c.messages.any (messageMatches lower hints breadth)

/-- The session or something below it matches. -/
def SeenSession.found (s : SeenSession) : Bool :=
  sessionMatches lower hints breadth s.session ||
    s.conversations.any (SeenConversation.found lower hints breadth) ||
    s.memories.any (sessionMemoryMatches lower hints breadth)

/-- Its messages are returned together, where one of them matches. -/
def SeenConversation.context (c : SeenConversation) : RetrievedConversation where
  conversation := c.conversation
  matched := conversationMatches lower hints breadth c.conversation
  messages := if c.messages.any (messageMatches lower hints breadth) then c.messages else []
  matchedMessageIds := (c.messages.filter (messageMatches lower hints breadth)).map Parsed.id

def SeenSession.context (s : SeenSession) : RetrievedSessionContext where
  session := s.session
  matched := sessionMatches lower hints breadth s.session
  conversations := (s.conversations.filter (SeenConversation.found lower hints breadth)).map
    (SeenConversation.context lower hints breadth)
  sessionMemories := s.memories.filter (sessionMemoryMatches lower hints breadth)

/-- The records that are marked below it: those of what is returned. -/
def SeenConversation.marks (c : SeenConversation) : List String :=
  if c.found lower hints breadth then (c.context lower hints breadth).ids else []

def SeenSession.marks (s : SeenSession) : List String :=
  if s.found lower hints breadth then (s.context lower hints breadth).ids else []

theorem SeenConversation.flatMap_marks (seen : List SeenConversation) :
    ((seen.filter (SeenConversation.found lower hints breadth)).map
      (SeenConversation.context lower hints breadth)).flatMap RetrievedConversation.ids =
        seen.flatMap (SeenConversation.marks lower hints breadth) := by
  induction seen with
  | nil => rfl
  | cons c seen ih => by_cases hc : c.found lower hints breadth = true <;> simp [marks, hc, ih]

variable [Surreal]

/-- The messages are those of the graph once these records are marked. -/
def SeenConversation.Shown (g : Graph) (marked : List String) (c : SeenConversation) : Prop :=
  ∃ h, MarkedRead g h marked ∧
    shown parseConversationMessage (h.messages c.conversation.id) = .ok c.messages

/-- So are the conversations; their messages are read in turn, and then the session memories,
which are left in the current session. -/
structure SeenSession.Shown (g : Graph) (current : Option String) (marked : List String)
    (s : SeenSession) : Prop where
  conversations : ∃ h, MarkedRead g h marked ∧ shown parseConversation
    (h.listing s.session.id .hasConversation) = .ok (s.conversations.map (·.conversation))
  messages : InTurn (SeenConversation.marks lower hints breadth) (SeenConversation.Shown g) marked
    s.conversations
  memories : current ≠ some s.session.id → ∃ h, MarkedRead g h
      (marked ++ s.conversations.flatMap (SeenConversation.marks lower hints breadth)) ∧
    shown parseSessionMemory (h.listing s.session.id .hasSessionMemory) = .ok s.memories
  current : current = some s.session.id → s.memories = []

omit [Surreal] in
theorem SeenConversation.context_messages_ne_nil {c : SeenConversation} :
    (c.context lower hints breadth).messages ≠ [] ↔
      c.messages.any (messageMatches lower hints breadth) = true := by
  by_cases h : c.messages.any (messageMatches lower hints breadth) = true
  · have hne : c.messages ≠ [] := by
      intro hnil
      simp [hnil] at h
    simp [context, h, hne]
  · simp [context, h]

theorem SeenConversation.Shown.after {g g₀ : Graph} {first marked : List String}
    (hm : MarkedRead g g₀ first) {c : SeenConversation} (hc : c.Shown g₀ marked) :
    c.Shown g (first ++ marked) := by
  obtain ⟨h, hm', hshown⟩ := hc
  exact ⟨h, hm.trans hm', hshown⟩

variable {lower} {hints} {breadth} in
theorem SeenSession.Shown.after {g g₀ : Graph} {first marked : List String}
    (hm : MarkedRead g g₀ first) {current : Option String} {s : SeenSession}
    (hs : s.Shown lower hints breadth g₀ current marked) :
    s.Shown lower hints breadth g current (first ++ marked) where
  conversations := by
    obtain ⟨h, hm', hshown⟩ := hs.conversations
    exact ⟨h, hm.trans hm', hshown⟩
  messages := hs.messages.after fun _ _ hc => hc.after hm
  memories hother := by
    obtain ⟨h, hm', hshown⟩ := hs.memories hother
    rw [List.append_assoc]
    exact ⟨h, hm.trans hm', hshown⟩
  current := hs.current

/-! Each level marks what it returns. -/

namespace GraphMemoryRetriever

variable {lower} {hints} {breadth} {g g' : Graph}

theorem returns_sessionMemoryCandidates {sessionId : String} {found : List (Parsed SessionMemory)}
    (hrun : Returns (sessionMemoryCandidates lower sessionId hints breadth) g found g') :
    ∃ memories, shown parseSessionMemory (g.listing sessionId .hasSessionMemory) = .ok memories ∧
      found = memories.filter (sessionMemoryMatches lower hints breadth) ∧
      MarkedRead g g' (found.map Parsed.id) := by
  obtain ⟨memories, h, hread, hrest⟩ := returns_bind.mp hrun
  obtain ⟨hquiet, hshown⟩ := returns_memoriesFor hread
  obtain ⟨_, h', hmark, hdone⟩ := returns_bind.mp hrest
  obtain ⟨rfl, rfl⟩ := returns_done.mp hdone
  refine ⟨memories, hshown, rfl, hquiet.trans (marked_markRecordIdsRead hmark fun id hid => ?_)⟩
  obtain ⟨memory, hmemory, rfl⟩ := List.mem_map.mp hid
  rw [hquiet.isSome]
  exact isSome_of_listing hshown memory (List.mem_of_mem_filter hmemory)

theorem isSome_of_messages {conversationId : String} {messages : List (Parsed ConversationMessage)}
    (hshown : shown parseConversationMessage (g.messages conversationId) = .ok messages) :
    ∀ id ∈ messages.map Parsed.id, (g.nodes.get? id).isSome := by
  intro id hid
  rw [ids_of_shown _ hshown] at hid
  obtain ⟨node, hnode, rfl⟩ := List.mem_map.mp hid
  obtain ⟨e, -, he⟩ := List.mem_filterMap.mp hnode
  obtain ⟨fields, hget, rfl⟩ := Option.map_eq_some_iff.mp he
  simp [hget]

theorem returns_messageCandidates {conversation : Parsed Conversation}
    {found : List (Parsed ConversationMessage) × List String}
    (hrun : Returns (messageCandidates lower conversation.id hints breadth) g found g') :
    ∃ seen : SeenConversation, seen.conversation = conversation ∧ seen.Shown g [] ∧
      found.1 = (seen.context lower hints breadth).messages ∧
      found.2 = (seen.context lower hints breadth).matchedMessageIds ∧
      MarkedRead g g' (found.1.map Parsed.id) := by
  obtain ⟨messages, h, hread, hrest⟩ := returns_bind.mp hrun
  obtain ⟨hquiet, hshown⟩ := returns_messagesFor hread
  refine ⟨⟨conversation, messages⟩, rfl, ⟨g, .refl g, hshown⟩, ?_⟩
  by_cases hnone : messages.filter (messageMatches lower hints breadth) = []
  · have hany : messages.any (messageMatches lower hints breadth) = false := by
      simpa [List.filter_eq_nil_iff] using hnone
    simp only [hnone, if_true, returns_done] at hrest
    obtain ⟨rfl, rfl⟩ := hrest
    simpa [SeenConversation.context, hany, hnone] using hquiet
  · have hany : messages.any (messageMatches lower hints breadth) = true := by
      simpa [List.filter_eq_nil_iff] using hnone
    simp only [hnone, if_false] at hrest
    obtain ⟨_, h', hmark, hdone⟩ := returns_bind.mp hrest
    obtain ⟨rfl, rfl⟩ := returns_done.mp hdone
    have hmarked := marked_markRecordIdsRead hmark fun id hid => by
      rw [hquiet.isSome]
      exact isSome_of_messages hshown id hid
    simpa [SeenConversation.context, hany] using hquiet.trans hmarked

theorem returns_conversationContextsOf (conversations : List (Parsed Conversation)) :
    ∀ {g g' : Graph} {found : List RetrievedConversation},
      Returns (conversationContextsOf lower hints breadth conversations) g found g' →
      (∀ c ∈ conversations, (g.nodes.get? c.id).isSome) →
        ∃ seen : List SeenConversation, seen.map (·.conversation) = conversations ∧
          InTurn (SeenConversation.marks lower hints breadth) (SeenConversation.Shown g) [] seen ∧
          found = (seen.filter (SeenConversation.found lower hints breadth)).map
            (SeenConversation.context lower hints breadth) ∧
          MarkedRead g g' (found.flatMap RetrievedConversation.ids) := by
  induction conversations with
  | nil =>
    intro g g' found hrun _
    obtain ⟨rfl, rfl⟩ := returns_done.mp hrun
    exact ⟨[], rfl, .nil, rfl, .refl _⟩
  | cons conversation rest ih =>
    intro g g' found hrun hthere
    obtain ⟨candidates, h, hread, hrest⟩ := returns_bind.mp hrun
    obtain ⟨c, rfl, hshown, hmessages, hmatched, hm⟩ := returns_messageCandidates hread
    have hfound : (conversationMatches lower hints breadth c.conversation ||
        decide (candidates.1 ≠ [])) = c.found lower hints breadth := by
      rw [SeenConversation.found, hmessages]
      simp only [SeenConversation.context_messages_ne_nil, Bool.decide_eq_true]
    rw [hfound] at hrest
    by_cases hc : c.found lower hints breadth = true
    · -- it is returned, with its mark after those of its messages
      simp only [hc, if_true] at hrest
      obtain ⟨_, h', hmark, hrest⟩ := returns_bind.mp hrest
      obtain ⟨others, h'', hloop, hdone⟩ := returns_bind.mp hrest
      obtain ⟨rfl, rfl⟩ := returns_done.mp hdone
      have hcontext : (⟨c.conversation, conversationMatches lower hints breadth c.conversation,
          candidates.1, candidates.2⟩ : RetrievedConversation) = c.context lower hints breadth := by
        simp [hmessages, hmatched, SeenConversation.context]
      have hone := marked_markRecordIdsRead hmark fun id hid => by
        obtain rfl := List.mem_singleton.mp hid
        rw [hm.isSome]
        exact hthere c.conversation (by simp)
      have hfirst : MarkedRead g h' (c.context lower hints breadth).ids :=
        (hm.trans hone).congr fun id => by
          simp [RetrievedConversation.ids, hmessages, SeenConversation.context, or_comm]
      obtain ⟨seen, hseen, hshows, hothers, hmarked⟩ := ih hloop fun other hother => by
        rw [hfirst.isSome]
        exact hthere other (by simp [hother])
      rw [hcontext, List.flatMap_cons]
      refine ⟨c :: seen, by simp [hseen], .cons hshown ?_, by simp [hc, hothers],
        hfirst.trans hmarked⟩
      have hlater := hshows.after fun _ _ hread => hread.after hfirst
      simpa [SeenConversation.marks, hc] using hlater
    · -- none of its messages is marked
      have hnone : candidates.1 = [] := by
        by_contra hne
        simp [hne] at hfound
        exact hc hfound
      simp only [hc] at hrest
      simp only [hnone, List.map_nil] at hm
      obtain ⟨seen, hseen, hshows, hothers, hmarked⟩ := ih hrest fun other hother => by
        rw [hm.isSome]
        exact hthere other (by simp [hother])
      refine ⟨c :: seen, by simp [hseen], .cons hshown ?_, by simp [hc, hothers],
        hm.trans hmarked⟩
      have hlater := hshows.after fun _ _ hread => hread.after hm
      simpa [SeenConversation.marks, hc] using hlater

theorem returns_conversationContexts {sessionId : String} {found : List RetrievedConversation}
    (hrun : Returns (conversationContexts lower sessionId hints breadth) g found g') :
    ∃ seen : List SeenConversation, shown parseConversation
        (g.listing sessionId .hasConversation) = .ok (seen.map (·.conversation)) ∧
      InTurn (SeenConversation.marks lower hints breadth) (SeenConversation.Shown g) [] seen ∧
      found = (seen.filter (SeenConversation.found lower hints breadth)).map
        (SeenConversation.context lower hints breadth) ∧
      MarkedRead g g' (found.flatMap RetrievedConversation.ids) := by
  obtain ⟨conversations, h, hread, hloop⟩ := returns_bind.mp hrun
  obtain ⟨hquiet, hshown⟩ := returns_conversationsFor hread
  obtain ⟨seen, rfl, hshows, hfound, hmarked⟩ := returns_conversationContextsOf _ hloop
    fun c hc => by
      rw [hquiet.isSome]
      exact isSome_of_listing hshown c hc
  exact ⟨seen, hshown, hshows.after fun _ _ hread => hread.after hquiet, hfound,
    hquiet.trans hmarked⟩

theorem returns_sessionContext {session : Parsed Session} {current : Option String}
    {found : Option RetrievedSessionContext}
    (hrun : Returns (sessionContext lower session hints breadth (current ≠ some session.id))
      g found g') (hthere : (g.nodes.get? session.id).isSome) :
    ∃ s : SeenSession, s.session = session ∧
      s.Shown lower hints breadth g current [] ∧
      found = (if s.found lower hints breadth then some (s.context lower hints breadth) else none) ∧
      MarkedRead g g' (found.toList.flatMap RetrievedSessionContext.ids) := by
  obtain ⟨conversations, h₁, hconversations, hrest⟩ := returns_bind.mp hrun
  obtain ⟨memories, h₂, hmemories, hrest⟩ := returns_bind.mp hrest
  obtain ⟨seen, hlisted, hshows, hfound, hm₁⟩ := returns_conversationContexts hconversations
  have hmems : ∃ listed, (current ≠ some session.id → shown parseSessionMemory
        (h₁.listing session.id .hasSessionMemory) = .ok listed) ∧
      (current = some session.id → listed = []) ∧
      memories = listed.filter (sessionMemoryMatches lower hints breadth) ∧
      MarkedRead h₁ h₂ (memories.map Parsed.id) := by
    by_cases hcurrent : current = some session.id
    · simp [hcurrent] at hmemories
      obtain ⟨rfl, rfl⟩ := hmemories
      exact ⟨[], fun h => absurd hcurrent h, fun _ => rfl, rfl, .refl _⟩
    · simp [hcurrent] at hmemories
      obtain ⟨listed, hlisted, hmatch, hm⟩ := returns_sessionMemoryCandidates hmemories
      exact ⟨listed, fun _ => hlisted, fun h => absurd h hcurrent, hmatch, hm⟩
  obtain ⟨listed, hother, hown, hmatch, hm₂⟩ := hmems
  have hbefore : MarkedRead g h₁ (seen.flatMap (SeenConversation.marks lower hints breadth)) := by
    rwa [← SeenConversation.flatMap_marks, ← hfound]
  have hshown : SeenSession.Shown lower hints breadth g current [] ⟨session, seen, listed⟩ :=
    ⟨⟨g, .refl g, hlisted⟩, hshows, fun h => ⟨h₁, hbefore, hother h⟩, hown⟩
  have hnone : (!sessionMatches lower hints breadth session && decide (conversations = []) &&
      decide (memories = [])) = !(SeenSession.found lower hints breadth ⟨session, seen, listed⟩) := by
    rw [Bool.eq_iff_iff]
    simp [SeenSession.found, hfound, hmatch, List.filter_eq_nil_iff, and_assoc]
  have hm := hm₁.trans hm₂
  refine ⟨⟨session, seen, listed⟩, rfl, hshown, ?_⟩
  by_cases hs : SeenSession.found lower hints breadth ⟨session, seen, listed⟩ = true
  · simp only [hnone, hs, Bool.not_true, Bool.false_eq_true, if_false] at hrest
    obtain ⟨_, h₃, hmark, hdone⟩ := returns_bind.mp hrest
    obtain ⟨rfl, rfl⟩ := returns_done.mp hdone
    have hone := marked_markRecordIdsRead hmark fun id hid => by
      obtain rfl := List.mem_singleton.mp hid
      rwa [hm.isSome]
    have hids : ∀ id, id ∈ (some (⟨session, sessionMatches lower hints breadth session,
        conversations, memories⟩ : RetrievedSessionContext)).toList.flatMap
          RetrievedSessionContext.ids ↔
        id ∈ conversations.flatMap RetrievedConversation.ids ++ memories.map Parsed.id ++
          [session.id] := fun id => by
      simp only [RetrievedSessionContext.ids, Option.toList_some, List.flatMap_singleton,
        List.mem_cons, List.mem_append, List.not_mem_nil, or_false]
      tauto
    exact ⟨by simp [hs, SeenSession.context, hfound, hmatch], (hm.trans hone).congr hids⟩
  · have hnothing := hnone.trans (by simp [hs] : _ = true)
    simp only [Bool.and_eq_true, decide_eq_true_eq] at hnothing
    simp only [hnone, hs, Bool.not_false, if_true, returns_done] at hrest
    obtain ⟨rfl, rfl⟩ := hrest
    rw [hnothing.1.2, hnothing.2] at hm
    exact ⟨by simp [hs], by simpa using hm⟩

theorem returns_sessionContexts {current : Option String} (sessions : List (Parsed Session)) :
    ∀ {g g' : Graph} {found : List RetrievedSessionContext},
      Returns (sessionContexts lower hints breadth current sessions) g found g' →
      (∀ s ∈ sessions, (g.nodes.get? s.id).isSome) →
        ∃ seen : List SeenSession, seen.map (·.session) = sessions ∧
          InTurn (SeenSession.marks lower hints breadth)
            (SeenSession.Shown lower hints breadth g current) [] seen ∧
          found = (seen.filter (SeenSession.found lower hints breadth)).map
            (SeenSession.context lower hints breadth) ∧
          MarkedRead g g' (found.flatMap RetrievedSessionContext.ids) := by
  induction sessions with
  | nil =>
    intro g g' found hrun _
    obtain ⟨rfl, rfl⟩ := returns_done.mp hrun
    exact ⟨[], rfl, .nil, rfl, .refl _⟩
  | cons session rest ih =>
    intro g g' found hrun hthere
    obtain ⟨context, h, hfirst, hrest⟩ := returns_bind.mp hrun
    obtain ⟨others, h', hloop, hdone⟩ := returns_bind.mp hrest
    obtain ⟨rfl, rfl⟩ := returns_done.mp hdone
    obtain ⟨s, rfl, hshown, hcontext, hm⟩ := returns_sessionContext hfirst (hthere _ (by simp))
    obtain ⟨seen, hseen, hshows, hothers, hmarked⟩ := ih hloop fun other hother => by
      rw [hm.isSome]
      exact hthere other (by simp [hother])
    rw [List.flatMap_append]
    refine ⟨s :: seen, by simp [hseen], .cons hshown ?_, ?_, hm.trans hmarked⟩
    · have hlater := hshows.after fun _ _ hread => hread.after hm
      by_cases hs : s.found lower hints breadth = true <;>
        simpa [SeenSession.marks, hcontext, hs] using hlater
    · by_cases hs : s.found lower hints breadth = true <;> simp [hcontext, hs, hothers]

variable {retriever : GraphMemoryRetriever} {request : GraphRetrievalRequest}

theorem returns_taskCatalog {found : List (Parsed Task)}
    (hrun : Returns (taskCatalog lower request) g found g') :
    (request.depths.lookup taskCatalogDomain = none → found = []) ∧
      (∀ breadth, request.depths.lookup taskCatalogDomain = some breadth →
        ∃ tasks, shown parseTask (g.listing tasksRootId .contains) = .ok tasks ∧
          found = tasks.filter (taskMatches lower request.hints breadth)) ∧
      MarkedRead g g' (found.map Parsed.id) := by
  unfold taskCatalog at hrun
  cases hdepth : request.depths.lookup taskCatalogDomain with
  | none =>
    simp only [hdepth, returns_done] at hrun
    obtain ⟨rfl, rfl⟩ := hrun
    exact ⟨fun _ => rfl, by simp, .refl _⟩
  | some breadth =>
    simp only [hdepth] at hrun
    obtain ⟨tasks, h, hread, hrest⟩ := returns_bind.mp hrun
    obtain ⟨rfl, hshown⟩ := returns_readSelected.mp hread
    obtain ⟨_, h', hmark, hdone⟩ := returns_bind.mp hrest
    obtain ⟨rfl, rfl⟩ := returns_done.mp hdone
    have htick : MarkedRead g { g with ticks := g.ticks + 1 } [] := .tick g _ (Nat.le_succ _)
    refine ⟨by simp, ?_, htick.trans (marked_markRecordIdsRead hmark fun id hid => ?_)⟩
    · intro breadth' hbreadth
      obtain rfl := Option.some.inj hbreadth
      exact ⟨tasks, hshown, rfl⟩
    · obtain ⟨task, htask, rfl⟩ := List.mem_map.mp hid
      exact isSome_of_listing hshown task (List.mem_of_mem_filter htask)

omit [Surreal] in
theorem normalizedSessionId_ok {sessionId current : Option String}
    (h : normalizedSessionId sessionId = .ok current) : current = sessionId := by
  cases sessionId with
  | none => exact (Except.ok.inj h).symm
  | some id =>
    cases hid : memoryNodeRecordId id with
    | error e => simp [normalizedSessionId, hid, Except.map] at h
    | ok id' =>
      simp [normalizedSessionId, hid, Except.map] at h
      rw [← h, memoryNodeRecordId_ok hid]

theorem returns_pastConversationContext {found : List RetrievedSessionContext}
    (hrun : Returns (pastConversationContext lower retriever request) g found g') :
    (request.depths.lookup pastConversationContextDomain = none → found = []) ∧
      (∀ breadth, request.depths.lookup pastConversationContextDomain = some breadth →
        ∃ seen : List SeenSession,
          shown parseSession (g.listing sessionsRootId .contains) = .ok (seen.map (·.session)) ∧
          InTurn (SeenSession.marks lower request.hints breadth)
            (SeenSession.Shown lower request.hints breadth g retriever.currentSessionId) [] seen ∧
          found = (seen.filter (SeenSession.found lower request.hints breadth)).map
            (SeenSession.context lower request.hints breadth)) ∧
      MarkedRead g g' (found.flatMap RetrievedSessionContext.ids) := by
  unfold pastConversationContext at hrun
  cases hdepth : request.depths.lookup pastConversationContextDomain with
  | none =>
    simp only [hdepth, returns_done] at hrun
    obtain ⟨rfl, rfl⟩ := hrun
    exact ⟨fun _ => rfl, by simp, .refl _⟩
  | some breadth =>
    simp only [hdepth] at hrun
    obtain ⟨sessions, h, hread, hrest⟩ := returns_bind.mp hrun
    obtain ⟨rfl, hshown⟩ := returns_readSelected.mp hread
    obtain ⟨current, h', hcurrent, hloop⟩ := returns_bind.mp hrest
    obtain ⟨rfl, hnormal⟩ := returns_ofExcept.mp hcurrent
    obtain rfl := normalizedSessionId_ok hnormal
    have htick : MarkedRead g { g with ticks := g.ticks + 1 } [] := .tick g _ (Nat.le_succ _)
    obtain ⟨seen, rfl, hshows, hfound, hmarked⟩ := returns_sessionContexts sessions hloop
      fun s hs => isSome_of_listing hshown s hs
    refine ⟨by simp, ?_, htick.trans hmarked⟩
    intro breadth' hbreadth
    obtain rfl := Option.some.inj hbreadth
    exact ⟨seen, hshown, hshows.after fun _ _ hread => hread.after htick, hfound⟩

theorem returns_currentSessionMemories {found : List (Parsed SessionMemory)}
    (hrun : Returns (currentSessionMemories retriever) g found g') :
    (retriever.currentSessionId = none → found = []) ∧
      (∀ id, retriever.currentSessionId = some id →
        (found.map Parsed.id).Perm ((g.related id .hasSessionMemory).map MemoryNode.id)) ∧
      MarkedRead g g' (found.map Parsed.id) := by
  obtain ⟨current, h, hcurrent, hrest⟩ := returns_bind.mp hrun
  obtain ⟨rfl, hnormal⟩ := returns_ofExcept.mp hcurrent
  obtain rfl := normalizedSessionId_ok hnormal
  cases hid : retriever.currentSessionId with
  | none =>
    simp only [hid, returns_done] at hrest
    obtain ⟨rfl, rfl⟩ := hrest
    exact ⟨fun _ => rfl, by simp, .refl _⟩
  | some id =>
    simp only [hid] at hrest
    obtain ⟨hmarked, hperm⟩ := returns_memoriesFor_marked hrest
    exact ⟨by simp, by simpa using hperm, hmarked⟩

end GraphMemoryRetriever
end

/-! No session memory twice. -/

/-- Each session memory belongs to one session, and the root lists each session once. -/
structure Graph.LinkedOnce (g : Graph) : Prop where
  memories : ((g.edges.filter fun e => e.table = .hasSessionMemory).map Edge.target).Nodup
  sessions : ((g.edgesFrom .contains sessionsRootId).map Edge.target).Nodup

theorem Graph.related_sublist (g : Graph) (source : String) (table : Relation) :
    ((g.related source table).map MemoryNode.id).Sublist
      ((g.edgesFrom table source).map Edge.target) := by
  unfold Graph.related
  induction g.edgesFrom table source with
  | nil => simp
  | cons e rest ih =>
    cases hget : g.nodes.get? e.target with
    | none =>
      simpa [List.filterMap_cons, Graph.node?, hget] using ih.cons e.target
    | some fields =>
      simpa [List.filterMap_cons, Graph.node?, hget] using ih

namespace Graph.LinkedOnce

variable {g : Graph} (hg : g.LinkedOnce)

include hg

theorem nodup_memories (sessionId : String) :
    ((g.related sessionId .hasSessionMemory).map MemoryNode.id).Nodup := by
  refine (hg.memories.sublist ?_).sublist (g.related_sublist sessionId .hasSessionMemory)
  refine List.Sublist.map _ ?_
  have hfrom : g.edgesFrom .hasSessionMemory sessionId =
      (g.edges.filter fun e => e.table = .hasSessionMemory).filter fun e => e.source = sessionId := by
    simp [Graph.edgesFrom, List.filter_filter, Bool.and_comm]
  rw [hfrom]
  exact List.filter_sublist

theorem nodup_sessions :
    ((g.related sessionsRootId .contains).map MemoryNode.id).Nodup :=
  hg.sessions.sublist (g.related_sublist sessionsRootId .contains)

/-- A session memory is found below one session. -/
theorem session_eq {id first second : String}
    (hfirst : id ∈ (g.related first .hasSessionMemory).map MemoryNode.id)
    (hsecond : id ∈ (g.related second .hasSessionMemory).map MemoryNode.id) : first = second := by
  obtain ⟨e, he, rfl⟩ := List.mem_map.mp ((g.related_sublist first .hasSessionMemory).subset hfirst)
  obtain ⟨e', he', htarget⟩ :=
    List.mem_map.mp ((g.related_sublist second .hasSessionMemory).subset hsecond)
  simp only [Graph.edgesFrom, List.mem_filter, decide_eq_true_eq] at he he'
  have hsame : e' = e := List.inj_on_of_nodup_map hg.memories
    (List.mem_filter.mpr ⟨he'.1, by simp [he'.2.1]⟩) (List.mem_filter.mpr ⟨he.1, by simp [he.2.1]⟩)
    htarget
  rw [← he.2.2, ← he'.2.2, hsame]

end Graph.LinkedOnce

section

variable [Surreal]

/-- A context that marks what it returns, in a run from `g` to `g'`. -/
structure RetrievedExactly (retriever : GraphMemoryRetriever) (request : GraphRetrievalRequest)
    (g g' : Graph) (context : RetrievedMemoryContext) : Prop where
  /-- Exactly what appears in the context is marked. -/
  marked : MarkedRead g g' context.ids
  noTasks : request.depths.lookup taskCatalogDomain = none → context.taskCatalog = []
  tasks : ∀ breadth, request.depths.lookup taskCatalogDomain = some breadth →
    ∃ tasks, shown parseTask (g.listing tasksRootId .contains) = .ok tasks ∧
      context.taskCatalog = tasks.filter (taskMatches lower request.hints breadth)
  noSessions : request.depths.lookup pastConversationContextDomain = none →
    context.pastConversationContext = []
  /-- A session or conversation is returned exactly when it or something below it matches, as it is
  read after the tasks and what is returned before it are marked. -/
  sessions : ∀ breadth, request.depths.lookup pastConversationContextDomain = some breadth →
    ∃ seen : List SeenSession,
      (∃ h, MarkedRead g h (context.taskCatalog.map Parsed.id) ∧
        shown parseSession (h.listing sessionsRootId .contains) = .ok (seen.map (·.session))) ∧
      InTurn (SeenSession.marks lower request.hints breadth)
        (SeenSession.Shown lower request.hints breadth g retriever.currentSessionId)
        (context.taskCatalog.map Parsed.id) seen ∧
      context.pastConversationContext =
        (seen.filter (SeenSession.found lower request.hints breadth)).map
          (SeenSession.context lower request.hints breadth)
  noCurrent : retriever.currentSessionId = none → context.currentSessionMemories = []
  current : ∀ id, retriever.currentSessionId = some id →
    (context.currentSessionMemories.map Parsed.id).Perm
      ((g.related id .hasSessionMemory).map MemoryNode.id)
  /-- The memories of the current session are not among those of the sessions. -/
  currentOnly : ∀ s ∈ context.pastConversationContext,
    retriever.currentSessionId = some s.session.id → s.sessionMemories = []
  distinct : g.LinkedOnce → ((context.pastConversationContext.flatMap (·.sessionMemories) ++
    context.currentSessionMemories).map Parsed.id).Nodup

variable {lower} {retriever : GraphMemoryRetriever} {request : GraphRetrievalRequest} {g : Graph}
  {ids : List String} {context : RetrievedMemoryContext} {hints : GraphSearchHints}
  {breadth : TimestampBreadth}

/-- Listings of the same graph, at whatever moment, hold the same records. -/
theorem MarkedRead.shown_listing {α : Type} {h : Graph} (hm : MarkedRead g h ids) {source : String}
    {table : Relation} {parse : Content → Except PyError α} {xs : List (Parsed α)}
    (hshown : shown parse (h.listing source table) = .ok xs) :
    (xs.map Parsed.id).Perm ((g.related source table).map MemoryNode.id) := by
  rw [ids_of_shown _ hshown]
  exact hm.listing source table

/-- The session memories of a context belong to its session, another one than the current. -/
theorem SeenSession.Shown.belongs {current : Option String} {s : SeenSession}
    (hs : s.Shown lower hints breadth g current ids) {id : String}
    (hid : id ∈ (s.context lower hints breadth).sessionMemories.map Parsed.id) :
    current ≠ some s.session.id ∧
      id ∈ (g.related s.session.id .hasSessionMemory).map MemoryNode.id := by
  obtain ⟨memory, hmemory, rfl⟩ := List.mem_map.mp hid
  have hmem : memory ∈ s.memories := List.mem_of_mem_filter hmemory
  have hother : current ≠ some s.session.id := by
    intro hcurrent
    simp [hs.current hcurrent] at hmem
  obtain ⟨h, hm, hshown⟩ := hs.memories hother
  exact ⟨hother, (hm.shown_listing hshown).mem_iff.mp (List.mem_map_of_mem hmem)⟩

theorem SeenSession.Shown.nodup {current : Option String} {s : SeenSession}
    (hs : s.Shown lower hints breadth g current ids) (hg : g.LinkedOnce) :
    ((s.context lower hints breadth).sessionMemories.map Parsed.id).Nodup := by
  have hmemories : (s.memories.map Parsed.id).Nodup := by
    by_cases hcurrent : current = some s.session.id
    · simp [hs.current hcurrent]
    · obtain ⟨h, hm, hshown⟩ := hs.memories hcurrent
      exact (hm.shown_listing hshown).nodup_iff.mpr (hg.nodup_memories s.session.id)
  exact hmemories.sublist (List.filter_sublist.map _)

/-- The memories of distinct sessions, with those of the current one, are distinct. -/
theorem nodup_sessionMemories {seen : List SeenSession} {current : Option String}
    {own : List (Parsed SessionMemory)} (hg : g.LinkedOnce)
    (hlisted : (seen.map (·.session.id)).Perm
      ((g.related sessionsRootId .contains).map MemoryNode.id))
    (hshows : InTurn (SeenSession.marks lower hints breadth)
      (SeenSession.Shown lower hints breadth g current) ids seen)
    (hown : ∀ memory ∈ own, ∃ id, current = some id ∧
      memory.id ∈ (g.related id .hasSessionMemory).map MemoryNode.id)
    (hownNodup : (own.map Parsed.id).Nodup) :
    (((seen.filter (SeenSession.found lower hints breadth)).map
      (SeenSession.context lower hints breadth)).flatMap (·.sessionMemories) ++ own
        |>.map Parsed.id).Nodup := by
  have hshown : ∀ s ∈ seen.filter (SeenSession.found lower hints breadth),
      ∃ earlier, s.Shown lower hints breadth g current earlier := fun s hs =>
    hshows.exists_read (List.mem_of_mem_filter hs)
  have hdistinct : (seen.filter (SeenSession.found lower hints breadth)).Pairwise
      fun a b => a.session.id ≠ b.session.id :=
    (List.pairwise_map.mp (hlisted.nodup_iff.mpr hg.nodup_sessions)).sublist List.filter_sublist
  rw [List.map_append, List.nodup_append', List.map_flatMap, List.flatMap_map,
    List.nodup_flatMap]
  refine ⟨⟨fun s hs => ?_, ?_⟩, hownNodup, ?_⟩
  · obtain ⟨_, hread⟩ := hshown s hs
    exact hread.nodup hg
  · refine hdistinct.imp_of_mem fun {a b} ha hb hne id hida hidb => hne ?_
    obtain ⟨_, hreada⟩ := hshown a ha
    obtain ⟨_, hreadb⟩ := hshown b hb
    exact hg.session_eq (hreada.belongs hida).2 (hreadb.belongs hidb).2
  · intro id hpast hcurrent
    obtain ⟨s, hs, hid⟩ := List.mem_flatMap.mp hpast
    obtain ⟨memory, hmemory, rfl⟩ := List.mem_map.mp hcurrent
    obtain ⟨_, hread⟩ := hshown s hs
    obtain ⟨hother, hbelongs⟩ := hread.belongs hid
    obtain ⟨current', rfl, hmember⟩ := hown memory hmemory
    exact hother (congrArg some (hg.session_eq hmember hbelongs))

/-- A retrieval that returns marks what it returns. -/
theorem retrieve_exact {g' : Graph}
    (hrun : Returns (GraphMemoryRetriever.retrieve lower retriever request) g context g') :
    RetrievedExactly lower retriever request g g' context := by
  obtain ⟨tasks, h₁, htasks, hrest⟩ := returns_bind.mp hrun
  obtain ⟨sessions, h₂, hsessions, hrest⟩ := returns_bind.mp hrest
  obtain ⟨memories, h₃, hmemories, hdone⟩ := returns_bind.mp hrest
  obtain ⟨rfl, rfl⟩ := returns_done.mp hdone
  obtain ⟨hnoTasks, hsomeTasks, hm₁⟩ := GraphMemoryRetriever.returns_taskCatalog htasks
  obtain ⟨hnoSessions, hsomeSessions, hm₂⟩ :=
    GraphMemoryRetriever.returns_pastConversationContext hsessions
  obtain ⟨hnoCurrent, hcurrent, hm₃⟩ :=
    GraphMemoryRetriever.returns_currentSessionMemories hmemories
  have hm := hm₁.trans (hm₂.trans hm₃)
  have hown : ∀ id, retriever.currentSessionId = some id → (memories.map Parsed.id).Perm
      ((g.related id .hasSessionMemory).map MemoryNode.id) := fun id hid => by
    rw [← (hm₁.trans hm₂).related]
    exact hcurrent id hid
  have hseen : ∀ breadth,
      request.depths.lookup pastConversationContextDomain = some breadth →
      ∃ seen : List SeenSession,
        (∃ h, MarkedRead g h (tasks.map Parsed.id) ∧
          shown parseSession (h.listing sessionsRootId .contains) = .ok (seen.map (·.session))) ∧
        InTurn (SeenSession.marks lower request.hints breadth)
          (SeenSession.Shown lower request.hints breadth g retriever.currentSessionId)
          (tasks.map Parsed.id) seen ∧
        sessions = (seen.filter (SeenSession.found lower request.hints breadth)).map
          (SeenSession.context lower request.hints breadth) := by
    intro breadth hdepth
    obtain ⟨seen, hlisted, hshows, hfound⟩ := hsomeSessions breadth hdepth
    have hlater := hshows.after fun _ _ hread => hread.after hm₁
    exact ⟨seen, ⟨h₁, hm₁, hlisted⟩, by simpa using hlater, hfound⟩
  refine ⟨hm, hnoTasks, hsomeTasks, hnoSessions, hseen, hnoCurrent, hown, ?_, ?_⟩
  · intro s hs hid
    cases hdepth : request.depths.lookup pastConversationContextDomain with
    | none => simp [hnoSessions hdepth] at hs
    | some breadth =>
      obtain ⟨seen, -, hshows, rfl⟩ := hseen breadth hdepth
      obtain ⟨s, hmem, rfl⟩ := List.mem_map.mp hs
      obtain ⟨_, hread⟩ := hshows.exists_read (List.mem_of_mem_filter hmem)
      have hnone := hread.current hid
      simp [SeenSession.context, hnone]
  · intro hg
    have hownNodup : (memories.map Parsed.id).Nodup := by
      cases hid : retriever.currentSessionId with
      | none => simp [hnoCurrent hid]
      | some id => exact (hown id hid).nodup_iff.mpr (hg.nodup_memories id)
    cases hdepth : request.depths.lookup pastConversationContextDomain with
    | none => simpa [hnoSessions hdepth] using hownNodup
    | some breadth =>
      obtain ⟨seen, ⟨h, htasks, hlisted⟩, hshows, rfl⟩ := hseen breadth hdepth
      have hids := htasks.shown_listing hlisted
      rw [List.map_map] at hids
      refine nodup_sessionMemories hg hids hshows ?_ hownNodup
      intro memory hmemory
      cases hid : retriever.currentSessionId with
      | none => simp [hnoCurrent hid] at hmemory
      | some id => exact ⟨id, rfl, (hown id hid).mem_iff.mp (List.mem_map_of_mem hmemory)⟩

end

namespace TestVectors

/-- A database that sorts by insertion. -/
@[reducible] def insertingDatabase : Surreal where
  __ := countingDatabase
  byRecency times xs := xs.insertionSort fun a b =>
    (times b).1 < (times a).1 ∨ ((times b).1 = (times a).1 ∧ (times b).2 ≤ (times a).2)
  byPosition xs := xs.insertionSort fun a b => a.2 ≤ b.2
  byRecency_perm _ xs := List.perm_insertionSort _ xs
  byPosition_perm xs := List.perm_insertionSort _ xs
  byPosition_sorted xs :=
    haveI : Std.Total fun a b : String × ℤ => a.2 ≤ b.2 := ⟨fun a b => le_total a.2 b.2⟩
    haveI : IsTrans (String × ℤ) fun a b => a.2 ≤ b.2 := ⟨fun _ _ _ => le_trans⟩
    List.pairwise_insertionSort _ xs

local instance retrievalDatabase : Surreal := insertingDatabase

/-- One session with one session memory; the root may list the session more than once. -/
def billingGraph (links : ℕ) : Graph where
  nodes := (FiniteMap.empty.insert "memory_node:now" ⟨[], [("name", "Today")], 0, 0, none⟩).insert
    "memory_node:m" ⟨["billing"], [("title", "Invoices"), ("description", "monthly")], 0, 0, none⟩
  edges := List.replicate links ⟨.contains, sessionsRootId, "memory_node:now", none⟩ ++
    [⟨.hasSessionMemory, "memory_node:now", "memory_node:m", none⟩]
  ticks := 1

/-- Two sessions that share one conversation. -/
def sharedGraph : Graph where
  nodes := ((FiniteMap.empty.insert "memory_node:a" ⟨[], [("name", "A")], 0, 0, none⟩).insert
    "memory_node:b" ⟨[], [("name", "B")], 0, 0, none⟩).insert
    "memory_node:c" ⟨["billing"], [("name", "C")], 0, 0, none⟩
  edges := [⟨.contains, sessionsRootId, "memory_node:a", none⟩,
    ⟨.contains, sessionsRootId, "memory_node:b", none⟩,
    ⟨.hasConversation, "memory_node:a", "memory_node:c", none⟩,
    ⟨.hasConversation, "memory_node:b", "memory_node:c", none⟩]
  ticks := 1

def today : Parsed Session := ⟨"memory_node:now", [], 0, 0, none, ⟨"Today"⟩⟩

def invoices : Parsed SessionMemory :=
  ⟨"memory_node:m", ["billing"], 0, 0, none, ⟨"Invoices", "monthly"⟩⟩

def billingHints : GraphSearchHints := ⟨⟨["billing"], [], []⟩, ⟨[], []⟩⟩

def billingRequest (readAfter : ℕ) : GraphRetrievalRequest :=
  ⟨billingHints, [(pastConversationContextDomain, ⟨0, 0, readAfter⟩)]⟩

def retrieved (current : Option String) (readAfter : ℕ) (g : Graph) :
    Graph × Except PyError RetrievedMemoryContext :=
  (GraphMemoryRetriever.retrieve id ⟨current⟩ (billingRequest readAfter)).run Graph.answer g

def entry (content : Content) (tags : List String) : NodeFields := ⟨tags, content, 0, 0, none⟩

/-- A task, a session with two conversations and a session memory, and the current session. -/
def officeGraph : Graph where
  nodes := FiniteMap.ofList [
    ("memory_node:bill", entry [("name", "Bill"), ("description", "monthly"), ("input", ""),
      ("output", ""), ("prompt", ""), ("provider_id", "memory_node:provider")] ["billing"]),
    ("memory_node:now", entry [("name", "Today")] []),
    ("memory_node:own", entry [("name", "Current")] []),
    ("memory_node:talk", entry [("name", "Talk")] []),
    ("memory_node:lunch", entry [("name", "Lunch")] []),
    ("memory_node:ask", entry [("role", "human"), ("content", "Are they out?")] []),
    ("memory_node:sent", entry [("role", "agent"), ("content", "All sent")] ["billing"]),
    ("memory_node:soup", entry [("role", "human"), ("content", "Soup")] []),
    ("memory_node:m", entry [("title", "Invoices"), ("description", "monthly")] ["billing"]),
    ("memory_node:n", entry [("title", "Notes"), ("description", "none")] [])]
  edges := [
    ⟨.contains, tasksRootId, "memory_node:bill", none⟩,
    ⟨.contains, sessionsRootId, "memory_node:now", none⟩,
    ⟨.contains, sessionsRootId, "memory_node:own", none⟩,
    ⟨.hasConversation, "memory_node:now", "memory_node:talk", none⟩,
    ⟨.hasConversation, "memory_node:now", "memory_node:lunch", none⟩,
    ⟨.hasMessage, "memory_node:talk", "memory_node:sent", some 1⟩,
    ⟨.hasMessage, "memory_node:talk", "memory_node:ask", some 0⟩,
    ⟨.hasMessage, "memory_node:lunch", "memory_node:soup", some 0⟩,
    ⟨.hasSessionMemory, "memory_node:now", "memory_node:m", none⟩,
    ⟨.hasSessionMemory, "memory_node:own", "memory_node:n", none⟩]
  ticks := 1

def officeRequest : GraphRetrievalRequest :=
  ⟨billingHints, [(taskCatalogDomain, ⟨0, 0, 0⟩), (pastConversationContextDomain, ⟨0, 0, 0⟩)]⟩

def billTask : Parsed Task := ⟨"memory_node:bill", ["billing"], 0, 0, none,
  ⟨"Bill", "monthly", "", "", "", "memory_node:provider"⟩⟩

def talk : RetrievedConversation where
  conversation := ⟨"memory_node:talk", [], 0, 0, none, ⟨"Talk"⟩⟩
  matched := false
  messages := [⟨"memory_node:ask", [], 0, 0, none, ⟨"human", "Are they out?"⟩⟩,
    ⟨"memory_node:sent", ["billing"], 0, 0, none, ⟨"agent", "All sent"⟩⟩]
  matchedMessageIds := ["memory_node:sent"]

theorem retrieve_exact_office : RetrievedExactly id ⟨some "memory_node:own"⟩ officeRequest
    officeGraph ((GraphMemoryRetriever.retrieve id ⟨some "memory_node:own"⟩ officeRequest).run
      Graph.answer officeGraph).1
    ⟨[billTask], [⟨today, false, [talk], [invoices]⟩],
      [⟨"memory_node:n", [], 0, 0, some 18, ⟨"Notes", "none"⟩⟩]⟩ :=
  retrieve_exact (Prod.ext rfl (show _ = Except.ok _ by decide +kernel))

/-- A memory of the current session matches and the session is not returned; a session below which
the shared conversation matches is not, since it is read by then; and a session linked twice has its
memory returned twice. -/
theorem current_session_left_out :
    (shown parseSession ((billingGraph 1).listing sessionsRootId .contains) = .ok [today] ∧
      shown parseSessionMemory ((billingGraph 1).listing "memory_node:now" .hasSessionMemory) =
        .ok [invoices] ∧
      sessionMemoryMatches id billingHints ⟨0, 0, 0⟩ invoices = true ∧
      (retrieved (some "memory_node:now") 0 (billingGraph 1)).2 =
        .ok ⟨[], [], [{ invoices with readAt := some 4 }]⟩) ∧
    (retrieved none 1000 sharedGraph).2.toOption.map
        (fun context => context.pastConversationContext.map (·.session.id)) =
      some ["memory_node:a"] ∧
    (retrieved none 0 (billingGraph 2)).2.toOption.map
        (fun context => context.pastConversationContext.flatMap
          (·.sessionMemories.map Parsed.id)) =
      some ["memory_node:m", "memory_node:m"] := by
  decide +kernel

end TestVectors
end ReframeMemory
