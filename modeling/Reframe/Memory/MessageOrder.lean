import Reframe.Lib.Run
import Reframe.Memory.Readers

/-! Concurrent appends to conversations and task histories, in any interleaving of their queries:
the positions under a parent, and the order in which its records are read back. -/
namespace ReframeMemory
open Interaction ReframeMemory.Graph

section Appending

/-- A record with a listing of its own. -/
inductive Parent where
  | conversation (recordId : String)
  | taskHistory (recordId : String)
  deriving DecidableEq

namespace Parent

def table : Parent → Relation
  | .conversation _ => .hasMessage
  | .taskHistory _ => .history

def recordId : Parent → String
  | .conversation recordId => recordId
  | .taskHistory recordId => recordId

/-- The parent of an edge of a kind, if that kind is a listing. -/
def of? (table : Relation) (source : String) : Option Parent :=
  match table with
  | .hasMessage => some (.conversation source)
  | .history => some (.taskHistory source)
  | _ => none

end Parent

/-- A call that appends. -/
inductive Append where
  | addMessage (conversationId : String) (message : ConversationMessage) (tags : List String)
      (position : Option ℤ)
  | appendNode (taskHistoryId sessionId conversationId : String) (actions tags : List String)

namespace Append

def parent : Append → Parent
  | .addMessage conversationId _ _ _ => .conversation conversationId
  | .appendNode taskHistoryId _ _ _ _ => .taskHistory taskHistoryId

/-- The position that the caller asks for. -/
def position? : Append → Option ℤ
  | .addMessage _ _ _ position => position
  | .appendNode .. => none

def content : Append → Content
  | .addMessage _ message _ _ => message.asdict
  | .appendNode _ sessionId conversationId _ _ =>
    [("session", sessionId), ("conversation", conversationId)]

/-- The call, with the id of the record it appends. -/
def program : Append → MemoryProgram String
  | .addMessage conversationId message tags position =>
    ConversationMemory.addMessage conversationId message tags position >>= fun node =>
      .done node.id
  | .appendNode taskHistoryId sessionId conversationId actions tags =>
    TaskHistoryStore.appendNode taskHistoryId sessionId conversationId actions tags >>= fun node =>
      .done node.id

end Append

/-- The ids of what a parent lists, as its reader returns them. -/
def Parent.read (markRead : Bool) : Parent → MemoryProgram (List String)
  | .conversation recordId => ConversationMemory.messagesFor recordId markRead >>= fun messages =>
      .done (messages.map Parsed.id)
  | .taskHistory recordId => TaskHistoryStore.records recordId >>= fun records =>
      .done (records.map fun record => record.node.id)

/-- What is stored under a parent: records and positions, in the order they were stored. -/
def Graph.under (g : Graph) (parent : Parent) : List (String × ℤ) :=
  g.placed parent.table parent.recordId

def Graph.contentOf (g : Graph) (id : String) : Option Content :=
  (g.nodes.get? id).map NodeFields.content

/-! Which query comes next. -/

/-- The parent whose top position the program is about to read. -/
def readsUnder {α : Type} (p : MemoryProgram α) : Option Parent :=
  match p.nextQuery with
  | some (.topPosition table source :: _) => Parent.of? table source
  | _ => none

/-- The parent under which the program is about to store a record. -/
def storesUnder {α : Type} (p : MemoryProgram α) : Option Parent :=
  match p.nextQuery with
  | some (.relate table source _ (some _) :: _) => Parent.of? table source
  | _ => none

variable {ι : Type} [DecidableEq ι]

/-- Calls beside each other on one graph. `current` says that nothing has been stored under the
parent of the call since the call read its top position. -/
structure Appends (ι : Type) where
  system : System Query (List Record) PyError String ι Graph
  current : ι → Bool

namespace Appends

variable (calls : ι → Append)

def start (g : Graph) : Appends ι := ⟨⟨g, fun i => (calls i).program⟩, fun _ => false⟩

def graph (s : Appends ι) : Graph := s.system.state

variable [Surreal]

/-- One of the calls has its next query answered. -/
def step (s : Appends ι) (i : ι) : Appends ι where
  system := s.system.step answer i
  current j :=
    if storesUnder (s.system.programs i) = some (calls j).parent then false
    else if j = i ∧ readsUnder (s.system.programs i) ≠ none then true
    else s.current j

def run (s : Appends ι) (steps : List ι) : Appends ι := steps.foldl (step calls) s

/-- A call stores under its parent only while its position is current; a position that the caller
asks for has to lie above those stored. -/
def InTurn (s : Appends ι) (i : ι) : Prop :=
  storesUnder (s.system.programs i) ≠ none → match (calls i).position? with
    | some position => ∀ e ∈ s.graph.under (calls i).parent, e.2 < position
    | none => s.current i = true

instance (s : Appends ι) (i : ι) : Decidable (s.InTurn calls i) :=
  match h : (calls i).position? with
  | some position => decidable_of_iff (storesUnder (s.system.programs i) ≠ none →
      ∀ e ∈ s.graph.under (calls i).parent, e.2 < position) (by unfold InTurn; rw [h])
  | none => decidable_of_iff (storesUnder (s.system.programs i) ≠ none → s.current i = true)
      (by unfold InTurn; rw [h])

/-- Every step of the run is in turn. -/
abbrev Orderly (s : Appends ι) (steps : List ι) : Prop :=
  Run.Along (InTurn calls) (step calls) s steps

end Appends
/-! What one query does to the listings and to the stored contents. -/

section Queries

variable [Surreal] {g : Graph}

/-- The position after the last one. -/
def nextAfter (entries : List (String × ℤ)) : ℤ :=
  match (entries.map Prod.snd).max? with
  | some top => top + 1
  | none => 0

omit [Surreal] in
theorem lt_nextAfter {entries : List (String × ℤ)} {e : String × ℤ} (h : e ∈ entries) :
    e.2 < nextAfter entries := by
  have hmem : e.2 ∈ entries.map Prod.snd := List.mem_map_of_mem h
  unfold nextAfter
  cases hmax : (entries.map Prod.snd).max? with
  | none =>
    rw [List.max?_eq_none_iff] at hmax
    rw [hmax] at hmem
    cases hmem
  | some top =>
    have hle : e.2 ≤ top := (List.max?_eq_some_iff.mp hmax).2 _ hmem
    exact Int.lt_add_one_of_le hle

theorem nextPosition_answer (parent : Parent) :
    ConversationMemory.nextPosition
      (answer [.topPosition parent.table parent.recordId] g).2 = .ok (nextAfter (g.under parent)) := by
  have hanswer : (answer [.topPosition parent.table parent.recordId] g).2 =
      (((g.under parent).map Prod.snd).max?.map Record.position).toList := rfl
  rw [hanswer, nextAfter]
  cases ((g.under parent).map Prod.snd).max? <;> rfl

omit [Surreal] in
theorem contentOf_modify (g : Graph) (id : String) {change : NodeFields → NodeFields}
    (h : ∀ fields, (change fields).content = fields.content) :
    (g.modify id change).1.contentOf = g.contentOf := by
  unfold Graph.modify
  cases hnode : g.nodes.get? id with
  | none => rfl
  | some fields =>
    funext other
    change ((g.nodes.insert id (change fields)).get? other).map _ = _
    by_cases hid : other = id
    · rw [hid, FiniteMap.get?_insert_self, Graph.contentOf, hnode]
      exact congrArg some (h fields)
    · rw [FiniteMap.get?_insert_ne _ hid, Graph.contentOf]

omit [Surreal] in
theorem edges_modify (g : Graph) (id : String) (change : NodeFields → NodeFields) :
    (g.modify id change).1.edges = g.edges := by
  unfold Graph.modify
  split <;> rfl

omit [Surreal] in
theorem under_of_edges {g' : Graph} (h : g'.edges = g.edges) : g'.under = g.under := by
  funext parent
  unfold Graph.under Graph.placed Graph.edgesFrom
  rw [h]

theorem contentOf_create (tags : List String) (content : Content) :
    (answer [.create tags content] g).1.contentOf =
      Function.update g.contentOf (Surreal.newId g.ticks) (some content) := by
  funext id
  change ((g.nodes.insert (Surreal.newId g.ticks) _).get? id).map _ = _
  by_cases hid : id = Surreal.newId g.ticks
  · rw [hid, FiniteMap.get?_insert_self, Function.update_self]
    rfl
  · rw [FiniteMap.get?_insert_ne _ hid, Function.update_of_ne hid]
    rfl

theorem contentOf_touch (id : String) : (answer [.touch id] g).1.contentOf = g.contentOf :=
  contentOf_modify g id fun _ => rfl

theorem under_touch (id : String) : (answer [.touch id] g).1.under = g.under :=
  under_of_edges (edges_modify g id _)

omit [Surreal] in
/-- A new edge with a position is stored last under its own parent. -/
theorem under_relate {g' : Graph} (parent : Parent) (target : String) (position : ℤ)
    (h : g'.edges = g.edges ++ [⟨parent.table, parent.recordId, target, some position⟩]) :
    g'.under = Function.update g.under parent (g.under parent ++ [(target, position)]) := by
  funext other
  have hunder : g'.under other = g.under other ++
      (([⟨parent.table, parent.recordId, target, some position⟩] : List Edge).filter fun e =>
        e.table = other.table ∧ e.source = other.recordId).filterMap
          fun e => e.position.map fun position => (e.target, position) := by
    unfold Graph.under Graph.placed Graph.edgesFrom
    rw [h, List.filter_append, List.filterMap_append]
  rw [hunder]
  by_cases hother : other = parent
  · rw [hother, Function.update_self]
    simp
  · have hne : ¬(parent.table = other.table ∧ parent.recordId = other.recordId) := by
      rintro ⟨htable, hid⟩
      cases parent <;> cases other <;> first
        | exact hother (congrArg _ hid.symm)
        | cases htable
    rw [Function.update_of_ne hother, List.filter_cons_of_neg (by simpa using hne)]
    exact List.append_nil _

omit [Surreal] in
/-- A new edge of another kind is in no listing. -/
theorem under_relate_other {g' : Graph} {e : Edge} (htable : Parent.of? e.table e.source = none)
    (h : g'.edges = g.edges ++ [e]) : g'.under = g.under := by
  funext parent
  have hne : ¬(e.table = parent.table ∧ e.source = parent.recordId) := by
    rintro ⟨hkind, -⟩
    rw [hkind] at htable
    cases parent <;> cases htable
  unfold Graph.under Graph.placed Graph.edgesFrom
  rw [h, List.filter_append, List.filter_cons_of_neg (by simpa using hne), List.filter_nil,
    List.append_nil]

end Queries

/-! How far a call has come, and what its next query does. -/

/-- The statement that created the record of a call, and the position it has. -/
inductive Phase where
  | early (tick : Option ℕ)
  | holding (tick : Option ℕ) (position : ℤ)
  | stored (tick : ℕ) (position : ℤ)

namespace Phase

def tick : Phase → Option ℕ
  | .early tick => tick
  | .holding tick _ => tick
  | .stored tick _ => some tick

/-- The record is there, or will be, and nothing leads to it yet. -/
def Pending : Phase → Prop
  | .stored .. => False
  | _ => True

/-- The phase once the record is created. -/
def created (tick : ℕ) : Phase → Phase
  | .early _ => .early (some tick)
  | .holding _ position => .holding (some tick) position
  | φ => φ

end Phase

/-- The last query of `append_node`, and what it returns. -/
def relateHistory (taskHistoryId : String) (node : MemoryNode) (position : ℤ) :
    MemoryProgram (Parsed TaskHistoryNode) := do
  let _ ← ask [.relate .history taskHistoryId node.id (some position), .touch taskHistoryId]
  ofExcept (memoryNodeFromRecord node parseTaskHistoryNode)

/-- The queries of `append_node` once the record is created. -/
def appendCreated (taskHistoryId : String) (record : MemoryNode) (actions : List String) :
    MemoryProgram (Parsed TaskHistoryNode) := do
  let nodeRecordId ← ofExcept (memoryNodeRecordId record.id)
  TaskHistoryStore.relateActions nodeRecordId 0 actions
  let historyPosition ← TaskHistoryStore.nextHistoryPosition taskHistoryId
  let _ ← ask [.relate .history taskHistoryId nodeRecordId (some historyPosition),
    .touch taskHistoryId]
  ofExcept (memoryNodeFromRecord record parseTaskHistoryNode)

variable [Surreal]

/-- What is left of a call. -/
inductive Stage : Append → MemoryProgram String → Phase → Prop
  | entry (call : Append) : Stage call call.program (.early none)
  /-- After a failed check or with an unreadable record. -/
  | raised (call : Append) (e : PyError) (φ : Phase) : Stage call (.raise e) φ
  | ended (call : Append) (n : ℕ) (position : ℤ) :
    Stage call (.done (Surreal.newId n)) (.stored n position)
  | reading (id : String) (message : ConversationMessage) (tags : List String) :
    Stage (.addMessage id message tags none)
      ((ConversationMemory.nextMessagePosition id >>= fun position =>
        ConversationMemory.storeMessage id message tags position) >>= fun node => .done node.id)
      (.early none)
  | storing (id : String) (message : ConversationMessage) (tags : List String) (asked : Option ℤ)
      (position : ℤ) :
    Stage (.addMessage id message tags asked)
      (ConversationMemory.storeMessage id message tags position >>= fun node => .done node.id)
      (.holding none position)
  | relating (id : String) (message : ConversationMessage) (tags : List String) (asked : Option ℤ)
      (position : ℤ) (n : ℕ) (node : MemoryNode) (hnode : node.id = Surreal.newId n) :
    Stage (.addMessage id message tags asked)
      (.query [.relate .hasMessage id node.id (some position)] fun _ =>
        .query [.touch id] fun _ =>
          ofExcept (memoryNodeFromRecord node parseConversationMessage) >>= fun node =>
            .done node.id)
      (.holding (some n) position)
  | touching (id : String) (message : ConversationMessage) (tags : List String) (asked : Option ℤ)
      (position : ℤ) (n : ℕ) (node : MemoryNode) (hnode : node.id = Surreal.newId n) :
    Stage (.addMessage id message tags asked)
      (.query [.touch id] fun _ =>
        ofExcept (memoryNodeFromRecord node parseConversationMessage) >>= fun node =>
          .done node.id)
      (.stored n position)
  /-- With some of the actions left to relate. -/
  | acting (id sessionId conversationId : String) (actions tags rest : List String) (k : ℤ) (n : ℕ)
      (node : MemoryNode) (hnode : node.id = Surreal.newId n) :
    Stage (.appendNode id sessionId conversationId actions tags)
      ((TaskHistoryStore.relateActions node.id k rest >>= fun _ =>
        TaskHistoryStore.nextHistoryPosition id >>= fun position =>
          relateHistory id node position) >>= fun node => .done node.id)
      (.early (some n))
  | closing (id sessionId conversationId : String) (actions tags : List String) (position : ℤ)
      (n : ℕ) (node : MemoryNode) (hnode : node.id = Surreal.newId n) :
    Stage (.appendNode id sessionId conversationId actions tags)
      (relateHistory id node position >>= fun node => .done node.id)
      (.holding (some n) position)

/-- What a step of a call does to the graph and to its phase. -/
inductive Change (call : Append) (p : MemoryProgram String) (g g' : Graph) :
    Phase → Phase → Prop
  | quiet (φ : Phase) (hunder : g'.under = g.under) (hcontent : g'.contentOf = g.contentOf)
    (hticks : g.ticks ≤ g'.ticks) (hreads : readsUnder p = none) (hstores : storesUnder p = none) :
    Change call p g g' φ φ
  | create (φ : Phase) (htick : φ.tick = none) (hunder : g'.under = g.under)
    (hcontent : g'.contentOf =
      Function.update g.contentOf (Surreal.newId g.ticks) (some call.content))
    (hticks : g'.ticks = g.ticks + 1) (hreads : readsUnder p = none)
    (hstores : storesUnder p = none) : Change call p g g' φ (φ.created g.ticks)
  | hold (position : ℤ) (hasked : call.position? = some position) (hunder : g'.under = g.under)
    (hcontent : g'.contentOf = g.contentOf) (hticks : g.ticks ≤ g'.ticks)
    (hreads : readsUnder p = none) (hstores : storesUnder p = none) :
    Change call p g g' (.early none) (.holding none position)
  | read (tick : Option ℕ) (hasked : call.position? = none) (hunder : g'.under = g.under)
    (hcontent : g'.contentOf = g.contentOf) (hticks : g.ticks ≤ g'.ticks)
    (hreads : readsUnder p = some call.parent) (hstores : storesUnder p = none) :
    Change call p g g' (.early tick) (.holding tick (nextAfter (g.under call.parent)))
  | store (n : ℕ) (position : ℤ)
    (hunder : g'.under = Function.update g.under call.parent
      (g.under call.parent ++ [(Surreal.newId n, position)]))
    (hcontent : g'.contentOf = g.contentOf) (hticks : g.ticks ≤ g'.ticks)
    (hreads : readsUnder p = none) (hstores : storesUnder p = some call.parent) :
    Change call p g g' (.holding (some n) position) (.stored n position)

section Steps

variable {call : Append} {p : MemoryProgram String} {φ : Phase} {g : Graph}

/-- A call that has raised changes nothing. -/
theorem raised_step (e : PyError) (hp : p = .raise e) (g : Graph) :
    ∃ φ', Stage call (p.advance answer g).2 φ' ∧ Change call p g (p.advance answer g).1 φ φ' := by
  rw [hp]
  exact ⟨φ, .raised call e φ, .quiet φ rfl rfl le_rfl rfl rfl⟩

theorem addMessage_step (id : String) (message : ConversationMessage) (tags : List String)
    (asked : Option ℤ) (g : Graph) :
    ∃ φ', Stage (.addMessage id message tags asked)
        ((Append.addMessage id message tags asked).program.advance answer g).2 φ' ∧
      Change (.addMessage id message tags asked) (Append.addMessage id message tags asked).program g
        ((Append.addMessage id message tags asked).program.advance answer g).1 (.early none) φ' := by
  rcases memoryNodeRecordId_cases id with hid | ⟨e, hid⟩
  · have hprogram : (Append.addMessage id message tags asked).program =
        .query [.selectOne conversationsRootId .contains fun node => node.id = id] fun result =>
          ((if result = [] then .raise (.valueError
              ("conversation does not exist under Conversations root: " ++ id)) else .done id) >>=
            fun id => match asked with
              | some position => ConversationMemory.storeMessage id message tags position
              | none => ConversationMemory.nextMessagePosition id >>= fun position =>
                ConversationMemory.storeMessage id message tags position) >>= fun node =>
                  .done node.id := by
      change (ConversationMemory.addMessage id message tags asked >>= _) = _
      unfold ConversationMemory.addMessage ensureConversation ensureUnder
      rw [hid]
      rfl
    rw [hprogram, Program.advance_query]
    by_cases hnil : (answer [.selectOne conversationsRootId .contains fun node => node.id = id] g).2 = []
    · rw [if_pos hnil]
      exact ⟨_, .raised _ _ _, .quiet _ rfl rfl (Nat.le_succ _) rfl rfl⟩
    · rw [if_neg hnil]
      cases asked with
      | none => exact ⟨_, .reading id message tags, .quiet _ rfl rfl (Nat.le_succ _) rfl rfl⟩
      | some position =>
        exact ⟨_, .storing id message tags _ position,
          .hold position rfl rfl rfl (Nat.le_succ _) rfl rfl⟩
  · refine raised_step e ?_ g
    change (ConversationMemory.addMessage id message tags asked >>= _) = _
    unfold ConversationMemory.addMessage ensureConversation ensureUnder
    rw [hid]
    rfl

theorem appendNode_step (id sessionId conversationId : String) (actions tags : List String)
    (g : Graph) :
    ∃ φ', Stage (.appendNode id sessionId conversationId actions tags)
        ((Append.appendNode id sessionId conversationId actions tags).program.advance answer g).2
          φ' ∧
      Change (.appendNode id sessionId conversationId actions tags)
        (Append.appendNode id sessionId conversationId actions tags).program g
        ((Append.appendNode id sessionId conversationId actions tags).program.advance answer g).1
        (.early none) φ' := by
  rcases memoryNodeRecordId_cases id with hid | ⟨e, hid⟩
  swap
  · refine raised_step e ?_ g
    change (TaskHistoryStore.appendNode id sessionId conversationId actions tags >>= _) = _
    unfold TaskHistoryStore.appendNode
    rw [hid]
    rfl
  rcases memoryNodeRecordId_cases sessionId with hsession | ⟨e, hsession⟩
  swap
  · refine raised_step e ?_ g
    change (TaskHistoryStore.appendNode id sessionId conversationId actions tags >>= _) = _
    unfold TaskHistoryStore.appendNode
    rw [hid, hsession]
    rfl
  rcases memoryNodeRecordId_cases conversationId with hconversation | ⟨e, hconversation⟩
  swap
  · refine raised_step e ?_ g
    change (TaskHistoryStore.appendNode id sessionId conversationId actions tags >>= _) = _
    unfold TaskHistoryStore.appendNode
    rw [hid, hsession, hconversation]
    rfl
  have hprogram : (Append.appendNode id sessionId conversationId actions tags).program =
      .query [.create (cleanTags (TaskHistoryStore.historyTags "task-history-node" tags))
          [("session", sessionId), ("conversation", conversationId)]] fun result =>
        (ofExcept (firstRecord result) >>= fun record => appendCreated id record actions) >>=
          fun node => .done node.id := by
    change (TaskHistoryStore.appendNode id sessionId conversationId actions tags >>= _) = _
    unfold TaskHistoryStore.appendNode
    rw [hid, hsession, hconversation]
    rfl
  rw [hprogram, Program.advance_query]
  refine ⟨.early (some g.ticks), ?_,
    .create (.early none) rfl (under_of_edges rfl) (contentOf_create _ _) rfl rfl rfl⟩
  change Stage _ (appendCreated id ⟨_, Surreal.newId g.ticks⟩ actions >>= _) _
  unfold appendCreated
  rcases memoryNodeRecordId_cases (Surreal.newId g.ticks) with hnew | ⟨e, hnew⟩
  · rw [hnew]
    exact .acting id sessionId conversationId actions tags actions 0 g.ticks ⟨_, _⟩ rfl
  · rw [hnew]
    exact .raised _ e _

/-- What one step of a call can do. -/
theorem stage_step (h : Stage call p φ) (g : Graph) :
    ∃ φ', Stage call (p.advance answer g).2 φ' ∧ Change call p g (p.advance answer g).1 φ φ' := by
  cases h with
  | entry =>
    cases call with
    | addMessage id message tags asked => exact addMessage_step id message tags asked g
    | appendNode id sessionId conversationId actions tags =>
      exact appendNode_step id sessionId conversationId actions tags g
  | raised _ e _ => exact raised_step e rfl g
  | ended _ n position => exact ⟨_, .ended call n position, .quiet _ rfl rfl le_rfl rfl rfl⟩
  | reading id message tags =>
    have hposition : ConversationMemory.nextPosition (answer [.topPosition .hasMessage id] g).2 =
        .ok (nextAfter (g.under (.conversation id))) := nextPosition_answer (.conversation id)
    refine ⟨.holding none (nextAfter (g.under (.conversation id))), ?_,
      .read none rfl (under_of_edges rfl) rfl (Nat.le_succ _) rfl rfl⟩
    change Stage _ ((ofExcept (ConversationMemory.nextPosition
      (answer [.topPosition .hasMessage id] g).2) >>= _) >>= _) _
    rw [hposition]
    exact .storing id message tags none _
  | storing id message tags asked position =>
    refine ⟨.holding (some g.ticks) position, ?_,
      .create (.holding none position) rfl (under_of_edges rfl) (contentOf_create _ _) rfl rfl rfl⟩
    exact .relating id message tags asked position g.ticks ⟨_, _⟩ rfl
  | relating id message tags asked position n node hnode =>
    refine ⟨.stored n position, .touching id message tags asked position n node hnode, ?_⟩
    refine .store n position ?_ rfl (Nat.le_succ _) rfl rfl
    rw [← hnode]
    exact under_relate (.conversation id) node.id position rfl
  | touching id message tags asked position n node hnode =>
    refine ⟨.stored n position, ?_, .quiet _ (under_touch id) (contentOf_touch id) (Nat.le_succ _)
      rfl rfl⟩
    change Stage _ (ofExcept (memoryNodeFromRecord node parseConversationMessage) >>= _) _
    unfold memoryNodeFromRecord
    cases parseConversationMessage node.content with
    | error e => exact .raised _ e _
    | ok content =>
      have hended := Stage.ended (.addMessage id message tags asked) n position
      rw [← hnode] at hended
      exact hended
  | acting id sessionId conversationId actions tags rest k n node hnode =>
    cases rest with
    | nil =>
      have hposition : ConversationMemory.nextPosition (answer [.topPosition .history id] g).2 =
          .ok (nextAfter (g.under (.taskHistory id))) := nextPosition_answer (.taskHistory id)
      refine ⟨.holding (some n) (nextAfter (g.under (.taskHistory id))), ?_,
        .read (some n) rfl (under_of_edges rfl) rfl (Nat.le_succ _) rfl rfl⟩
      change Stage _ ((ofExcept (ConversationMemory.nextPosition
        (answer [.topPosition .history id] g).2) >>= _) >>= _) _
      rw [hposition]
      exact .closing id sessionId conversationId actions tags _ n node hnode
    | cons actionId rest =>
      unfold TaskHistoryStore.relateActions
      rcases memoryNodeRecordId_cases actionId with hid | ⟨e, hid⟩
      · rw [hid]
        refine ⟨.early (some n), .acting id sessionId conversationId actions tags rest (k + 1) n node
          hnode, .quiet _ (under_relate_other (e := ⟨.actions, node.id, actionId, some k⟩) rfl rfl)
          rfl (Nat.le_succ _) rfl rfl⟩
      · rw [hid]
        exact raised_step e rfl g
  | closing id sessionId conversationId actions tags position n node hnode =>
    refine ⟨.stored n position, ?_, ?_⟩
    · change Stage _ (ofExcept (memoryNodeFromRecord node parseTaskHistoryNode) >>= _) _
      unfold memoryNodeFromRecord
      cases parseTaskHistoryNode node.content with
      | error e => exact .raised _ e _
      | ok content =>
        have hended := Stage.ended (.appendNode id sessionId conversationId actions tags) n position
        rw [← hnode] at hended
        exact hended
    · refine .store n position ?_ ?_ (Nat.le_add_right g.ticks 2) rfl rfl
      · rw [← hnode]
        exact under_relate (.taskHistory id) node.id position (edges_modify _ id _)
      · exact contentOf_modify _ id fun _ => rfl

end Steps

/-! What every change has in common. -/

namespace Change

variable {call : Append} {p : MemoryProgram String} {g g' : Graph} {φ ψ : Phase}

theorem ticks_le (h : Change call p g g' φ ψ) : g.ticks ≤ g'.ticks := by
  cases h with
  | create _ _ hunder hcontent hticks => omega
  | _ => assumption

/-- The record of the call is created by this query, or nothing is created. -/
theorem tick_cases (h : Change call p g g' φ ψ) :
    (ψ.tick = φ.tick ∧ g'.contentOf = g.contentOf) ∨
      (φ.tick = none ∧ ψ.tick = some g.ticks ∧ g'.ticks = g.ticks + 1 ∧ g'.contentOf =
        Function.update g.contentOf (Surreal.newId g.ticks) (some call.content)) := by
  cases h with
  | create _ htick hunder hcontent hticks =>
    refine .inr ⟨htick, ?_, hticks, hcontent⟩
    cases φ with
    | early tick => rfl
    | holding tick position => rfl
    | stored tick position => cases htick
  | _ => exact .inl ⟨rfl, by assumption⟩

/-- The record of the call is stored by this query, or the listings stay. -/
theorem under_cases (h : Change call p g g' φ ψ) :
    (g'.under = g.under ∧ storesUnder p = none ∧ ∀ n position, ψ = .stored n position →
        φ = .stored n position) ∨
      ∃ n position, φ = .holding (some n) position ∧ ψ = .stored n position ∧
        storesUnder p = some call.parent ∧ readsUnder p = none ∧
        g'.under = Function.update g.under call.parent
          (g.under call.parent ++ [(Surreal.newId n, position)]) := by
  cases h with
  | quiet _ hunder hcontent hticks hreads hstores => exact .inl ⟨hunder, hstores, fun _ _ h => h⟩
  | create _ htick hunder hcontent hticks hreads hstores =>
    refine .inl ⟨hunder, hstores, fun n position h => ?_⟩
    cases φ with
    | early tick => cases h
    | holding tick position => cases h
    | stored tick position => cases htick
  | hold position hasked hunder hcontent hticks hreads hstores =>
    exact .inl ⟨hunder, hstores, fun _ _ h => nomatch h⟩
  | read tick hasked hunder hcontent hticks hreads hstores =>
    exact .inl ⟨hunder, hstores, fun _ _ h => nomatch h⟩
  | store n position hunder hcontent hticks hreads hstores =>
    exact .inr ⟨n, position, rfl, rfl, hstores, hreads, hunder⟩

/-- A position is held since this query, or since an earlier one. -/
theorem holding_cases (h : Change call p g g' φ ψ) {tick : Option ℕ} {position : ℤ}
    (hψ : ψ = .holding tick position) :
    (readsUnder p = none ∧ ∃ tick', φ = .holding tick' position) ∨
      call.position? = some position ∨
      (call.position? = none ∧ g'.under = g.under ∧ position = nextAfter (g.under call.parent)) := by
  cases h with
  | quiet _ hunder hcontent hticks hreads hstores => exact .inl ⟨hreads, tick, hψ⟩
  | create _ htick hunder hcontent hticks hreads hstores =>
    refine .inl ⟨hreads, ?_⟩
    cases φ with
    | early tick => cases hψ
    | holding tick' position' =>
      cases hψ
      exact ⟨tick', rfl⟩
    | stored tick position => cases htick
  | hold position hasked =>
    cases hψ
    exact .inr (.inl hasked)
  | read tick hasked hunder =>
    cases hψ
    exact .inr (.inr ⟨hasked, hunder, rfl⟩)
  | store n position => cases hψ

theorem stored (h : Change call p g g' φ ψ) {n : ℕ} {position : ℤ}
    (hφ : φ = .stored n position) : ψ = .stored n position := by
  cases h with
  | quiet => exact hφ
  | create _ htick =>
    rw [hφ] at htick
    cases htick
  | hold => cases hφ
  | read => cases hφ
  | store => cases hφ

theorem pending (h : Change call p g g' φ ψ) (hψ : ψ.Pending) : φ.Pending := by
  cases h with
  | quiet => exact hψ
  | create _ htick =>
    cases φ with
    | early tick => trivial
    | holding tick position => trivial
    | stored tick position => cases htick
  | hold => trivial
  | read => trivial
  | store => trivial

end Change

/-! The invariant of a run in turn. -/

/-- The ids the database has not given out yet are in use nowhere, and it gives out no id twice. -/
structure Graph.DistinctIds (g : Graph) : Prop where
  unused : ∀ n, g.ticks ≤ n → g.contentOf (Surreal.newId n) = none ∧
    ∀ parent, ∀ e ∈ g.under parent, e.1 ≠ Surreal.newId n
  injective : ∀ m n, g.ticks ≤ m → g.ticks ≤ n → Surreal.newId m = Surreal.newId n → m = n

/-- How many of the records stored under the parent have the id. -/
def Graph.copies (g : Graph) (parent : Parent) (id : String) : ℕ :=
  ((g.under parent).map Prod.fst).count id

/-- The records of the calls and where they are, with every call in its phase. -/
structure Consistent (first : ℕ) (calls : ι → Append) (s : Appends ι) (φ : ι → Phase) : Prop where
  stage : ∀ i, Stage (calls i) (s.system.programs i) (φ i)
  range : ∀ i n, (φ i).tick = some n → first ≤ n ∧ n < s.graph.ticks
  apart : ∀ i j n, (φ i).tick = some n → (φ j).tick = some n → i = j
  ticks : first ≤ s.graph.ticks
  unused : ∀ n, s.graph.ticks ≤ n → s.graph.contentOf (Surreal.newId n) = none ∧
    ∀ parent, ∀ e ∈ s.graph.under parent, e.1 ≠ Surreal.newId n
  unlinked : ∀ i n, (φ i).Pending → (φ i).tick = some n →
    ∀ parent, ∀ e ∈ s.graph.under parent, e.1 ≠ Surreal.newId n
  linked : ∀ i n position, φ i = .stored n position →
    (Surreal.newId n, position) ∈ s.graph.under (calls i).parent ∧
      s.graph.copies (calls i).parent (Surreal.newId n) = 1
  content : ∀ i n, (φ i).tick = some n →
    s.graph.contentOf (Surreal.newId n) = some (calls i).content
  asked : ∀ i tick position, φ i = .holding tick position →
    ∀ q, (calls i).position? = some q → position = q
  current : ∀ i tick position, φ i = .holding tick position → (calls i).position? = none →
    s.current i = true → ∀ e ∈ s.graph.under (calls i).parent, e.2 < position

section Preservation

variable {first : ℕ} {calls : ι → Append} {s : Appends ι} {φ : ι → Phase} {i : ι} {ψ : Phase}

omit [DecidableEq ι] in
/-- A position that is stored in turn lies above all stored before. -/
theorem Consistent.above (h : Consistent first calls s φ) (hturn : s.InTurn calls i)
    (hstores : storesUnder (s.system.programs i) = some (calls i).parent) {tick : Option ℕ}
    {position : ℤ} (hφ : φ i = .holding tick position) :
    ∀ e ∈ s.graph.under (calls i).parent, e.2 < position := by
  have hturn := hturn (by rw [hstores]; exact Option.some_ne_none _)
  cases hasked : (calls i).position? with
  | none =>
    rw [hasked] at hturn
    exact h.current i tick position hφ hasked hturn
  | some q =>
    rw [hasked] at hturn
    rw [h.asked i tick position hφ q hasked]
    exact hturn

/-- What the step of a call looks like to the invariant. -/
structure Stepped (calls : ι → Append) (s s' : Appends ι) (i : ι) (φ : ι → Phase) (ψ : Phase) :
    Prop where
  change : Change (calls i) (s.system.programs i) s.graph s'.graph (φ i) ψ
  stage : Stage (calls i) (s'.system.programs i) ψ
  others : ∀ j, j ≠ i → s'.system.programs j = s.system.programs j
  current : ∀ j, s'.current j =
    if storesUnder (s.system.programs i) = some (calls j).parent then false
    else if j = i ∧ readsUnder (s.system.programs i) ≠ none then true
    else s.current j

theorem Consistent.stepped (h : Consistent first calls s φ) (i : ι) :
    ∃ ψ, Stepped calls s (s.step calls i) i φ ψ := by
  obtain ⟨ψ, hstage, hchange⟩ := stage_step (h.stage i) s.graph
  refine ⟨ψ, hchange, ?_, fun j hj => ?_, fun _ => rfl⟩
  · change Stage _ ((s.system.step answer i).programs i) _
    rw [System.programs_step_self]
    exact hstage
  · exact System.programs_step_ne answer s.system hj

variable {s' : Appends ι}

omit [Surreal] in
theorem update_tick_cases {j : ι} {n : ℕ} (h : (Function.update φ i ψ j).tick = some n) :
    (j = i ∧ ψ.tick = some n) ∨ (j ≠ i ∧ (φ j).tick = some n) := by
  by_cases hj : j = i
  · rw [hj, Function.update_self] at h
    exact .inl ⟨hj, h⟩
  · rw [Function.update_of_ne hj] at h
    exact .inr ⟨hj, h⟩

/-- A record that is there in the end was there before or is the one this step creates. -/
theorem Stepped.tick_cases (hs : Stepped calls s s' i φ ψ) {j : ι} {n : ℕ}
    (h : (Function.update φ i ψ j).tick = some n) :
    (φ j).tick = some n ∨ j = i ∧ n = s.graph.ticks ∧ s'.graph.ticks = s.graph.ticks + 1 := by
  rcases update_tick_cases h with ⟨rfl, hψ⟩ | ⟨-, hφ⟩
  · rcases hs.change.tick_cases with ⟨hsame, -⟩ | ⟨-, hnew, hticks, -⟩
    · exact .inl (hsame ▸ hψ)
    · exact .inr ⟨rfl, (Option.some.inj (hnew.symm.trans hψ)).symm, hticks⟩
  · exact .inl hφ

theorem Consistent.range_step (h : Consistent first calls s φ) (hs : Stepped calls s s' i φ ψ)
    (j : ι) (n : ℕ) (hn : (Function.update φ i ψ j).tick = some n) :
    first ≤ n ∧ n < s'.graph.ticks := by
  have hle := hs.change.ticks_le
  rcases hs.tick_cases hn with hφ | ⟨-, rfl, hticks⟩
  · have hrange := h.range j n hφ
    omega
  · have hticks' := h.ticks
    omega

theorem Consistent.apart_step (h : Consistent first calls s φ) (hs : Stepped calls s s' i φ ψ)
    (j k : ι) (n : ℕ) (hj : (Function.update φ i ψ j).tick = some n)
    (hk : (Function.update φ i ψ k).tick = some n) : j = k := by
  rcases hs.tick_cases hj with hφj | ⟨rfl, rfl, -⟩ <;> rcases hs.tick_cases hk with hφk | ⟨rfl, hn, -⟩
  · exact h.apart j k n hφj hφk
  · have hrange := h.range j n hφj
    omega
  · have hrange := h.range k _ hφk
    omega
  · rfl

/-- An entry of a listing was there before or is the one this step stores. -/
theorem Stepped.entry_cases (hs : Stepped calls s s' i φ ψ) {parent : Parent} {e : String × ℤ}
    (he : e ∈ s'.graph.under parent) : e ∈ s.graph.under parent ∨ ∃ m position,
      φ i = .holding (some m) position ∧ ψ = .stored m position ∧
        e = (Surreal.newId m, position) := by
  rcases hs.change.under_cases with ⟨hunder, -⟩ | ⟨m, position, hφ, hψ, -, -, hunder⟩
  · exact .inl (hunder ▸ he)
  · rw [hunder] at he
    by_cases hparent : parent = (calls i).parent
    · rw [hparent, Function.update_self] at he
      rcases List.mem_append.mp he with he | he
      · exact .inl (hparent ▸ he)
      · exact .inr ⟨m, position, hφ, hψ, List.mem_singleton.mp he⟩
    · rw [Function.update_of_ne hparent] at he
      exact .inl he

/-- The content of a record changes only where this step creates it. -/
theorem Stepped.content_cases (hs : Stepped calls s s' i φ ψ) :
    s'.graph.contentOf = s.graph.contentOf ∨
      (ψ.tick = some s.graph.ticks ∧ s'.graph.ticks = s.graph.ticks + 1 ∧ s'.graph.contentOf =
        Function.update s.graph.contentOf (Surreal.newId s.graph.ticks)
          (some (calls i).content)) := by
  rcases hs.change.tick_cases with ⟨-, hsame⟩ | ⟨-, hψ, hticks, hnew⟩
  · exact .inl hsame
  · exact .inr ⟨hψ, hticks, hnew⟩

variable (hinj : ∀ m n, first ≤ m → first ≤ n → Surreal.newId m = Surreal.newId n → m = n)

include hinj

theorem Consistent.unused_step (h : Consistent first calls s φ) (hs : Stepped calls s s' i φ ψ)
    (n : ℕ) (hn : s'.graph.ticks ≤ n) : s'.graph.contentOf (Surreal.newId n) = none ∧
      ∀ parent, ∀ e ∈ s'.graph.under parent, e.1 ≠ Surreal.newId n := by
  have hle := hs.change.ticks_le
  have hfirst := h.ticks
  have hold := h.unused n (by omega)
  constructor
  · rcases hs.content_cases with hsame | ⟨-, hticks, hnew⟩
    · rw [hsame]
      exact hold.1
    · rw [hnew, Function.update_of_ne]
      · exact hold.1
      · intro heq
        have := hinj _ _ (by omega) hfirst heq
        omega
  · intro parent e he
    rcases hs.entry_cases he with he | ⟨m, position, hφ, -, rfl⟩
    · exact hold.2 parent e he
    · intro heq
      have hrange := h.range i m (by rw [hφ]; rfl)
      have := hinj m n hrange.1 (by omega) heq
      omega

theorem Consistent.unlinked_step (h : Consistent first calls s φ) (hs : Stepped calls s s' i φ ψ)
    (j : ι) (n : ℕ) (hpending : (Function.update φ i ψ j).Pending)
    (hn : (Function.update φ i ψ j).tick = some n) :
    ∀ parent, ∀ e ∈ s'.graph.under parent, e.1 ≠ Surreal.newId n := by
  intro parent e he
  rcases hs.entry_cases he with he | ⟨m, position, hφ, hψ, rfl⟩
  · rcases hs.tick_cases hn with hφ | ⟨-, rfl, -⟩
    · refine h.unlinked j n ?_ hφ parent e he
      by_cases hj : j = i
      · rw [hj, Function.update_self] at hpending
        rw [hj]
        exact hs.change.pending hpending
      · rwa [Function.update_of_ne hj] at hpending
    · exact (h.unused _ le_rfl).2 parent e he
  · have hj : j ≠ i := by
      rintro rfl
      rw [Function.update_self, hψ] at hpending
      exact hpending
    rw [Function.update_of_ne hj] at hn
    have hm : (φ i).tick = some m := by rw [hφ]; rfl
    intro heq
    have hmn := hinj m n (h.range i m hm).1 (h.range j n hn).1 heq
    exact hj (h.apart j i n hn (hmn ▸ hm))

theorem Consistent.content_step (h : Consistent first calls s φ) (hs : Stepped calls s s' i φ ψ)
    (j : ι) (n : ℕ) (hn : (Function.update φ i ψ j).tick = some n) :
    s'.graph.contentOf (Surreal.newId n) = some (calls j).content := by
  rcases update_tick_cases hn with ⟨rfl, hψ⟩ | ⟨-, hφ⟩ <;>
    rcases hs.change.tick_cases with ⟨hsame, hcontent⟩ | ⟨-, hnew, -, hcontent⟩
  · rw [hcontent]
    exact h.content j n (hsame ▸ hψ)
  · obtain rfl : s.graph.ticks = n := Option.some.inj (hnew.symm.trans hψ)
    rw [hcontent, Function.update_self]
  · rw [hcontent]
    exact h.content j n hφ
  · rw [hcontent, Function.update_of_ne]
    · exact h.content j n hφ
    · intro heq
      have hrange := h.range j n hφ
      have := hinj _ _ hrange.1 h.ticks heq
      omega

theorem Consistent.linked_step (h : Consistent first calls s φ) (hs : Stepped calls s s' i φ ψ)
    (j : ι) (n : ℕ) (position : ℤ) (hj : Function.update φ i ψ j = .stored n position) :
    (Surreal.newId n, position) ∈ s'.graph.under (calls j).parent ∧
      s'.graph.copies (calls j).parent (Surreal.newId n) = 1 := by
  rcases hs.change.under_cases with ⟨hunder, -, hstored⟩ | ⟨m, q, hφ, hψ, -, -, hunder⟩
  · unfold Graph.copies
    rw [hunder]
    refine h.linked j n position ?_
    by_cases hji : j = i
    · rw [hji, Function.update_self] at hj
      rw [hji]
      exact hstored n position hj
    · rwa [Function.update_of_ne hji] at hj
  · have hm : (φ i).tick = some m := by rw [hφ]; rfl
    unfold Graph.copies
    by_cases hji : j = i
    · rw [hji, Function.update_self, hψ] at hj
      cases hj
      have hnone := h.unlinked i n (by rw [hφ]; trivial) hm (calls i).parent
      rw [hji, hunder, Function.update_self, List.map_append, List.count_append]
      refine ⟨List.mem_append_right _ (List.mem_singleton_self _), ?_⟩
      rw [List.count_eq_zero_of_not_mem]
      · simp
      · intro hmem
        obtain ⟨e, he, heq⟩ := List.mem_map.mp hmem
        exact hnone e he heq
    · rw [Function.update_of_ne hji] at hj
      obtain ⟨hmem, hcount⟩ := h.linked j n position hj
      rw [hunder]
      by_cases hparent : (calls j).parent = (calls i).parent
      · have hn : (φ j).tick = some n := by rw [hj]; rfl
        have hne : Surreal.newId m ≠ Surreal.newId n := by
          intro heq
          have hmn := hinj m n (h.range i m hm).1 (h.range j n hn).1 heq
          exact hji (h.apart j i n hn (hmn ▸ hm))
        rw [hparent, Function.update_self, List.map_append, List.count_append, ← hparent]
        refine ⟨List.mem_append_left _ hmem, ?_⟩
        rw [← Graph.copies, hcount]
        simp [hne]
      · rw [Function.update_of_ne hparent]
        exact ⟨hmem, hcount⟩

omit hinj in
theorem Consistent.asked_step (h : Consistent first calls s φ) (hs : Stepped calls s s' i φ ψ)
    (j : ι) (tick : Option ℕ) (position : ℤ)
    (hj : Function.update φ i ψ j = .holding tick position) (q : ℤ)
    (hq : (calls j).position? = some q) : position = q := by
  by_cases hji : j = i
  · rw [hji, Function.update_self] at hj
    rw [hji] at hq
    rcases hs.change.holding_cases hj with ⟨-, tick', hφ⟩ | hasked | ⟨hasked, -⟩
    · exact h.asked i tick' position hφ q hq
    · exact Option.some.inj (hasked.symm.trans hq)
    · rw [hasked] at hq
      cases hq
  · rw [Function.update_of_ne hji] at hj
    exact h.asked j tick position hj q hq

omit hinj in
theorem Consistent.current_step (h : Consistent first calls s φ) (hs : Stepped calls s s' i φ ψ)
    (j : ι) (tick : Option ℕ) (position : ℤ)
    (hj : Function.update φ i ψ j = .holding tick position) (hasked : (calls j).position? = none)
    (hcurrent : s'.current j = true) : ∀ e ∈ s'.graph.under (calls j).parent, e.2 < position := by
  rw [hs.current] at hcurrent
  rcases hs.change.under_cases with ⟨hunder, hstores, -⟩ | ⟨m, q, hφ, hψ, hstores, hreads, hunder⟩
  · rw [hstores, if_neg (by simp)] at hcurrent
    rw [hunder]
    by_cases hji : j = i
    · rw [hji, Function.update_self] at hj
      rw [hji] at hasked hcurrent ⊢
      rcases hs.change.holding_cases hj with ⟨hreads, tick', hφ⟩ | hsome | ⟨-, -, rfl⟩
      · rw [hreads, if_neg (by simp)] at hcurrent
        exact h.current i tick' position hφ hasked hcurrent
      · rw [hsome] at hasked
        cases hasked
      · exact fun e he => lt_nextAfter he
    · rw [Function.update_of_ne hji] at hj
      rw [if_neg fun hboth => hji hboth.1] at hcurrent
      exact h.current j tick position hj hasked hcurrent
  · have hji : j ≠ i := by
      rintro rfl
      rw [Function.update_self, hψ] at hj
      cases hj
    rw [Function.update_of_ne hji] at hj
    have hparent : (calls j).parent ≠ (calls i).parent := by
      intro heq
      rw [hstores, heq, if_pos rfl] at hcurrent
      cases hcurrent
    rw [hstores, if_neg fun heq => hparent (Option.some.inj heq).symm,
      if_neg fun hboth => hji hboth.1] at hcurrent
    rw [hunder, Function.update_of_ne hparent]
    exact h.current j tick position hj hasked hcurrent

/-- The invariant is kept by every step. -/
theorem Consistent.step (h : Consistent first calls s φ) (hs : Stepped calls s s' i φ ψ) :
    Consistent first calls s' (Function.update φ i ψ) where
  stage j := by
    by_cases hji : j = i
    · rw [hji, Function.update_self]
      exact hs.stage
    · rw [Function.update_of_ne hji, hs.others j hji]
      exact h.stage j
  range := h.range_step hs
  apart := h.apart_step hs
  ticks := h.ticks.trans hs.change.ticks_le
  unused := h.unused_step hinj hs
  unlinked := h.unlinked_step hinj hs
  linked := h.linked_step hinj hs
  content := h.content_step hinj hs
  asked := h.asked_step hs
  current := h.current_step hs

end Preservation

/-- What a later state of a run has kept of an earlier one, and what it has added to it. -/
structure Later (calls : ι → Append) (s s' : Appends ι) (φ φ' : ι → Phase) : Prop where
  listed : ∀ parent, s.graph.under parent <+: s'.graph.under parent
  stored : ∀ j n position, φ j = .stored n position → φ' j = .stored n position
  above : ∀ j n position, (φ j).Pending → φ' j = .stored n position →
    ∀ e ∈ s.graph.under (calls j).parent, e.2 < position
  distinct : ∀ parent, ((s.graph.under parent).map Prod.snd).Nodup →
    ((s'.graph.under parent).map Prod.snd).Nodup

omit [DecidableEq ι] [Surreal] in
theorem Later.refl (calls : ι → Append) (s : Appends ι) (φ : ι → Phase) : Later calls s s φ φ where
  listed _ := List.prefix_rfl
  stored _ _ _ h := h
  above j n position hpending hstored := by
    rw [hstored] at hpending
    exact hpending.elim
  distinct _ h := h

omit [DecidableEq ι] [Surreal] in
theorem Later.trans {calls : ι → Append} {s s' s'' : Appends ι} {φ φ' φ'' : ι → Phase}
    (h : Later calls s s' φ φ') (h' : Later calls s' s'' φ' φ'') : Later calls s s'' φ φ'' where
  listed parent := (h.listed parent).trans (h'.listed parent)
  stored j n position hj := h'.stored j n position (h.stored j n position hj)
  above j n position hpending hstored e he := by
    cases hφ' : φ' j with
    | stored m q =>
      have hsame := h'.stored j m q hφ'
      rw [hstored] at hsame
      cases hsame
      exact h.above j n position hpending hφ' e he
    | _ =>
      refine h'.above j n position ?_ hstored e ((h.listed _).subset he)
      rw [hφ']
      trivial
  distinct parent hnodup := h'.distinct parent (h.distinct parent hnodup)

section Runs

variable {first : ℕ} {calls : ι → Append} {s : Appends ι} {φ : ι → Phase}

theorem Stepped.later {s' : Appends ι} {i : ι} {ψ : Phase} (h : Consistent first calls s φ)
    (hs : Stepped calls s s' i φ ψ) (hturn : s.InTurn calls i) :
    Later calls s s' φ (Function.update φ i ψ) := by
  have hstored : ∀ j n position, φ j = .stored n position →
      Function.update φ i ψ j = .stored n position := by
    intro j n position hj
    by_cases hji : j = i
    · rw [hji, Function.update_self]
      exact hs.change.stored (hji ▸ hj)
    · rwa [Function.update_of_ne hji]
  have hpending : ∀ j n position, j ≠ i → (φ j).Pending →
      ¬Function.update φ i ψ j = .stored n position := by
    intro j n position hji hpending hj
    rw [Function.update_of_ne hji] at hj
    rw [hj] at hpending
    exact hpending
  rcases hs.change.under_cases with ⟨hunder, -, hback⟩ | ⟨m, q, hφ, hψ, hstores, -, hunder⟩
  · refine ⟨fun parent => ?_, hstored, fun j n position hp hj => ?_, fun parent h => ?_⟩
    · rw [hunder]
    · by_cases hji : j = i
      · rw [hji, Function.update_self] at hj
        rw [hji, hback n position hj] at hp
        exact hp.elim
      · exact absurd hj (hpending j n position hji hp)
    · rwa [hunder]
  · have habove := h.above hturn hstores hφ
    refine ⟨fun parent => ?_, hstored, fun j n position hp hj => ?_, fun parent hnodup => ?_⟩
    · rw [hunder]
      by_cases hparent : parent = (calls i).parent
      · rw [hparent, Function.update_self]
        exact List.prefix_append _ _
      · rw [Function.update_of_ne hparent]
    · by_cases hji : j = i
      · rw [hji, Function.update_self, hψ] at hj
        cases hj
        rw [hji]
        exact habove
      · exact absurd hj (hpending j n position hji hp)
    · rw [hunder]
      by_cases hparent : parent = (calls i).parent
      · rw [hparent] at hnodup
        rw [hparent, Function.update_self, List.map_append]
        refine List.nodup_append.mpr ⟨hnodup, List.nodup_singleton _, ?_⟩
        intro a ha b hb
        obtain ⟨e, he, rfl⟩ := List.mem_map.mp ha
        rw [List.map_singleton, List.mem_singleton] at hb
        rw [hb]
        exact (habove e he).ne
      · rwa [Function.update_of_ne hparent]

variable (hinj : ∀ m n, first ≤ m → first ≤ n → Surreal.newId m = Surreal.newId n → m = n)

include hinj

/-- A run in turn keeps the invariant; the calls without a step in it stay where they are. -/
theorem Consistent.run (steps : List ι) :
    ∀ {s : Appends ι} {φ : ι → Phase}, Consistent first calls s φ → s.Orderly calls steps →
      ∃ φ', Consistent first calls (s.run calls steps) φ' ∧ Later calls s (s.run calls steps) φ φ' ∧
        ∀ j ∉ steps, φ' j = φ j := by
  induction steps with
  | nil => exact fun {s φ} h _ => ⟨φ, h, Later.refl calls s φ, fun _ _ => rfl⟩
  | cons i steps ih =>
    intro s φ h hsteps
    obtain ⟨ψ, hs⟩ := h.stepped i
    obtain ⟨φ', h', hlater, hothers⟩ := ih (h.step hinj hs) hsteps.2
    refine ⟨φ', h', (hs.later h hsteps.1).trans hlater, fun j hj => ?_⟩
    rw [List.mem_cons, not_or] at hj
    rw [hothers j hj.2, Function.update_of_ne hj.1]

end Runs

/-! What the readers return. -/

section Reading

variable {β : Type}

/-- Contents stay as they are, whatever a reader asks. -/
abbrev KeepsContents (p : MemoryProgram β) : Prop := p.Keeps answer Graph.contentOf

theorem keepsContents_query {statement : Statement} {next : List Record → MemoryProgram β}
    (h : ∀ g : Graph, (answer [statement] g).1.contentOf = g.contentOf)
    (hnext : ∀ result, KeepsContents (next result)) : KeepsContents (.query [statement] next) :=
  ⟨h, hnext⟩

theorem keepsContents_markRecordsRead (records : List Record) :
    KeepsContents (markRecordsRead records) := by
  induction records with
  | nil => trivial
  | cons record rest ih =>
    cases record with
    | edge target position => trivial
    | position position => trivial
    | node node =>
      unfold markRecordsRead
      refine (Program.keeps_ofExcept answer _ _).bind answer fun id => ?_
      refine keepsContents_query (fun g => contentOf_modify g id fun _ => rfl) fun result => ?_
      exact ih.bind answer fun _ => trivial

theorem keepsContents_touchedRecords (markRead : Bool) (records : List Record) :
    KeepsContents (touchedRecords markRead records) := by
  cases markRead with
  | false => trivial
  | true => exact keepsContents_markRecordsRead records

theorem keepsContents_actionForSessionAction (id : String) :
    KeepsContents (TaskHistoryStore.actionForSessionAction id) := by
  unfold TaskHistoryStore.actionForSessionAction
  refine (Program.keeps_ofExcept answer _ _).bind answer fun id => ?_
  refine keepsContents_query (fun g => rfl) fun relations => ?_
  match relations with
  | [] => trivial
  | .node _ :: _ => trivial
  | .position _ :: _ => trivial
  | .edge target _ :: _ =>
    refine (Program.keeps_ofExcept answer _ _).bind answer fun id => ?_
    refine keepsContents_query (fun g => rfl) fun records => ?_
    change KeepsContents (if records = [] then _ else _)
    split
    · trivial
    · exact (Program.keeps_ofExcept answer _ _).bind answer fun _ => Program.keeps_ofExcept answer _ _

theorem keepsContents_actionsForNode (id : String) :
    KeepsContents (TaskHistoryStore.actionsForNode id) := by
  have hactions : ∀ relations, KeepsContents (TaskHistoryStore.actionsOf relations) := by
    intro relations
    induction relations with
    | nil => trivial
    | cons relation rest ih =>
      cases relation with
      | node node => trivial
      | position position => trivial
      | edge target position =>
        unfold TaskHistoryStore.actionsOf
        exact (keepsContents_actionForSessionAction target).bind answer fun _ =>
          ih.bind answer fun _ => trivial
  unfold TaskHistoryStore.actionsForNode
  refine (Program.keeps_ofExcept answer _ _).bind answer fun id => ?_
  exact keepsContents_query (fun g => rfl) hactions

/-- What the loop of a reader makes of one record: an item with the id of the record. -/
structure ItemOf (item : List Record → MemoryProgram β) (idOf : β → String) : Prop where
  keeps : ∀ records, KeepsContents (item records)
  id : ∀ node g b, ((item [.node node]).run answer g).2 = .ok b → idOf b = node.id

/-- The items are those of the targets that are there, in the order of the listing. -/
theorem inOrder_ids {item : List Record → MemoryProgram β} {idOf : β → String}
    (h : ItemOf item idOf) (entries : List (String × ℤ)) :
    ∀ (g : Graph) (items : List β),
      ((inOrder item (entries.map fun e => .edge e.1 e.2)).run answer g).2 = .ok items →
        items.map idOf = (entries.map Prod.fst).filter fun id => (g.contentOf id).isSome := by
  induction entries with
  | nil =>
    intro g items hitems
    obtain rfl := Except.ok.inj hitems
    rfl
  | cons e entries ih =>
    intro g items hitems
    rw [List.map_cons] at hitems
    unfold inOrder at hitems
    rcases memoryNodeRecordId_cases e.1 with hid | ⟨error, hid⟩
    swap
    · rw [hid] at hitems
      cases hitems
    rw [hid, Program.ofExcept_ok, Program.done_bind, Program.ask_bind, Program.run_query] at hitems
    rw [List.map_cons]
    have hanswer : answer [.selectNode e.1] g =
        (g.at' (g.ticks + 1), ((g.node? e.1).map Record.node).toList) := rfl
    rw [hanswer] at hitems
    have hsame : (g.at' (g.ticks + 1)).contentOf = g.contentOf := rfl
    cases hnode : g.nodes.get? e.1 with
    | none =>
      have hnone : g.node? e.1 = none := by rw [Graph.node?, hnode]; rfl
      have hcontent : g.contentOf e.1 = none := by rw [Graph.contentOf, hnode]; rfl
      rw [hnone] at hitems
      rw [List.filter_cons_of_neg (by rw [hcontent]; decide), ← hsame]
      exact ih _ items hitems
    | some fields =>
      have hsome : g.node? e.1 = some ⟨fields, e.1⟩ := by rw [Graph.node?, hnode]; rfl
      have hcontent : g.contentOf e.1 = some fields.content := by rw [Graph.contentOf, hnode]; rfl
      rw [hsome] at hitems
      rw [List.filter_cons_of_pos (by rw [hcontent]; rfl), ← hsame]
      obtain ⟨b, hb, hothers⟩ := Program.run_bind_ok answer hitems
      obtain ⟨others, hrest, hdone⟩ := Program.run_bind_ok answer hothers
      obtain rfl := Except.ok.inj hdone
      rw [List.map_cons, h.id _ _ b hb, ih _ others hrest, (h.keeps _).run answer]

/-- A record that is marked as read keeps its id. -/
theorem touchedRecords_one {markRead : Bool} {node : MemoryNode} {g : Graph} {touched : List Record}
    (h : ((touchedRecords markRead [.node node]).run answer g).2 = .ok touched) :
    ∃ node', touched = [.node node'] ∧ node'.id = node.id := by
  cases markRead with
  | false => exact ⟨node, (Except.ok.inj h).symm, rfl⟩
  | true =>
    change ((markRecordsRead [.node node]).run answer g).2 = .ok touched at h
    unfold markRecordsRead at h
    rcases memoryNodeRecordId_cases node.id with hid | ⟨e, hid⟩
    · rw [hid] at h
      obtain rfl : (answer [.markRead node.id] g).2.headD (.node node) :: [] = touched :=
        Except.ok.inj h
      simp only [answer, List.foldl_nil, execute, effect, Graph.modify]
      cases g.nodes.get? node.id with
      | none => exact ⟨node, rfl, rfl⟩
      | some fields => exact ⟨⟨_, node.id⟩, rfl, rfl⟩
    · rw [hid] at h
      cases h

theorem itemOf_message (markRead : Bool) :
    ItemOf (fun records => do
      let touched ← touchedRecords markRead records
      let node ← ofExcept (firstRecord touched)
      ofExcept (memoryNodeFromRecord node parseConversationMessage)) Parsed.id where
  keeps records := (keepsContents_touchedRecords markRead records).bind answer fun _ =>
    (Program.keeps_ofExcept answer _ _).bind answer fun _ => Program.keeps_ofExcept answer _ _
  id node g b hb := by
    obtain ⟨touched, htouched, hrest⟩ := Program.run_bind_ok answer hb
    obtain ⟨node', rfl, hid⟩ := touchedRecords_one htouched
    obtain ⟨first, hfirst, hparsed⟩ := Program.run_bind_ok answer hrest
    rw [Program.run_ofExcept_snd] at hfirst hparsed
    obtain rfl : node' = first := Except.ok.inj hfirst
    rw [id_of_memoryNodeFromRecord hparsed, hid]

theorem itemOf_historyNode :
    ItemOf (fun records => do
      let first ← ofExcept (firstRecord records)
      let node ← ofExcept (memoryNodeFromRecord first parseTaskHistoryNode)
      let actions ← TaskHistoryStore.actionsForNode node.id
      .done (⟨node, actions⟩ : TaskHistoryStore.TaskHistoryRecord)) fun record => record.node.id where
  keeps records := (Program.keeps_ofExcept answer _ _).bind answer fun _ =>
    (Program.keeps_ofExcept answer _ _).bind answer fun _ =>
      (keepsContents_actionsForNode _).bind answer fun _ => trivial
  id node g b hb := by
    obtain ⟨first, hfirst, hrest⟩ := Program.run_bind_ok answer hb
    obtain ⟨parsed, hparsed, hactions⟩ := Program.run_bind_ok answer hrest
    obtain ⟨actions, -, hdone⟩ := Program.run_bind_ok answer hactions
    rw [Program.run_ofExcept_snd] at hfirst hparsed
    obtain rfl : node = first := Except.ok.inj hfirst
    obtain rfl := Except.ok.inj hdone
    exact id_of_memoryNodeFromRecord hparsed

theorem listing_ids {item : List Record → MemoryProgram β} {idOf : β → String}
    (hitem : ItemOf item idOf) (parent : Parent) {g : Graph} {items : List β}
    (h : ((ofExcept (memoryNodeRecordId parent.recordId) >>= fun id =>
      ask [.selectPositions parent.table id] >>= inOrder item).run answer g).2 = .ok items) :
    items.map idOf = ((Surreal.byPosition (g.under parent)).map Prod.fst).filter
      fun id => (g.contentOf id).isSome := by
  rcases memoryNodeRecordId_cases parent.recordId with hid | ⟨e, hid⟩
  · have hanswer : answer [.selectPositions parent.table parent.recordId] g =
        (g.at' (g.ticks + 1), (Surreal.byPosition (g.under parent)).map fun e => .edge e.1 e.2) := rfl
    rw [hid, Program.ofExcept_ok, Program.done_bind, Program.ask_bind, Program.run_query,
      hanswer] at h
    exact inOrder_ids hitem _ (g.at' (g.ticks + 1)) items h
  · rw [hid] at h
    cases h

/-- A reader returns the records of the listing that are there, by position. -/
theorem read_eq (parent : Parent) {markRead : Bool} {g : Graph} {ids : List String}
    (h : ((parent.read markRead).run answer g).2 = .ok ids) :
    ids = ((Surreal.byPosition (g.under parent)).map Prod.fst).filter
      fun id => (g.contentOf id).isSome := by
  cases parent with
  | conversation id =>
    obtain ⟨messages, hmessages, hids⟩ := Program.run_bind_ok answer h
    obtain rfl := Except.ok.inj hids
    exact listing_ids (itemOf_message markRead) (.conversation id) hmessages
  | taskHistory id =>
    obtain ⟨records, hrecords, hids⟩ := Program.run_bind_ok answer h
    obtain rfl := Except.ok.inj hids
    exact listing_ids itemOf_historyNode (.taskHistory id) hrecords

end Reading

/-! The appends of a run that is in turn throughout. -/

/-- After a run, the positions under each parent are distinct if they were before, every call that
has returned has its record under its parent exactly once, and the reader returns it once, and
behind those of the calls that had returned before the call began. -/
structure AppendedInOrder (start : Graph) (calls : ι → Append) (steps : List ι) : Prop where
  distinct : ∀ parent, ((start.under parent).map Prod.snd).Nodup →
    ((((Appends.start calls start).run calls steps).graph.under parent).map Prod.snd).Nodup
  stored : ∀ i id, ((Appends.start calls start).run calls steps).system.programs i = .done id →
    ((Appends.start calls start).run calls steps).graph.copies (calls i).parent id = 1 ∧
      ((Appends.start calls start).run calls steps).graph.contentOf id = some (calls i).content
  returned : ∀ i id markRead ids,
    ((Appends.start calls start).run calls steps).system.programs i = .done id →
      (((calls i).parent.read markRead).run answer
        ((Appends.start calls start).run calls steps).graph).2 = .ok ids → ids.count id = 1
  ordered : ∀ before after i j id id', steps = before ++ after →
    (calls i).parent = (calls j).parent →
      ((Appends.start calls start).run calls before).system.programs i = .done id → j ∉ before →
        ((Appends.start calls start).run calls steps).system.programs j = .done id' →
          ∀ markRead ids, (((calls i).parent.read markRead).run answer
            ((Appends.start calls start).run calls steps).graph).2 = .ok ids →
              [id, id'].Sublist ids

omit [DecidableEq ι] in
theorem Consistent.start (calls : ι → Append) {g : Graph} (hids : g.DistinctIds) :
    Consistent g.ticks calls (Appends.start calls g) fun _ => .early none where
  stage i := .entry (calls i)
  range _ _ h := nomatch h
  apart _ _ _ h := nomatch h
  ticks := le_rfl
  unused := hids.unused
  unlinked _ _ _ h := nomatch h
  linked _ _ _ h := nomatch h
  content _ _ h := nomatch h
  asked _ _ _ h := nomatch h
  current _ _ _ h := nomatch h

omit [Surreal] in
theorem program_ne_done (call : Append) (id : String) : call.program ≠ .done id := by
  intro h
  cases call with
  | addMessage conversationId message tags asked =>
    change (ConversationMemory.addMessage conversationId message tags asked >>= _) = _ at h
    unfold ConversationMemory.addMessage ensureConversation ensureUnder at h
    rcases memoryNodeRecordId_cases conversationId with hid | ⟨e, hid⟩
    · rw [hid] at h
      cases h
    · rw [hid] at h
      cases h
  | appendNode taskHistoryId sessionId conversationId actions tags =>
    change (TaskHistoryStore.appendNode taskHistoryId sessionId conversationId actions tags >>= _) =
      _ at h
    unfold TaskHistoryStore.appendNode at h
    rcases memoryNodeRecordId_cases taskHistoryId with hid | ⟨e, hid⟩ <;> rw [hid] at h
    · rcases memoryNodeRecordId_cases sessionId with hsession | ⟨e, hsession⟩ <;> rw [hsession] at h
      · rcases memoryNodeRecordId_cases conversationId with hconversation | ⟨e, hconversation⟩ <;>
          rw [hconversation] at h
        · cases h
        · cases h
      · cases h
    · cases h

/-- A call that has returned has stored its record. -/
theorem stage_done {call : Append} {id : String} {φ : Phase} (h : Stage call (.done id) φ) :
    ∃ n position, id = Surreal.newId n ∧ φ = .stored n position := by
  generalize hp : (Program.done id : MemoryProgram String) = p at h
  cases h with
  | ended _ n position =>
    cases hp
    exact ⟨n, position, rfl, rfl⟩
  | entry => exact absurd hp.symm (program_ne_done call id)
  | raised => cases hp
  | reading => cases hp
  | storing => cases hp
  | relating => cases hp
  | touching => cases hp
  | acting taskHistoryId sessionId conversationId actions tags rest =>
    cases rest with
    | nil => cases hp
    | cons actionId rest =>
      unfold TaskHistoryStore.relateActions at hp
      rcases memoryNodeRecordId_cases actionId with hid | ⟨e, hid⟩
      · rw [hid] at hp
        cases hp
      · rw [hid] at hp
        cases hp
  | closing => cases hp

omit [Surreal] [DecidableEq ι] in
/-- In a sorted list an entry stands before those above it. -/
theorem sublist_of_lt {entries : List (String × ℤ)} {a b : String × ℤ}
    (hsorted : entries.Pairwise fun x y => x.2 ≤ y.2) (ha : a ∈ entries) (hb : b ∈ entries)
    (hlt : a.2 < b.2) : [a, b].Sublist entries := by
  induction entries with
  | nil => cases ha
  | cons e entries ih =>
    rw [List.pairwise_cons] at hsorted
    rcases List.mem_cons.mp ha with rfl | ha
    · rcases List.mem_cons.mp hb with rfl | hb
      · exact absurd hlt (lt_irrefl _)
      · exact (List.singleton_sublist.mpr hb).cons_cons _
    · rcases List.mem_cons.mp hb with heq | hb
      · exact absurd (hsorted.1 a ha) (not_le.mpr (heq ▸ hlt))
      · exact (ih hsorted.2 ha hb).cons _

/-- Two records that are there are returned in the order of their positions. -/
theorem read_sublist {parent : Parent} {markRead : Bool} {g : Graph} {ids : List String}
    (h : ((parent.read markRead).run answer g).2 = .ok ids) {a b : String × ℤ}
    (ha : a ∈ g.under parent) (hb : b ∈ g.under parent) (hlt : a.2 < b.2)
    (hathere : (g.contentOf a.1).isSome = true) (hbthere : (g.contentOf b.1).isSome = true) :
    [a.1, b.1].Sublist ids := by
  have hperm := Surreal.byPosition_perm (g.under parent)
  have hsublist := sublist_of_lt (Surreal.byPosition_sorted (g.under parent)) (hperm.mem_iff.mpr ha)
    (hperm.mem_iff.mpr hb) hlt
  have hfiltered := (hsublist.map Prod.fst).filter fun id => (g.contentOf id).isSome
  rw [read_eq parent h]
  simpa [hathere, hbthere] using hfiltered

/-- A record that is there is returned as often as it is stored. -/
theorem count_read {parent : Parent} {markRead : Bool} {g : Graph} {ids : List String}
    (h : ((parent.read markRead).run answer g).2 = .ok ids) {id : String}
    (hthere : (g.contentOf id).isSome = true) : ids.count id = g.copies parent id := by
  rw [read_eq parent h, List.count_filter (p := fun id => (g.contentOf id).isSome) hthere]
  exact ((Surreal.byPosition_perm (g.under parent)).map Prod.fst).count_eq id

theorem run_append (calls : ι → Append) (s : Appends ι) (before after : List ι) :
    s.run calls (before ++ after) = (s.run calls before).run calls after :=
  List.foldl_append ..

theorem orderly_append (calls : ι → Append) (before after : List ι) :
    ∀ {s : Appends ι}, s.Orderly calls (before ++ after) →
      s.Orderly calls before ∧ (s.run calls before).Orderly calls after := by
  induction before with
  | nil => exact fun h => ⟨trivial, h⟩
  | cons i before ih => exact fun h => ⟨⟨h.1, (ih h.2).1⟩, (ih h.2).2⟩

theorem appends_in_order (start : Graph) (hids : start.DistinctIds) (calls : ι → Append)
    (steps : List ι) (hturn : (Appends.start calls start).Orderly calls steps) :
    AppendedInOrder start calls steps := by
  have hfirst := Consistent.start calls hids
  obtain ⟨φ, h, hlater, -⟩ := hfirst.run hids.injective steps hturn
  have hdone : ∀ i id, ((Appends.start calls start).run calls steps).system.programs i = .done id →
      ∃ n position, id = Surreal.newId n ∧ φ i = .stored n position := by
    intro i id hi
    have hstage := h.stage i
    rw [hi] at hstage
    exact stage_done hstage
  have hcontent : ∀ i n position, φ i = .stored n position →
      ((Appends.start calls start).run calls steps).graph.contentOf (Surreal.newId n) =
        some (calls i).content := fun i n position hi => h.content i n (by rw [hi]; rfl)
  refine ⟨hlater.distinct, fun i id hi => ?_, fun i id markRead ids hi hread => ?_, ?_⟩
  · obtain ⟨n, position, rfl, hφ⟩ := hdone i id hi
    exact ⟨(h.linked i n position hφ).2, hcontent i n position hφ⟩
  · obtain ⟨n, position, rfl, hφ⟩ := hdone i id hi
    rw [count_read hread (by rw [hcontent i n position hφ]; rfl)]
    exact (h.linked i n position hφ).2
  · rintro before after i j id id' rfl hparent hi hj hj' markRead ids hread
    obtain ⟨hbefore, hafter⟩ := orderly_append calls before after hturn
    obtain ⟨φ₁, h₁, -, hothers⟩ := hfirst.run hids.injective before hbefore
    rw [run_append] at hj' hread
    obtain ⟨φ₂, h₂, hlater₂, -⟩ := h₁.run hids.injective after hafter
    -- the first call has stored its record before the second begins
    have hstage := h₁.stage i
    rw [hi] at hstage
    obtain ⟨n, position, rfl, hφi⟩ := stage_done hstage
    have hstage' := h₂.stage j
    rw [hj'] at hstage'
    obtain ⟨m, position', rfl, hφj⟩ := stage_done hstage'
    have hearly : (φ₁ j).Pending := by
      rw [hothers j hj]
      trivial
    have hmem := (h₁.linked i n position hφi).1
    have hmem' := (h₂.linked j m position' hφj).1
    have hlt := hlater₂.above j m position' hearly hφj _ (hparent ▸ hmem)
    have hφi' := hlater₂.stored i n position hφi
    refine read_sublist hread ((hlater₂.listed _).subset hmem) (hparent ▸ hmem') hlt ?_ ?_
    · rw [h₂.content i n (by rw [hφi']; rfl)]
      rfl
    · rw [h₂.content j m (by rw [hφj]; rfl)]
      rfl

end Appending

namespace TestVectors

local instance messageDatabase : Surreal := countingDatabase

/-- One conversation under its root. -/
def oneConversation : Graph where
  nodes := FiniteMap.empty.insert "memory_node:talk" ⟨[], [("name", "talk")], 0, 0, none⟩
  edges := [⟨.contains, conversationsRootId, "memory_node:talk", none⟩]
  ticks := 1

/-- What the user says, and what the agent replies. -/
def exchange : Bool → Append
  | true => .addMessage "memory_node:talk" ⟨"human", "hello"⟩ [] none
  | false => .addMessage "memory_node:talk" ⟨"agent", "hi"⟩ [] none

theorem distinctIds_oneConversation : oneConversation.DistinctIds where
  unused n _ := by
    have hne : "memory_node:n" ++ toString n ≠ "memory_node:talk" := by
      intro h
      have hchars := congrArg String.toList h
      rw [String.toList_append] at hchars
      simp at hchars
    refine ⟨?_, fun parent e he => ?_⟩
    · exact congrArg (Option.map _) (FiniteMap.get?_insert_ne _ hne _)
    · cases parent <;> cases he
  injective m n _ _ h := by
    have hrepr : Nat.repr m = Nat.repr n := String.append_right_inj _ |>.mp h
    have hdigits : Nat.toDigits 10 m = Nat.toDigits 10 n := by
      rw [← Nat.toList_repr, hrepr, Nat.toList_repr]
    rw [← @Nat.ofDigitChars_ten_toDigits m, hdigits, Nat.ofDigitChars_ten_toDigits]

/-- The reply reads its position once the message is stored, and before that call returns. -/
theorem appends_in_order_reply : AppendedInOrder oneConversation exchange
    [true, true, true, false, true, false, true, false, false, false] :=
  appends_in_order oneConversation distinctIds_oneConversation exchange _ (by decide +kernel)

/-- Both calls read their position before either stores its message. -/
theorem overlapping_positions : ¬AppendedInOrder oneConversation exchange
    [true, false, true, false, true, false, true, false, true, false] := by
  intro h
  have hnodup := h.distinct (.conversation "memory_node:talk") (by decide +kernel)
  revert hnodup
  decide +kernel

end TestVectors
end ReframeMemory
