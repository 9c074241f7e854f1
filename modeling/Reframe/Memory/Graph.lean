import Reframe.Lib.FiniteMap
import Reframe.Lib.Interaction
import Reframe.Lib.PyText

/-! The memory graph as its queries see it: nodes, relation edges, and the statements that read and
write them. A query is a list of statements that take effect together. -/
namespace ReframeMemory
open PyText (fromKeys stripText)

/-- What the database chooses itself: times, the ids of created nodes, and how a listing is ordered
where the statement leaves it open. Times and ids are those of the n-th statement. -/
class Surreal where
  now : ℕ → ℕ
  newId : ℕ → String
  /-- `ORDER BY updated_at DESC, created_at DESC`, on update and creation times. -/
  byRecency {α : Type} (times : α → ℕ × ℕ) : List α → List α
  /-- `ORDER BY position ASC`. -/
  byPosition : List (String × ℤ) → List (String × ℤ)
  byRecency_perm {α : Type} (times : α → ℕ × ℕ) (xs : List α) : (byRecency times xs).Perm xs
  byPosition_perm (xs : List (String × ℤ)) : (byPosition xs).Perm xs
  byPosition_sorted (xs : List (String × ℤ)) :
    (byPosition xs).Pairwise fun a b => a.2 ≤ b.2

/-- A database that counts its ids and sorts stably. -/
@[reducible] def countingDatabase : Surreal where
  now n := n
  newId n := "memory_node:n" ++ toString n
  byRecency times xs := xs.mergeSort fun a b =>
    (times b).1 < (times a).1 || ((times b).1 = (times a).1 && (times b).2 ≤ (times a).2)
  byPosition xs := xs.mergeSort fun a b => a.2 ≤ b.2
  byRecency_perm _ xs := List.mergeSort_perm xs _
  byPosition_perm xs := List.mergeSort_perm xs _
  byPosition_sorted xs := by
    have hsorted : (xs.mergeSort fun a b => a.2 ≤ b.2).Pairwise fun a b => decide (a.2 ≤ b.2) =
        true := List.pairwise_mergeSort
      (fun a b c hab hbc => by simp at *; omega) (fun a b => by simp; omega) xs
    exact hsorted.imp fun h => by simpa using h

/-- `MEMORY_RELATIONS`. -/
inductive Relation where
  | contains
  | providesTask
  | hasConversation
  | hasMessage
  | hasSessionMemory
  | history
  | actions
  | action
  deriving DecidableEq

/-- The fields of a content object, in order. -/
abbrev Content := List (String × String)

/-- The fields of a memory node, stored under its id. -/
structure NodeFields where
  tags : List String
  content : Content
  createdAt : ℕ
  updatedAt : ℕ
  readAt : Option ℕ
  deriving DecidableEq

structure MemoryNode extends NodeFields where
  id : String
  deriving DecidableEq

structure Edge where
  table : Relation
  source : String
  target : String
  position : Option ℤ
  deriving DecidableEq

structure Graph where
  nodes : FiniteMap String NodeFields
  edges : List Edge
  /-- Statements executed so far. -/
  ticks : ℕ

inductive PyError where
  | valueError (message : String)
  | keyError (key : String)
  deriving DecidableEq

inductive Statement where
  /-- `CREATE memory_node SET tags, content, created_at, updated_at, read_at = NONE`. -/
  | create (tags : List String) (content : Content)
  /-- `RELATE source->table->target`, with `SET position` where it is given. -/
  | relate (table : Relation) (source target : String) (position : Option ℤ)
  /-- `UPDATE id SET updated_at = time::now()`. -/
  | touch (id : String)
  /-- `UPDATE id SET tags, content, updated_at RETURN AFTER`. -/
  | update (id : String) (tags : List String) (content : Content)
  /-- `UPDATE id SET read_at = time::now() RETURN AFTER`. -/
  | markRead (id : String)
  /-- `DELETE table WHERE out = target`. -/
  | deleteTo (table : Relation) (target : String)
  /-- `SELECT * FROM source->table->memory_node` with a `WHERE` clause. -/
  | select (source : String) (table : Relation) (keep : MemoryNode → Bool)
  /-- The same, limited to one record. -/
  | selectOne (source : String) (table : Relation) (keep : MemoryNode → Bool)
  /-- `SELECT * FROM id`. -/
  | selectNode (id : String)
  /-- `SELECT out, position FROM table WHERE in = source ORDER BY position ASC`. -/
  | selectPositions (table : Relation) (source : String)
  /-- `SELECT out FROM table WHERE in = source LIMIT 1`. -/
  | selectTarget (table : Relation) (source : String)
  /-- `SELECT position FROM table WHERE in = source ORDER BY position DESC LIMIT 1`. -/
  | topPosition (table : Relation) (source : String)

inductive Record where
  | node (node : MemoryNode)
  | edge (target : String) (position : ℤ)
  | position (position : ℤ)
  deriving DecidableEq

abbrev Query := List Statement

abbrev MemoryProgram (α : Type) := Interaction.Program Query (List Record) PyError α

namespace Graph

/-- The edges of one kind that leave a record. -/
def edgesFrom (g : Graph) (table : Relation) (source : String) : List Edge :=
  g.edges.filter fun e => e.table = table ∧ e.source = source

def node? (g : Graph) (id : String) : Option MemoryNode :=
  (g.nodes.get? id).map fun fields => ⟨fields, id⟩

/-- The nodes along the edges of one kind; an edge to a node that is not there leads nowhere. -/
def related (g : Graph) (source : String) (table : Relation) : List MemoryNode :=
  (g.edgesFrom table source).filterMap fun e => g.node? e.target

/-- The targets with their positions, in the order the edges were stored. -/
def placed (g : Graph) (table : Relation) (source : String) : List (String × ℤ) :=
  (g.edgesFrom table source).filterMap fun e => e.position.map fun position => (e.target, position)

/-- The largest position under a record. -/
def topPosition (g : Graph) (table : Relation) (source : String) : Option ℤ :=
  ((g.placed table source).map Prod.snd).max?

/-- A node after a change, where it is there. -/
def modify (g : Graph) (id : String) (change : NodeFields → NodeFields) : Graph × List Record :=
  match g.nodes.get? id with
  | some fields =>
    ({ g with nodes := g.nodes.insert id (change fields) }, [.node ⟨change fields, id⟩])
  | none => (g, [])

variable [Surreal]

/-- One statement, with the records it returns. -/
def effect (g : Graph) : Statement → Graph × List Record
  | .create tags content =>
    let fields : NodeFields := ⟨tags, content, Surreal.now g.ticks, Surreal.now g.ticks, none⟩
    ({ g with nodes := g.nodes.insert (Surreal.newId g.ticks) fields },
      [.node ⟨fields, Surreal.newId g.ticks⟩])
  | .relate table source target position =>
    ({ g with edges := g.edges ++ [⟨table, source, target, position⟩] },
      [.edge target (position.getD 0)])
  | .touch id => g.modify id fun fields => { fields with updatedAt := Surreal.now g.ticks }
  | .update id tags content =>
    g.modify id fun fields => { fields with tags, content, updatedAt := Surreal.now g.ticks }
  | .markRead id => g.modify id fun fields =>
      { fields with readAt := some (Surreal.now g.ticks) }
  | .deleteTo table target =>
    ({ g with edges := g.edges.filter fun e => ¬(e.table = table ∧ e.target = target) }, [])
  | .select source table keep =>
    (g, ((Surreal.byRecency (fun node => (node.updatedAt, node.createdAt))
      ((g.related source table).filter keep)).map .node))
  | .selectOne source table keep => (g, (((g.related source table).filter keep).take 1).map .node)
  | .selectNode id => (g, ((g.node? id).map Record.node).toList)
  | .selectPositions table source =>
    (g, (Surreal.byPosition (g.placed table source)).map fun e => .edge e.1 e.2)
  | .selectTarget table source =>
    (g, ((g.edgesFrom table source).take 1).map fun e => .edge e.target (e.position.getD 0))
  | .topPosition table source => (g, ((g.topPosition table source).map Record.position).toList)

/-- A statement at its time. -/
def execute (g : Graph) (statement : Statement) : Graph × List Record :=
  ({ (g.effect statement).1 with ticks := g.ticks + 1 }, (g.effect statement).2)

/-- The client returns what the first statement of a query returned. -/
def answer (query : Query) (g : Graph) : Graph × List Record :=
  match query with
  | [] => (g, [])
  | first :: rest =>
    (rest.foldl (fun g statement => (g.execute statement).1) (g.execute first).1,
      (g.execute first).2)

end Graph

/-! Names and small helpers of the Python code. -/

/-- `re.fullmatch("memory_node:[A-Za-z0-9_-]+")`. -/
def isMemoryNodeId (recordId : String) : Bool :=
  match "memory_node:".toList.isPrefixOf? recordId.toList with
  | some rest => rest ≠ [] && rest.all fun c => c.isAlphanum || c == '_' || c == '-'
  | none => false

/-- The `repr` of a text is the text in quotes, where it holds nothing to escape. -/
def memoryNodeRecordId (recordId : String) : Except PyError String :=
  if isMemoryNodeId recordId then .ok recordId
  else .error (.valueError ("expected memory_node record id, got '" ++ recordId ++ "'"))

theorem memoryNodeRecordId_cases (id : String) :
    memoryNodeRecordId id = .ok id ∨ ∃ e, memoryNodeRecordId id = .error e := by
  unfold memoryNodeRecordId
  split
  · exact .inl rfl
  · exact .inr ⟨_, rfl⟩

theorem memoryNodeRecordId_ok {recordId id : String} (h : memoryNodeRecordId recordId = .ok id) :
    id = recordId := by
  rcases memoryNodeRecordId_cases recordId with hok | ⟨e, he⟩
  · exact Except.ok.inj (h.symm.trans hok)
  · simp [he] at h

/-- `list(dict.fromkeys(tag.strip() for tag in tags if tag.strip()))`. -/
def cleanTags (tags : List String) : List String :=
  fromKeys ((tags.map stripText).filter (· ≠ ""))

/-- `first_record`. -/
def firstRecord : List Record → Except PyError MemoryNode
  | .node node :: _ => .ok node
  | .edge .. :: _ => .error (.keyError "id")
  | .position _ :: _ => .error (.keyError "id")
  | [] => .error (.valueError "query did not return a memory node")

/-- `content[key]`. -/
def field (content : Content) (key : String) : Except PyError String :=
  match content.lookup key with
  | some value => .ok value
  | none => .error (.keyError key)

export Interaction.Program (ask ofExcept)

end ReframeMemory
