import Reframe.Memory.Readers

/-! What readers see when a write of the memory graph stops after some of its queries. -/
namespace ReframeMemory
open Interaction

/-! What a graph links. -/

namespace Graph

/-- An edge of the kind leads to the record from somewhere. -/
def HasEdgeTo (g : Graph) (table : Relation) (id : String) : Prop :=
  ∃ e ∈ g.edges, e.table = table ∧ e.target = id

/-- The record is reachable from the root. -/
def LinkedUnder (g : Graph) (rootId id : String) : Prop :=
  (g.nodes.get? id).isSome = true ∧
    ∃ e ∈ g.edges, e.table = .contains ∧ e.source = rootId ∧ e.target = id

/-- The record is reachable from its root but not from its session. -/
def HalfLinked (g : Graph) (id : String) : Prop :=
  (g.LinkedUnder conversationsRootId id ∧ ¬g.HasEdgeTo .hasConversation id) ∨
    (g.LinkedUnder sessionMemoriesRootId id ∧ ¬g.HasEdgeTo .hasSessionMemory id)

/-- The provides relation leads to the task from this provider and from no other record. -/
def ProvidedBy (g : Graph) (id providerId : String) : Prop :=
  ∀ source, (∃ e ∈ g.edges, e.table = .providesTask ∧ e.source = source ∧ e.target = id) ↔
    source = providerId

/-- The provider that the content of a task names. -/
def storedProvider (g : Graph) (id : String) : Option String :=
  (g.nodes.get? id).bind fun fields => fields.content.lookup "provider_id"

/-- The stored provider of a task differs from its provides relation. -/
def Mismatched (g : Graph) (id : String) : Prop :=
  g.LinkedUnder tasksRootId id ∧
    ¬∃ providerId, g.storedProvider id = some providerId ∧ g.ProvidedBy id providerId

def withNode (g : Graph) (id : String) (fields : NodeFields) : Graph :=
  { g with nodes := g.nodes.insert id fields }

def withEdge (g : Graph) (e : Edge) : Graph := { g with edges := g.edges ++ [e] }

theorem SameView.refl (g : Graph) : SameView g g := ⟨fun _ _ _ => rfl, fun _ _ _ => rfl⟩

end Graph

open ReframeMemory.Graph

section Writes

variable [Surreal]

/-- After a call that stopped, readers see what they saw before or what they would see after the
whole call, no record is newly half linked, and no task newly differs from its relation. -/
structure AllOrNothing (before after g : Graph) : Prop where
  reads : SameReads g before ∨ SameReads g after
  linked : ∀ id, g.HalfLinked id → before.HalfLinked id
  provided : ∀ id, g.Mismatched id → before.Mismatched id

/-- The writes of several queries. -/
inductive GraphWrite where
  | createConversation (sessionId : String) (conversation : Conversation) (tags : List String)
  | createSessionMemory (sessionId : String) (memory : SessionMemory) (tags : List String)
  | createTask (task : Task) (tags : List String)
  | updateTask (taskId : String) (task : Task) (tags : List String)

namespace GraphWrite

/-- The graph after the whole call. -/
def completed (g : Graph) : GraphWrite → Graph
  | .createConversation sessionId conversation tags =>
    ((ConversationMemory.create sessionId conversation tags).run answer g).1
  | .createSessionMemory sessionId memory tags =>
    ((SessionMemoryStore.create sessionId memory tags).run answer g).1
  | .createTask task tags => ((TaskMemory.create task tags).run answer g).1
  | .updateTask taskId task tags => ((TaskMemory.update taskId task tags).run answer g).1

/-- The graph when the call stops after so many of its queries have taken effect. -/
def stopped (g : Graph) (queries : ℕ) : GraphWrite → Graph
  | .createConversation sessionId conversation tags =>
    ((ConversationMemory.create sessionId conversation tags).runFor answer queries g).1
  | .createSessionMemory sessionId memory tags =>
    ((SessionMemoryStore.create sessionId memory tags).runFor answer queries g).1
  | .createTask task tags => ((TaskMemory.create task tags).runFor answer queries g).1
  | .updateTask taskId task tags =>
    ((TaskMemory.update taskId task tags).runFor answer queries g).1

end GraphWrite

/-! The check of the parent. -/

variable {g : Graph} {rootId recordId missing : String} {α : Type}
  {f : String → MemoryProgram α}

/-- The graph with the new node, which the second query creates. -/
def Graph.created (g : Graph) (content : Content) (tags : List String) : Graph :=
  g.withNode (Surreal.newId (g.ticks + 1))
    ⟨cleanTags tags, content, Surreal.now (g.ticks + 1), Surreal.now (g.ticks + 1), none⟩

def rootEdge (g : Graph) (rootId : String) : Edge :=
  ⟨.contains, rootId, Surreal.newId (g.ticks + 1), none⟩

def parentEdge (g : Graph) (table : Relation) (parentId : String) : Edge :=
  ⟨table, parentId, Surreal.newId (g.ticks + 1), none⟩

/-- The graph of a creation after so many queries, apart from the time. -/
def createdAfter (g : Graph) (rootId : String) (table : Relation) (parentId : String)
    (content : Content) (tags : List String) : ℕ → Graph
  | 0 | 1 => g
  | 2 => g.created content tags
  | 3 => (g.created content tags).withEdge (rootEdge g rootId)
  | _ => ((g.created content tags).withEdge (rootEdge g rootId)).withEdge
      (parentEdge g table parentId)

section Calls

variable (missing nodeRootId : String) (table : Relation) (content : Content) (tags : List String)
  (parse : Content → Except PyError α)

end Calls

/-- The relation that a root's nodes have to their parents. -/
structure Paired (nodeRootId : String) (table : Relation) (parentId : String) (content : Content) :
    Prop where
  known : nodeRootId = conversationsRootId ∨ nodeRootId = sessionMemoriesRootId ∨
    nodeRootId = tasksRootId
  parents : table ≠ .contains
  conversations : nodeRootId = conversationsRootId → table = .hasConversation
  memories : nodeRootId = sessionMemoriesRootId → table = .hasSessionMemory
  tasks : nodeRootId = tasksRootId →
    table = .providesTask ∧ content.lookup "provider_id" = some parentId

section Creation

variable {nodeRootId parentId : String} {table : Relation} {content : Content} {tags : List String}

end Creation

/-! What stays as it is when only the time differs. -/

theorem AllOrNothing.complete {after : Graph} (hlinked : ∀ id, after.HalfLinked id → g.HalfLinked id)
    (hprovided : ∀ id, after.Mismatched id → g.Mismatched id) : AllOrNothing g after after :=
  ⟨.inr (SameView.refl after).sameReads, hlinked, hprovided⟩

section Creation

variable {nodeRootId parentId : String} {table : Relation} {content : Content} {tags : List String}
  {parse : Content → Except PyError α}

end Creation

/-! An update and what it passes through. -/

section Update

variable {taskId : String} {task : Task} {tags : List String} {fields : NodeFields}

/-- The graph with the new content, which the second query stores. -/
def Graph.rewritten (g : Graph) (taskId : String) (task : Task) (tags : List String)
    (fields : NodeFields) : Graph :=
  g.withNode taskId { fields with
    tags := cleanTags tags, content := task.asdict, updatedAt := Surreal.now (g.ticks + 1) }

omit [Surreal] in
/-- The graph with one provides relation to the task, which the third query stores. -/
def Graph.relinked (g : Graph) (taskId providerId : String) : Graph :=
  { g with edges := (g.edges.filter fun e => ¬(e.table = .providesTask ∧ e.target = taskId)) ++
      [⟨.providesTask, providerId, taskId, none⟩] }

/-- The graph of an update after so many queries, apart from the time. -/
def updatedAfter (g : Graph) (taskId : String) (task : Task) (tags : List String)
    (fields : NodeFields) : ℕ → Graph
  | 0 | 1 => g
  | 2 => g.rewritten taskId task tags fields
  | _ => (g.rewritten taskId task tags fields).relinked taskId task.providerId

section Calls

variable (tags)

end Calls

/-! What the new content and the new relation change. -/

end Update

/-! The three kinds of new nodes. -/

end Writes

namespace TestVectors

local instance graphDatabase : Surreal := countingDatabase

end TestVectors
end ReframeMemory
