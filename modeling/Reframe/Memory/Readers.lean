import Reframe.Memory.Stores

/-! What readers see of a memory graph: two graphs that agree on the nodes readers can reach give
the same answers to every reader. -/
namespace ReframeMemory
open Interaction

namespace Graph

/-- The graph at another time. -/
def at' (g : Graph) (ticks : ℕ) : Graph := { g with ticks }

/-- The same nodes and edges as far as readers look: they follow every table but `provides_task`. -/
structure SameView (a b : Graph) : Prop where
  edges : ∀ table source, table ≠ .providesTask → a.edgesFrom table source = b.edgesFrom table source
  nodes : ∀ e ∈ a.edges, e.table ≠ .providesTask → a.nodes.get? e.target = b.nodes.get? e.target

/-- Some edge that readers follow leads to the node. -/
def Reached (g : Graph) (id : String) : Prop :=
  ∃ e ∈ g.edges, e.table ≠ .providesTask ∧ e.target = id

variable {a b : Graph}

theorem mem_edgesFrom {g : Graph} {table : Relation} {source : String} {e : Edge} :
    e ∈ g.edgesFrom table source ↔ e ∈ g.edges ∧ e.table = table ∧ e.source = source := by
  simp [edgesFrom]

theorem SameView.node? (h : SameView a b) {id : String} (hreached : a.Reached id) :
    a.node? id = b.node? id := by
  obtain ⟨e, he, htable, rfl⟩ := hreached
  rw [Graph.node?, Graph.node?, h.nodes e he htable]

theorem SameView.related (h : SameView a b) {table : Relation} (htable : table ≠ .providesTask)
    (source : String) : a.related source table = b.related source table := by
  unfold Graph.related
  rw [← h.edges table source htable]
  refine List.filterMap_congr fun e he => h.node? ?_
  obtain ⟨hmem, hkind, -⟩ := mem_edgesFrom.mp he
  exact ⟨e, hmem, hkind ▸ htable, rfl⟩

/-- The nodes of a listing are reached. -/
theorem reached_of_related {g : Graph} {table : Relation} (htable : table ≠ .providesTask)
    {source : String} {node : MemoryNode} (h : node ∈ g.related source table) :
    g.Reached node.id := by
  obtain ⟨e, he, hnode⟩ := List.mem_filterMap.mp h
  obtain ⟨hmem, hkind, -⟩ := mem_edgesFrom.mp he
  obtain ⟨fields, -, rfl⟩ := Option.map_eq_some_iff.mp hnode
  exact ⟨e, hmem, hkind ▸ htable, rfl⟩

variable [Surreal]

/-- Marking a reached node as read returns the same record and keeps the view. -/
theorem SameView.markRead (h : SameView a b) (hticks : a.ticks = b.ticks) {id : String}
    (hreached : a.Reached id) :
    (answer [.markRead id] a).2 = (answer [.markRead id] b).2 ∧
      SameView (answer [.markRead id] a).1 (answer [.markRead id] b).1 ∧
      (answer [.markRead id] a).1.ticks = (answer [.markRead id] b).1.ticks ∧
      (answer [.markRead id] a).1.edges = a.edges := by
  obtain ⟨e, he, htable, rfl⟩ := hreached
  have hnode := h.nodes e he htable
  simp only [answer, List.foldl_nil, execute, effect, modify, ← hnode, ← hticks]
  cases hget : a.nodes.get? e.target with
  | none => exact ⟨rfl, ⟨h.edges, h.nodes⟩, trivial, rfl⟩
  | some fields =>
    refine ⟨rfl, ⟨h.edges, fun e' he' htable' => ?_⟩, trivial, rfl⟩
    change (a.nodes.insert _ _).get? _ = (b.nodes.insert _ _).get? _
    rw [FiniteMap.get?_insert, FiniteMap.get?_insert, h.nodes e' he' htable']

end Graph

variable [Surreal] {a b : Graph}

open ReframeMemory.Graph

theorem run_markRecordsRead (records : List Record) :
    ∀ {a b : Graph}, SameView a b → a.ticks = b.ticks →
      (∀ r ∈ records, ∃ node : MemoryNode, r = .node node ∧ a.Reached node.id) →
      ((markRecordsRead records).run Graph.answer a).2 =
        ((markRecordsRead records).run Graph.answer b).2 := by
  induction records with
  | nil => exact fun _ _ _ => rfl
  | cons r rest ih =>
    intro a b h hticks hreached
    obtain ⟨node, rfl, hnode⟩ := hreached r List.mem_cons_self
    unfold markRecordsRead
    cases hid : memoryNodeRecordId node.id with
    | error e => rfl
    | ok id =>
      obtain rfl := memoryNodeRecordId_ok hid
      obtain ⟨hresult, hview, hticks', hedges⟩ := h.markRead hticks hnode
      have hrest := ih hview hticks' fun r hr => by
        obtain ⟨node', rfl, hreached'⟩ := hreached r (List.mem_cons_of_mem _ hr)
        refine ⟨node', rfl, ?_⟩
        unfold Reached at hreached' ⊢
        rwa [hedges]
      rw [Program.ofExcept_ok, Program.done_bind, Program.ask_bind, Program.run_query,
        Program.run_query, ← hresult]
      exact Program.run_bind_snd Graph.answer hrest fun _ _ _ => rfl

/-- What follows a selection of reached nodes returns the same. -/
theorem run_selected {α : Type} {records : List Record} (h : SameView a b)
    (hticks : a.ticks = b.ticks)
    (hreached : ∀ r ∈ records, ∃ node : MemoryNode, r = .node node ∧ a.Reached node.id)
    (markRead : Bool) (f : List Record → Except PyError α) :
    ((touchedRecords markRead records >>=
        fun records => (ofExcept (f records) : MemoryProgram α)).run Graph.answer a).2 =
      ((touchedRecords markRead records >>=
        fun records => (ofExcept (f records) : MemoryProgram α)).run Graph.answer b).2 := by
  have hmarked : ((touchedRecords markRead records).run Graph.answer a).2 =
      ((touchedRecords markRead records).run Graph.answer b).2 := by
    cases markRead with
    | false => rfl
    | true => exact run_markRecordsRead records h hticks hreached
  exact Program.run_bind_snd Graph.answer hmarked fun records t t' => by
    rw [Program.run_ofExcept_snd, Program.run_ofExcept_snd]

theorem run_readSelected {α : Type} (h : SameView a b) (hticks : a.ticks = b.ticks)
    {table : Relation} (htable : table ≠ .providesTask) (source : String)
    (keep : MemoryNode → Bool) (parse : Content → Except PyError α) (markRead : Bool) :
    ((readSelected (.select source table keep) parse markRead).run Graph.answer a).2 =
      ((readSelected (.select source table keep) parse markRead).run Graph.answer b).2 := by
  unfold readSelected
  rw [Program.ask_bind, Program.run_query, Program.run_query]
  simp only [Graph.answer, List.foldl_nil, execute, effect, ← h.related htable source]
  refine run_selected (a := { a with ticks := a.ticks + 1 }) (b := { b with ticks := b.ticks + 1 })
    ⟨h.edges, h.nodes⟩ (congrArg (· + 1) hticks) (fun r hr => ?_) markRead (parseRecords parse)
  obtain ⟨node, hnode, rfl⟩ := List.mem_map.mp hr
  refine ⟨node, rfl, ?_⟩
  rw [(Surreal.byRecency_perm _ _).mem_iff] at hnode
  exact reached_of_related htable (List.mem_filter.mp hnode).1

theorem run_readOne {α : Type} (h : SameView a b) (hticks : a.ticks = b.ticks)
    {table : Relation} (htable : table ≠ .providesTask) (source : String)
    (keep : MemoryNode → Bool) (parse : Content → Except PyError α) (markRead : Bool) :
    ((readOne (.selectOne source table keep) parse markRead).run Graph.answer a).2 =
      ((readOne (.selectOne source table keep) parse markRead).run Graph.answer b).2 := by
  have hleft : Graph.answer [.selectOne source table keep] a = ({ a with ticks := a.ticks + 1 },
      (((a.related source table).filter keep).take 1).map Record.node) := rfl
  have hright : Graph.answer [.selectOne source table keep] b = ({ b with ticks := b.ticks + 1 },
      (((a.related source table).filter keep).take 1).map Record.node) := by
    rw [h.related htable source]
    rfl
  unfold readOne
  rw [Program.ask_bind, Program.run_query, Program.run_query, hleft, hright]
  by_cases hnil : (((a.related source table).filter keep).take 1).map Record.node = []
  · rw [if_pos hnil]
    rfl
  · have hone : ∀ records : List Record, (do
        let node ← (ofExcept (firstRecord records) : MemoryProgram MemoryNode)
        ofExcept ((memoryNodeFromRecord node parse).map some)) =
          ofExcept ((firstRecord records).bind fun node =>
            (memoryNodeFromRecord node parse).map some) := by
      intro records
      cases firstRecord records <;> rfl
    rw [if_neg hnil]
    simp only [hone]
    refine run_selected (a := { a with ticks := a.ticks + 1 })
      (b := { b with ticks := b.ticks + 1 }) ⟨h.edges, h.nodes⟩ (congrArg (· + 1) hticks)
      (fun r hr => ?_) markRead _
    obtain ⟨node, hnode, rfl⟩ := List.mem_map.mp hr
    exact ⟨node, rfl, reached_of_related htable (List.mem_filter.mp (List.mem_of_mem_take hnode)).1⟩

/-- Every reader returns the same on both graphs, when it reads them at the same time. -/
structure SameReads (a b : Graph) : Prop where
  conversations : ∀ keep markRead ticks,
    ((ConversationMemory.search keep markRead).run Graph.answer (a.at' ticks)).2 =
      ((ConversationMemory.search keep markRead).run Graph.answer (b.at' ticks)).2
  sessionMemories : ∀ keep markRead ticks,
    ((SessionMemoryStore.search keep markRead).run Graph.answer (a.at' ticks)).2 =
      ((SessionMemoryStore.search keep markRead).run Graph.answer (b.at' ticks)).2
  tasks : ∀ keep markRead ticks,
    ((TaskMemory.search keep markRead).run Graph.answer (a.at' ticks)).2 =
      ((TaskMemory.search keep markRead).run Graph.answer (b.at' ticks)).2
  task : ∀ taskId markRead ticks,
    ((TaskMemory.get taskId markRead).run Graph.answer (a.at' ticks)).2 =
      ((TaskMemory.get taskId markRead).run Graph.answer (b.at' ticks)).2
  conversationsFor : ∀ sessionId markRead ticks,
    ((SessionStore.conversationsFor sessionId markRead).run Graph.answer (a.at' ticks)).2 =
      ((SessionStore.conversationsFor sessionId markRead).run Graph.answer (b.at' ticks)).2
  memoriesFor : ∀ sessionId markRead ticks,
    ((SessionStore.memoriesFor sessionId markRead).run Graph.answer (a.at' ticks)).2 =
      ((SessionStore.memoriesFor sessionId markRead).run Graph.answer (b.at' ticks)).2

theorem Graph.SameView.sameReads (h : SameView a b) : SameReads a b := by
  have hat : ∀ ticks, SameView (a.at' ticks) (b.at' ticks) := fun _ => ⟨h.edges, h.nodes⟩
  refine ⟨fun keep markRead ticks => ?_, fun keep markRead ticks => ?_,
    fun keep markRead ticks => ?_, fun taskId markRead ticks => ?_,
    fun sessionId markRead ticks => ?_, fun sessionId markRead ticks => ?_⟩
  · exact run_readSelected (hat ticks) rfl (by decide) _ keep _ markRead
  · exact run_readSelected (hat ticks) rfl (by decide) _ keep _ markRead
  · exact run_readSelected (hat ticks) rfl (by decide) _ keep _ markRead
  · unfold TaskMemory.get
    cases memoryNodeRecordId taskId with
    | error e => rfl
    | ok id => exact run_readOne (hat ticks) rfl (by decide) _ _ _ markRead
  · unfold SessionStore.conversationsFor
    cases memoryNodeRecordId sessionId with
    | error e => rfl
    | ok id => exact run_readSelected (hat ticks) rfl (by decide) _ _ _ markRead
  · unfold SessionStore.memoriesFor
    cases memoryNodeRecordId sessionId with
    | error e => rfl
    | ok id => exact run_readSelected (hat ticks) rfl (by decide) _ _ _ markRead

end ReframeMemory
