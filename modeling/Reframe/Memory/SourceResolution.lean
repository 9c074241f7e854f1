import Reframe.Lib.DepthFirst
import Reframe.Lib.FiniteMap
import Reframe.Lib.PyText

/-! The filesystem memories a workspace is made of. A memory is listed after the memories it is based
on; the walk knows them by the texts of their ids. -/
namespace FilesystemMemories
open DepthFirst Relation Run
open PyText (fromKeys mem_fromKeys fromKeys_of_nodup)

inductive FilesystemMemory where
  | directory (sourcePath : String) (baseMemoryIds : List String)
  | checkpoint (backingStore manifestId : String) (baseMemoryIds : List String)
  deriving DecidableEq

def FilesystemMemory.baseMemoryIds : FilesystemMemory → List String
  | .directory _ baseMemoryIds => baseMemoryIds
  | .checkpoint _ _ baseMemoryIds => baseMemoryIds

structure FilesystemMemoryNode where
  id : String
  content : FilesystemMemory
  deriving DecidableEq

inductive MemorySource where
  | directory (memoryId sourcePath : String)
  | checkpoint (memoryId backingStore manifestId : String)
  deriving DecidableEq

def MemorySource.memoryId : MemorySource → String
  | .directory memoryId _ => memoryId
  | .checkpoint memoryId _ _ => memoryId

inductive ResolveError where
  | expectedRecordId (recordId : String)
  | queryFailed (recordId : String)
  | cycle (memoryId : String)
  | missing (memoryId : String)
  | sourceUnavailable (source memoryId : String)
  | backingStoreUnavailable (backingStore memoryId : String)
  deriving DecidableEq

def ResolveError.message : ResolveError → String
  | .expectedRecordId recordId => "expected memory_node record id, got " ++ recordId
  | .queryFailed recordId => "query failed: " ++ recordId
  | .cycle memoryId => "filesystem memory dependency cycle: " ++ memoryId
  | .missing memoryId => "filesystem memory does not exist: " ++ memoryId
  | .sourceUnavailable source memoryId =>
    "filesystem memory source is unavailable: " ++ source ++ " (" ++ memoryId ++ ")"
  | .backingStoreUnavailable backingStore memoryId =>
    "filesystem memory backing store is unavailable: " ++ backingStore ++ " (" ++ memoryId ++ ")"

/-- The stored memories, how the query language reads an id, and the directories on disk. -/
structure Database where
  memories : FiniteMap String FilesystemMemory
  recordId : String → Option String
  resolvePath : String → String
  isDir : String → Bool

/-- `memory_node:[A-Za-z0-9_-]+` -/
def isMemoryNodeId (text : String) : Bool :=
  let key := text.toList.drop "memory_node:".length
  "memory_node:".toList.isPrefixOf text.toList && key ≠ [] &&
    key.all fun c => c.isAlphanum || c = '_' || c = '-'

namespace Database

variable (db : Database)

/-- `FilesystemMemoryStore.get` -/
def get (memoryId : String) : Except ResolveError (Option FilesystemMemoryNode) :=
  if !isMemoryNodeId memoryId then .error (.expectedRecordId memoryId)
  else match db.recordId memoryId with
    | none => .error (.queryFailed memoryId)
    | some id => .ok ((db.memories.get? id).map (⟨id, ·⟩))

def memorySource (memoryId : String) (node : FilesystemMemoryNode) :
    Except ResolveError MemorySource :=
  match node.content with
  | .directory sourcePath _ =>
    let source := db.resolvePath sourcePath
    if !db.isDir source then .error (.sourceUnavailable source memoryId)
    else .ok (.directory node.id source)
  | .checkpoint backingStore manifestId _ =>
    let backingStore := db.resolvePath backingStore
    if !db.isDir backingStore then .error (.backingStoreUnavailable backingStore memoryId)
    else .ok (.checkpoint node.id backingStore manifestId)

end Database

structure ResolveState where
  sources : List MemorySource
  resolving : List String
  resolved : List String
  deriving DecidableEq

def liftError {α : Type} : Except ResolveError α → Except (Stop ResolveError) α :=
  Except.mapError .error

def resolve (db : Database) : ℕ → ResolveState → String → Except (Stop ResolveError) ResolveState
  | 0, _, _ => .error .exhausted
  | fuel + 1, s, memoryId =>
    if memoryId ∈ s.resolved then .ok s
    else if memoryId ∈ s.resolving then .error (.error (.cycle memoryId))
    else do
      let s := { s with resolving := memoryId :: s.resolving }
      match ← liftError (db.get memoryId) with
      | none => .error (.error (.missing memoryId))
      | some node =>
        let s ← node.content.baseMemoryIds.foldlM (resolve db fuel) s
        let source ← liftError (db.memorySource memoryId node)
        .ok {
          sources := s.sources ++ [source]
          resolving := s.resolving.erase memoryId
          resolved := s.resolved ++ [memoryId] }

def resolveMemorySources (db : Database) (fuel : ℕ) (memoryIds : List String) :
    Except (Stop ResolveError) (List MemorySource) :=
  ((fromKeys memoryIds).foldlM (resolve db fuel) ⟨[], [], []⟩).map (·.sources)

/-- What `publish_checkpoint` stores for a session with these sources. -/
def Database.publishCheckpoint (db : Database) (memoryId backingStore manifestId : String)
    (memoryIds : List String) : Database :=
  let memory : FilesystemMemory := .checkpoint backingStore manifestId memoryIds
  { db with memories := db.memories.insert memoryId memory }

/-! The graph of the memories. -/

namespace Database

variable (db : Database)

/-- The memory that `get` returns for a text. -/
def named (text : String) : Option FilesystemMemoryNode :=
  match db.get text with
  | .ok node => node
  | .error _ => none

def nameOf (text : String) : String := ((db.named text).map (·.id)).getD text

def bases (text : String) : List String :=
  ((db.named text).map (·.content.baseMemoryIds)).getD []

def sourceOf (text : String) : MemorySource :=
  match db.named text with
  | some node => (db.memorySource text node).toOption.getD (.directory node.id "")
  | none => .directory text ""

/-- One memory is based on another. -/
def Base (memoryId baseId : String) : Prop :=
  ∃ memory, db.memories.get? memoryId = some memory ∧
    ∃ text ∈ memory.baseMemoryIds, ∃ node, db.named text = some node ∧ node.id = baseId

def Reachable (memoryIds : List String) (memoryId : String) : Prop :=
  ∃ text ∈ memoryIds, ∃ node, db.named text = some node ∧
    ReflTransGen db.Base node.id memoryId

/-- The texts that are requested, or stand in a reachable memory. -/
def Mentioned (memoryIds : List String) (text : String) : Prop :=
  text ∈ memoryIds ∨ ∃ memoryId memory, db.Reachable memoryIds memoryId ∧
    db.memories.get? memoryId = some memory ∧ text ∈ memory.baseMemoryIds

def CycleReachable (memoryIds : List String) : Prop :=
  ∃ memoryId, db.Reachable memoryIds memoryId ∧ TransGen db.Base memoryId memoryId

/-- The id of a stored memory is a text that names it, and every text that is mentioned names a
memory whose directory is there. -/
structure Available (memoryIds : List String) : Prop where
  canonical : ∀ memoryId memory, db.memories.get? memoryId = some memory →
    isMemoryNodeId memoryId = true ∧ db.recordId memoryId = some memoryId
  mentioned : ∀ text, db.Mentioned memoryIds text →
    ∃ node source, db.get text = .ok (some node) ∧ db.memorySource text node = .ok source

/-- Every memory is mentioned under one text, and as a base under its id. -/
structure Spelled (memoryIds : List String) : Prop where
  once : ∀ text text', db.Mentioned memoryIds text → db.Mentioned memoryIds text' →
    db.nameOf text = db.nameOf text' → text = text'
  bases : ∀ memoryId memory, db.Reachable memoryIds memoryId →
    db.memories.get? memoryId = some memory → ∀ text ∈ memory.baseMemoryIds, db.nameOf text = text

/-- Enough fuel gives the result. -/
def Resolves (memoryIds : List String) (result : Except (Stop ResolveError) (List MemorySource)) :
    Prop :=
  ∃ least, ∀ fuel, least ≤ fuel → resolveMemorySources db fuel memoryIds = result

/-- Every reachable memory once, after its bases. -/
structure SourceList (memoryIds : List String) (sources : List MemorySource) : Prop where
  nodup : (sources.map (·.memoryId)).Nodup
  reachable : ∀ memoryId, memoryId ∈ sources.map (·.memoryId) ↔ db.Reachable memoryIds memoryId
  ordered : ∀ before source after, sources = before ++ source :: after →
    ∀ baseId, db.Base source.memoryId baseId → baseId ∈ before.map (·.memoryId)

/-- A checkpoint that is about to be published. -/
structure NewCheckpoint (memoryId backingStore : String) : Prop where
  new : db.memories.get? memoryId = none
  canonical : isMemoryNodeId memoryId = true ∧ db.recordId memoryId = some memoryId
  isDir : db.isDir (db.resolvePath backingStore) = true

/-- What resolving a list of ids should come to. -/
structure ResolvesRight (memoryIds : List String) : Prop where
  cycle : (∃ text, db.Resolves memoryIds (.error (.error (.cycle text)))) ↔
    db.CycleReachable memoryIds
  sources : ¬ db.CycleReachable memoryIds → ∃ sources, db.Resolves memoryIds (.ok sources) ∧
    db.SourceList memoryIds sources ∧
    db.Resolves (sources.map (·.memoryId)) (.ok sources) ∧
    ∀ memoryId backingStore manifestId, db.NewCheckpoint memoryId backingStore →
      (db.publishCheckpoint memoryId backingStore manifestId (sources.map (·.memoryId))).Resolves
        [memoryId]
        (.ok (sources ++ [.checkpoint memoryId (db.resolvePath backingStore) manifestId]))

variable {db} {memoryIds : List String} {text : String} {node : FilesystemMemoryNode}

theorem named_of_get (h : db.get text = .ok (some node)) : db.named text = some node := by
  rw [named, h]

theorem get_of_named (h : db.named text = some node) : db.get text = .ok (some node) := by
  rw [named] at h
  split at h
  · rw [‹db.get text = _›, h]
  · cases h

theorem nameOf_of_named (h : db.named text = some node) : db.nameOf text = node.id := by
  rw [nameOf, h]
  rfl

theorem bases_of_named (h : db.named text = some node) :
    db.bases text = node.content.baseMemoryIds := by
  rw [bases, h]
  rfl

/-- What a text names is stored under its id. -/
theorem stored_of_named (h : db.named text = some node) :
    db.memories.get? node.id = some node.content := by
  have hget := get_of_named h
  rw [get] at hget
  split_ifs at hget
  split at hget
  · cases hget
  · obtain ⟨memory, hmemory, rfl⟩ := Option.map_eq_some_iff.mp (Except.ok.inj hget)
    exact hmemory

theorem named_of_stored {memoryId : String} {memory : FilesystemMemory}
    (hcanonical : isMemoryNodeId memoryId = true ∧ db.recordId memoryId = some memoryId)
    (h : db.memories.get? memoryId = some memory) : db.named memoryId = some ⟨memoryId, memory⟩ := by
  refine named_of_get ?_
  rw [get, hcanonical.1, hcanonical.2]
  dsimp only
  rw [h]
  rfl

theorem sourceOf_of_named (h : db.named text = some node) {source : MemorySource}
    (hsource : db.memorySource text node = .ok source) : db.sourceOf text = source := by
  rw [sourceOf, h]
  dsimp only
  rw [hsource]
  rfl

theorem memoryId_memorySource {source : MemorySource}
    (h : db.memorySource text node = .ok source) : source.memoryId = node.id := by
  rw [memorySource] at h
  split at h
  · dsimp only at h
    split_ifs at h
    cases h
    rfl
  · dsimp only at h
    split_ifs at h
    cases h
    rfl

theorem memorySource_congr (text' : String) {source : MemorySource}
    (h : db.memorySource text node = .ok source) : db.memorySource text' node = .ok source := by
  rw [memorySource] at h ⊢
  split at h
  all_goals
    dsimp only at h ⊢
    split_ifs at h ⊢ with hdir
    exact h

/-! The walk of the texts. -/

/-- Texts that name memories whose directories are there, closed under bases. -/
structure Closed (db : Database) (R : String → Prop) : Prop where
  source : ∀ text, R text → ∃ node, db.named text = some node ∧
    db.memorySource text node = .ok (db.sourceOf text) ∧ (db.sourceOf text).memoryId = node.id
  bases : ∀ text, R text → ∀ base ∈ db.bases text, R base

/-- The state of the walk when these texts are on its stack and these are resolved. -/
def listed (db : Database) (stack done : List String) : ResolveState :=
  ⟨done.map db.sourceOf, stack, done⟩

theorem foldlM_resolve {R : String → Prop} {fuel : ℕ} {stack : List String}
    (hstep : ∀ done text, R text → resolve db fuel (listed db stack done) text =
      (visit db.bases .cycle fuel stack done text).map (listed db stack)) :
    ∀ (texts : List String), (∀ text ∈ texts, R text) → ∀ done,
      texts.foldlM (resolve db fuel) (listed db stack done) =
        (texts.foldlM (visit db.bases .cycle fuel stack) done).map (listed db stack) := by
  intro texts
  induction texts with
  | nil => exact fun _ _ => rfl
  | cons text texts ih =>
    intro htexts done
    rw [List.forall_mem_cons] at htexts
    rw [List.foldlM_cons, List.foldlM_cons, hstep done text htexts.1]
    cases visit db.bases ResolveError.cycle fuel stack done text with
    | error why => rfl
    | ok done' => exact ih htexts.2 done'

/-- Resolving is the depth-first walk along the bases. -/
theorem resolve_eq {R : String → Prop} (hR : Closed db R) (fuel : ℕ) :
    ∀ (stack done : List String) (text : String), R text →
      resolve db fuel (listed db stack done) text =
        (visit db.bases .cycle fuel stack done text).map (listed db stack) := by
  induction fuel with
  | zero => exact fun _ _ _ _ => rfl
  | succ fuel ih =>
    intro stack done text htext
    rw [resolve, visit]
    change (if text ∈ done then _ else if text ∈ stack then _ else _) = _
    split_ifs with hdone hcycle
    · rfl
    · rfl
    · obtain ⟨node, hnamed, hsource, -⟩ := hR.source text htext
      have hbases := hR.bases text htext
      rw [bases_of_named hnamed] at hbases ⊢
      have hfold := foldlM_resolve (ih (text :: stack)) node.content.baseMemoryIds hbases done
      rw [get_of_named hnamed]
      change (node.content.baseMemoryIds.foldlM (resolve db fuel) (listed db (text :: stack) done) >>=
        _) = _
      rw [hfold]
      cases node.content.baseMemoryIds.foldlM
          (visit db.bases ResolveError.cycle fuel (text :: stack)) done with
      | error why => rfl
      | ok middle =>
        change (liftError (db.memorySource text node) >>= _) = _
        rw [hsource]
        change Except.ok _ = Except.ok _
        dsimp only [listed]
        rw [List.map_append, List.erase_cons_head]
        rfl

theorem resolveMemorySources_eq {R : String → Prop} (hR : Closed db R) {memoryIds : List String}
    (hroots : ∀ text ∈ memoryIds, R text) (fuel : ℕ) :
    resolveMemorySources db fuel memoryIds =
      (visitAll db.bases .cycle fuel (fromKeys memoryIds)).map (List.map db.sourceOf) := by
  have hfold := foldlM_resolve (resolve_eq hR fuel []) (fromKeys memoryIds)
    (fun text htext => hroots text (mem_fromKeys.mp htext)) []
  rw [resolveMemorySources, visitAll]
  change Except.map _ ((fromKeys memoryIds).foldlM (resolve db fuel) (listed db [] [])) = _
  rw [hfold]
  cases (fromKeys memoryIds).foldlM (visit db.bases ResolveError.cycle fuel []) [] <;> rfl

theorem reached_fromKeys {memoryIds : List String} {text : String} :
    Reached db.bases (fromKeys memoryIds) text ↔ Reached db.bases memoryIds text := by
  simp only [Reached, mem_fromKeys]

/-! The walk of the texts and the graph of the memories. -/

/-- A base of a text is a base of the memory it names. -/
theorem base_of_edge (h : db.named text = some node) {base : String}
    (hedge : Edge db.bases text base) {baseNode : FilesystemMemoryNode}
    (hbase : db.named base = some baseNode) : db.Base node.id baseNode.id := by
  rw [Edge, bases_of_named h] at hedge
  exact ⟨node.content, stored_of_named h, base, hedge, baseNode, hbase, rfl⟩

/-- A path of memories is a path of texts, from every text that names its start. -/
theorem path_of_base {memoryId baseId : String} (h : TransGen db.Base memoryId baseId) :
    ∃ base baseNode, db.named base = some baseNode ∧ baseNode.id = baseId ∧
      ∀ {text node}, db.named text = some node → node.id = memoryId →
        TransGen (Edge db.bases) text base := by
  have hedge : ∀ {memoryId baseId}, db.Base memoryId baseId → ∃ base baseNode,
      db.named base = some baseNode ∧ baseNode.id = baseId ∧
        ∀ {text node}, db.named text = some node → node.id = memoryId →
          Edge db.bases text base := by
    rintro memoryId baseId ⟨memory, hmemory, base, hmem, baseNode, hbase, hid⟩
    refine ⟨base, baseNode, hbase, hid, fun hnamed heq => ?_⟩
    have hstored := stored_of_named hnamed
    rw [heq, hmemory, Option.some.injEq] at hstored
    rw [Edge, bases_of_named hnamed, ← hstored]
    exact hmem
  induction h with
  | single h =>
    obtain ⟨base, baseNode, hbase, hid, hall⟩ := hedge h
    exact ⟨base, baseNode, hbase, hid, fun hnamed heq => .single (hall hnamed heq)⟩
  | tail _ h ih =>
    obtain ⟨middle, middleNode, hmiddle, hmiddleId, hpath⟩ := ih
    obtain ⟨base, baseNode, hbase, hid, hall⟩ := hedge h
    exact ⟨base, baseNode, hbase, hid, fun hnamed heq =>
      (hpath hnamed heq).tail (hall hmiddle hmiddleId)⟩

theorem reachable_self {text : String} (htext : text ∈ memoryIds)
    (h : db.named text = some node) : db.Reachable memoryIds node.id :=
  ⟨text, htext, node, h, .refl⟩

theorem Reachable.base {memoryId baseId : String} (h : db.Reachable memoryIds memoryId)
    (hbase : db.Base memoryId baseId) : db.Reachable memoryIds baseId := by
  obtain ⟨text, htext, node, hnamed, hpath⟩ := h
  exact ⟨text, htext, node, hnamed, hpath.tail hbase⟩

/-- What a mentioned text names is reachable. -/
theorem Mentioned.reachable (hmentioned : db.Mentioned memoryIds text)
    (hnamed : db.named text = some node) : db.Reachable memoryIds node.id := by
  rcases hmentioned with htext | ⟨memoryId, memory, hreach, hmemory, hbase⟩
  · exact reachable_self htext hnamed
  · exact hreach.base ⟨memory, hmemory, text, hbase, node, hnamed, rfl⟩

theorem Reachable.reached {memoryId : String} (hreach : db.Reachable memoryIds memoryId) :
    ∃ text node, Reached db.bases memoryIds text ∧ db.named text = some node ∧
      node.id = memoryId := by
  obtain ⟨root, hroot, node, hnamed, hpath⟩ := hreach
  rcases reflTransGen_iff_eq_or_transGen.mp hpath with rfl | hpath
  · exact ⟨root, node, ⟨root, hroot, .refl⟩, hnamed, rfl⟩
  · obtain ⟨base, baseNode, hbase, hid, hall⟩ := path_of_base hpath
    exact ⟨base, baseNode, ⟨root, hroot, (hall hnamed rfl).to_reflTransGen⟩, hbase, hid⟩

theorem Mentioned.reached (hmentioned : db.Mentioned memoryIds text) :
    Reached db.bases memoryIds text := by
  rcases hmentioned with htext | ⟨memoryId, memory, hreach, hmemory, hbase⟩
  · exact ⟨text, htext, .refl⟩
  · obtain ⟨above, node, ⟨root, hroot, hpath⟩, hnamed, rfl⟩ := hreach.reached
    have hstored := stored_of_named hnamed
    rw [hmemory, Option.some.injEq] at hstored
    refine ⟨root, hroot, hpath.tail ?_⟩
    rw [Edge, bases_of_named hnamed, ← hstored]
    exact hbase

namespace Available

variable (h : db.Available memoryIds)

include h

theorem named (hmentioned : db.Mentioned memoryIds text) : ∃ node, db.named text = some node ∧
    db.memorySource text node = .ok (db.sourceOf text) ∧ (db.sourceOf text).memoryId = node.id := by
  obtain ⟨node, source, hget, hsource⟩ := h.mentioned text hmentioned
  have hnamed := named_of_get hget
  rw [sourceOf_of_named hnamed hsource]
  exact ⟨node, hnamed, hsource, memoryId_memorySource hsource⟩

theorem mentioned_base (hmentioned : db.Mentioned memoryIds text) {base : String}
    (hbase : base ∈ db.bases text) : db.Mentioned memoryIds base := by
  obtain ⟨node, hnamed, -⟩ := h.named hmentioned
  rw [bases_of_named hnamed] at hbase
  exact .inr ⟨node.id, node.content, hmentioned.reachable hnamed,
    stored_of_named hnamed, hbase⟩

theorem closed : Closed db (db.Mentioned memoryIds) :=
  ⟨fun _ hmentioned => h.named hmentioned, fun _ hmentioned _ hbase => h.mentioned_base hmentioned hbase⟩

theorem mentioned_of_reached (hreached : Reached db.bases memoryIds text) :
    db.Mentioned memoryIds text := by
  obtain ⟨root, hroot, hpath⟩ := hreached
  induction hpath with
  | refl => exact .inl hroot
  | tail _ hedge ih => exact h.mentioned_base ih hedge

/-- A cycle of memories is a cycle of texts. -/
theorem cycle_iff : db.CycleReachable memoryIds ↔
    ∃ text, Reached db.bases memoryIds text ∧ TransGen (Edge db.bases) text text := by
  constructor
  · rintro ⟨memoryId, hreach, hcycle⟩
    obtain ⟨text, node, ⟨root, hroot, hpath⟩, hnamed, hid⟩ := hreach.reached
    obtain ⟨base, baseNode, hbase, hbaseId, hall⟩ := path_of_base hcycle
    exact ⟨base, ⟨root, hroot, hpath.trans (hall hnamed hid).to_reflTransGen⟩, hall hbase hbaseId⟩
  · rintro ⟨text, hreached, hcycle⟩
    have hmentioned := h.mentioned_of_reached hreached
    have hpath : ∀ {base}, TransGen (Edge db.bases) text base → db.Mentioned memoryIds base ∧
        ∀ {node baseNode}, db.named text = some node → db.named base = some baseNode →
          TransGen db.Base node.id baseNode.id := by
      intro base hpath
      induction hpath with
      | single hedge =>
        exact ⟨h.mentioned_base hmentioned hedge, fun hnamed hbase =>
          .single (base_of_edge hnamed hedge hbase)⟩
      | tail _ hedge ih =>
        obtain ⟨middleNode, hmiddle, -⟩ := h.named ih.1
        exact ⟨h.mentioned_base ih.1 hedge, fun hnamed hbase =>
          (ih.2 hnamed hmiddle).tail (base_of_edge hmiddle hedge hbase)⟩
    obtain ⟨node, hnamed, -⟩ := h.named hmentioned
    exact ⟨node.id, hmentioned.reachable hnamed, (hpath hcycle).2 hnamed hnamed⟩

/-- The id of a memory names it as every other text does. -/
theorem canon (hmentioned : db.Mentioned memoryIds text) (hnamed : db.named text = some node) :
    db.named node.id = some node ∧ db.bases node.id = db.bases text ∧
      db.sourceOf node.id = db.sourceOf text ∧
      db.memorySource node.id node = .ok (db.sourceOf text) := by
  have hstored := stored_of_named hnamed
  have hid : db.named node.id = some node :=
    named_of_stored (h.canonical node.id node.content hstored) hstored
  obtain ⟨node', hnamed', hsource, -⟩ := h.named hmentioned
  obtain rfl : node = node' := Option.some.inj (hnamed.symm.trans hnamed')
  have hsource' := memorySource_congr node.id hsource
  exact ⟨hid, by rw [bases_of_named hid, bases_of_named hnamed], sourceOf_of_named hid hsource',
    hsource'⟩

end Available

/-- The texts in the order in which they are resolved. -/
structure Listing (db : Database) (memoryIds done : List String) : Prop where
  ordered : Ordered db.bases done
  nodup : done.Nodup
  mem : ∀ text, text ∈ done ↔ db.Mentioned memoryIds text

/-- All texts the walk can meet. -/
def texts (db : Database) (memoryIds : List String) : Finset String :=
  (memoryIds ++ db.memories.toList.flatMap fun e => e.2.baseMemoryIds).toFinset

theorem texts_closed (memoryIds : List String) : ∀ text ∈ db.texts memoryIds,
    ∀ base ∈ db.bases text, base ∈ db.texts memoryIds := by
  intro text _ base hbase
  cases hnamed : db.named text with
  | none =>
    rw [bases, hnamed] at hbase
    cases hbase
  | some node =>
    rw [bases_of_named hnamed] at hbase
    rw [texts, List.mem_toFinset, List.mem_append, List.mem_flatMap]
    exact .inr ⟨_, FiniteMap.mem_toList.mpr (stored_of_named hnamed), hbase⟩

theorem Resolves.unique {r r' : Except (Stop ResolveError) (List MemorySource)}
    (h : db.Resolves memoryIds r) (h' : db.Resolves memoryIds r') : r = r' := by
  obtain ⟨n, hn⟩ := h
  obtain ⟨m, hm⟩ := h'
  rw [← hn (max n m) (le_max_left _ _), hm (max n m) (le_max_right _ _)]

theorem resolves_of_visitAll {R : String → Prop} (hR : Closed db R)
    (hroots : ∀ text ∈ memoryIds, R text) {fuel : ℕ}
    {r : Except (Stop ResolveError) (List String)}
    (hvisit : visitAll db.bases .cycle fuel (fromKeys memoryIds) = r) (hr : r ≠ .error .exhausted) :
    db.Resolves memoryIds (r.map (List.map db.sourceOf)) := by
  refine ⟨fuel, fun fuel' hle => ?_⟩
  rw [resolveMemorySources_eq hR hroots, visitAll_of_le hle (hvisit ▸ hr), hvisit]

theorem resolves_of_visitAll_ok {R : String → Prop} (hR : Closed db R)
    (hroots : ∀ text ∈ memoryIds, R text) {fuel : ℕ} {done : List String}
    (hvisit : visitAll db.bases ResolveError.cycle fuel (fromKeys memoryIds) = .ok done) :
    db.Resolves memoryIds (.ok (done.map db.sourceOf)) :=
  resolves_of_visitAll (r := .ok done) hR hroots hvisit fun h => nomatch h

/-- A walk that resolves the texts, at some fuel. -/
theorem Resolves.visitAll {R : String → Prop} (hR : Closed db R)
    (hroots : ∀ text ∈ memoryIds, R text) {sources : List MemorySource}
    (h : db.Resolves memoryIds (.ok sources)) : ∃ fuel done,
      DepthFirst.visitAll db.bases ResolveError.cycle fuel (fromKeys memoryIds) = .ok done ∧
        done.map db.sourceOf = sources := by
  obtain ⟨fuel, hfuel⟩ := h
  have hok := hfuel fuel le_rfl
  rw [resolveMemorySources_eq hR hroots] at hok
  obtain ⟨done, hdone, hsources⟩ := Run.map_eq_ok.mp hok
  exact ⟨fuel, done, hdone, hsources⟩

theorem Available.settled (h : db.Available memoryIds) :
    (db.CycleReachable memoryIds ∧ ∃ text, db.Resolves memoryIds (.error (.error (.cycle text)))) ∨
      (¬ db.CycleReachable memoryIds ∧ ∃ done, Listing db memoryIds done ∧
        db.Resolves memoryIds (.ok (done.map db.sourceOf))) := by
  have hroots : ∀ text ∈ memoryIds, db.Mentioned memoryIds text := fun _ h => .inl h
  have hnodes : ∀ text ∈ fromKeys memoryIds, text ∈ db.texts memoryIds := by
    intro text htext
    rw [texts, List.mem_toFinset]
    exact List.mem_append_left _ (mem_fromKeys.mp htext)
  cases hvisit : visitAll db.bases ResolveError.cycle ((db.texts memoryIds).card + 1)
      (fromKeys memoryIds) with
  | error why =>
    obtain ⟨text, rfl, hreached, hcycle⟩ := visitAll_error (texts_closed memoryIds)
      (Nat.lt_succ_self _) hnodes hvisit
    refine .inl ⟨h.cycle_iff.mpr ⟨text, reached_fromKeys.mp hreached, hcycle⟩, text, ?_⟩
    exact resolves_of_visitAll h.closed hroots hvisit (fun h => nomatch h)
  | ok done =>
    obtain ⟨hordered, hnodup, hmem⟩ := visitAll_ok hvisit
    refine .inr ⟨fun hcycle => ?_, done, ⟨hordered, hnodup, fun text => ?_⟩, ?_⟩
    · obtain ⟨text, hreached, hloop⟩ := h.cycle_iff.mp hcycle
      exact visitAll_acyclic hvisit (reached_fromKeys.mpr hreached) hloop
    · rw [hmem, reached_fromKeys]
      exact ⟨h.mentioned_of_reached, Mentioned.reached⟩
    · exact resolves_of_visitAll_ok h.closed hroots hvisit

namespace Listing

theorem nodup_names {done : List String} (hdone : Listing db memoryIds done)
    (hspelled : db.Spelled memoryIds) : (done.map db.nameOf).Nodup := by
  refine hdone.nodup.map_on fun text htext text' htext' heq => ?_
  exact hspelled.once text text' ((hdone.mem text).mp htext) ((hdone.mem text').mp htext') heq

variable {done : List String} (hdone : Listing db memoryIds done) (h : db.Available memoryIds)

include hdone h

theorem memoryId_sourceOf : ∀ text ∈ done, (db.sourceOf text).memoryId = db.nameOf text := by
  intro text htext
  obtain ⟨node, hnamed, -, hid⟩ := h.named ((hdone.mem text).mp htext)
  rw [hid, nameOf_of_named hnamed]

theorem map_memoryId : (done.map db.sourceOf).map (·.memoryId) = done.map db.nameOf := by
  rw [List.map_map]
  exact List.map_congr_left (hdone.memoryId_sourceOf h)

theorem mem_names {memoryId : String} :
    memoryId ∈ done.map db.nameOf ↔ db.Reachable memoryIds memoryId := by
  rw [List.mem_map]
  constructor
  · rintro ⟨text, htext, rfl⟩
    have hmentioned := (hdone.mem text).mp htext
    obtain ⟨node, hnamed, -⟩ := h.named hmentioned
    rw [nameOf_of_named hnamed]
    exact hmentioned.reachable hnamed
  · intro hreach
    obtain ⟨text, node, hreached, hnamed, hid⟩ := hreach.reached
    exact ⟨text, (hdone.mem text).mpr (h.mentioned_of_reached hreached),
      (nameOf_of_named hnamed).trans hid⟩

/-- Without a second text for a memory the list is the one that is asked for. -/
theorem sourceList (hnodup : (done.map db.nameOf).Nodup) :
    db.SourceList memoryIds (done.map db.sourceOf) := by
  refine ⟨by rwa [hdone.map_memoryId h], fun memoryId => ?_, ?_⟩
  · rw [hdone.map_memoryId h]
    exact hdone.mem_names h
  · rintro before source after heq baseId ⟨memory, hmemory, base, hbase, baseNode, hnamed, rfl⟩
    obtain ⟨first, rest, rfl, rfl, hrest⟩ := List.map_eq_append_iff.mp heq
    obtain ⟨text, last, rfl, rfl, -⟩ := List.map_eq_cons_iff.mp hrest
    obtain ⟨node, htext, -, hid⟩ := h.named ((hdone.mem text).mp (by simp))
    rw [hid, stored_of_named htext, Option.some.injEq] at hmemory
    have hfirst : base ∈ first := hdone.ordered first text last rfl base (by
      rw [bases_of_named htext, hmemory]
      exact hbase)
    rw [← nameOf_of_named hnamed,
      ← hdone.memoryId_sourceOf h base (List.mem_append_left _ hfirst)]
    exact List.mem_map_of_mem (List.mem_map_of_mem hfirst)

/-- The ids of the listed memories name them as well. -/
theorem closed_names :
    Closed db fun text => text ∈ done.map db.nameOf ∨ db.Mentioned memoryIds text := by
  have hid : ∀ memoryId ∈ done.map db.nameOf, ∃ text ∈ done, ∃ node, db.named text = some node ∧
      node.id = memoryId ∧ db.Mentioned memoryIds text := by
    intro memoryId hmem
    obtain ⟨text, htext, rfl⟩ := List.mem_map.mp hmem
    have hmentioned := (hdone.mem text).mp htext
    obtain ⟨node, hnamed, -⟩ := h.named hmentioned
    exact ⟨text, htext, node, hnamed, (nameOf_of_named hnamed).symm, hmentioned⟩
  refine ⟨fun text htext => ?_, fun text htext base hbase => ?_⟩
  · rcases htext with htext | htext
    · obtain ⟨other, -, node, hnamed, rfl, hmentioned⟩ := hid text htext
      obtain ⟨hcanon, -, hsame, hsource⟩ := h.canon hmentioned hnamed
      exact ⟨node, hcanon, hsame ▸ hsource, hsame ▸ memoryId_memorySource hsource⟩
    · exact h.named htext
  · rcases htext with htext | htext
    · obtain ⟨other, -, node, hnamed, rfl, hmentioned⟩ := hid text htext
      rw [(h.canon hmentioned hnamed).2.1] at hbase
      exact .inr (h.mentioned_base hmentioned hbase)
    · exact .inr (h.mentioned_base htext hbase)

theorem sourceOf_nameOf : (done.map db.nameOf).map db.sourceOf = done.map db.sourceOf := by
  rw [List.map_map]
  refine List.map_congr_left fun text htext => ?_
  have hmentioned := (hdone.mem text).mp htext
  obtain ⟨node, hnamed, -⟩ := h.named hmentioned
  rw [Function.comp_apply, nameOf_of_named hnamed, (h.canon hmentioned hnamed).2.2.1]

variable (hspelled : db.Spelled memoryIds)

include hspelled

/-- The ids of the listed memories come after those of their bases. -/
theorem ordered_names : Ordered db.bases (done.map db.nameOf) := by
  intro before memoryId after heq base hbase
  obtain ⟨first, rest, rfl, rfl, hrest⟩ := List.map_eq_append_iff.mp heq
  obtain ⟨text, last, rfl, rfl, -⟩ := List.map_eq_cons_iff.mp hrest
  have hmentioned := (hdone.mem text).mp (by simp)
  obtain ⟨node, hnamed, -⟩ := h.named hmentioned
  rw [nameOf_of_named hnamed, (h.canon hmentioned hnamed).2.1] at hbase
  have hfirst := hdone.ordered first text last rfl base hbase
  rw [bases_of_named hnamed] at hbase
  rw [← hspelled.bases node.id node.content (hmentioned.reachable hnamed) (stored_of_named hnamed) base
    hbase]
  exact List.mem_map_of_mem hfirst

/-- Resolving the ids again gives the same list. -/
theorem resolves_names : db.Resolves (done.map db.nameOf) (.ok (done.map db.sourceOf)) := by
  have hnodup := hdone.nodup_names hspelled
  have hvisit : visitAll db.bases ResolveError.cycle 2 (fromKeys (done.map db.nameOf)) =
      .ok (done.map db.nameOf) := by
    rw [fromKeys_of_nodup hnodup]
    exact visitAll_of_ordered 0 (hdone.ordered_names h hspelled) hnodup
  have hresolves := resolves_of_visitAll_ok (hdone.closed_names h) (fun _ h => .inl h) hvisit
  rwa [hdone.sourceOf_nameOf h] at hresolves

/-- A checkpoint above the listed memories comes after them. -/
theorem resolves_checkpoint {memoryId backingStore : String} (manifestId : String)
    (hnew : db.NewCheckpoint memoryId backingStore) :
    (db.publishCheckpoint memoryId backingStore manifestId (done.map db.nameOf)).Resolves [memoryId]
      (.ok (done.map db.sourceOf ++
        [.checkpoint memoryId (db.resolvePath backingStore) manifestId])) := by
  set ids := done.map db.nameOf with hids
  set db' := db.publishCheckpoint memoryId backingStore manifestId ids with hdb'
  have hclosed := hdone.closed_names h
  -- The other memories are named and found as before.
  have hold : ∀ text ∈ ids, text ≠ memoryId ∧ db'.named text = db.named text := by
    intro text htext
    obtain ⟨other, hother, rfl⟩ := List.mem_map.mp htext
    have hmentioned := (hdone.mem other).mp hother
    obtain ⟨node, hnamed, -⟩ := h.named hmentioned
    have hstored := stored_of_named hnamed
    rw [nameOf_of_named hnamed]
    have hne : node.id ≠ memoryId := by
      intro heq
      rw [heq, hnew.new] at hstored
      cases hstored
    refine ⟨hne, ?_⟩
    rw [(h.canon hmentioned hnamed).1]
    refine named_of_stored (h.canonical node.id node.content hstored) ?_
    rw [hdb', publishCheckpoint, FiniteMap.get?_insert_ne _ hne]
    exact hstored
  have hbases : ∀ text ∈ ids, db.bases text = db'.bases text := fun text htext => by
    rw [bases, bases, (hold text htext).2]
  have hsources : ∀ text ∈ ids, db.sourceOf text = db'.sourceOf text := fun text htext => by
    rw [sourceOf, sourceOf, (hold text htext).2]
    rfl
  have hnamed : db'.named memoryId = some ⟨memoryId, .checkpoint backingStore manifestId ids⟩ :=
    named_of_stored hnew.canonical (FiniteMap.get?_insert_self _ _ _)
  have hroot : db'.memorySource memoryId ⟨memoryId, .checkpoint backingStore manifestId ids⟩ =
      .ok (.checkpoint memoryId (db.resolvePath backingStore) manifestId) := by
    have hdir : (!db'.isDir (db'.resolvePath backingStore)) = false := by
      rw [Bool.not_eq_false']
      exact hnew.isDir
    rw [memorySource]
    dsimp only
    rw [hdir]
    rfl
  have hrootBases : db'.bases memoryId = ids := bases_of_named hnamed
  have hR : Closed db' fun text => text = memoryId ∨ text ∈ ids := by
    refine ⟨fun text htext => ?_, fun text htext base hbase => ?_⟩
    · rcases htext with rfl | htext
      · rw [sourceOf_of_named hnamed hroot]
        exact ⟨_, hnamed, hroot, rfl⟩
      · obtain ⟨node, hnode, hsource, hid⟩ := hclosed.source text (.inl htext)
        rw [← hsources text htext, (hold text htext).2]
        exact ⟨node, hnode, hsource, hid⟩
    · rcases htext with rfl | htext
      · rw [hrootBases] at hbase
        exact .inr hbase
      · rw [← hbases text htext] at hbase
        obtain ⟨before, after, heq⟩ := List.append_of_mem htext
        rw [heq]
        exact .inr (List.mem_append_left _
          (hdone.ordered_names h hspelled before text after (hids ▸ heq) base hbase))
  have hordered : Ordered db'.bases ids := (hdone.ordered_names h hspelled).congr hbases
  have hvisit : visitAll db'.bases ResolveError.cycle 3 (fromKeys [memoryId]) =
      .ok (db'.bases memoryId ++ [memoryId]) := by
    rw [fromKeys_of_nodup (List.nodup_singleton memoryId)]
    apply visitAll_root 0
    · rwa [hrootBases]
    · rw [hrootBases]
      exact hdone.nodup_names hspelled
    · rw [hrootBases]
      exact fun hmem => (hold memoryId hmem).1 rfl
  have hresolves := resolves_of_visitAll_ok hR
    (fun text htext => .inl (List.mem_singleton.mp htext)) hvisit
  rw [hrootBases, List.map_append, ← List.map_congr_left hsources, hids,
    hdone.sourceOf_nameOf h, List.map_singleton, sourceOf_of_named hnamed hroot] at hresolves
  exact hresolves

end Listing

/-- A list of texts is resolved as it should be exactly when a cycle is reachable or every memory is
mentioned under one text, as a base under its id. -/
theorem resolvesRight_iff (db : Database) (memoryIds : List String)
    (h : db.Available memoryIds) :
    db.ResolvesRight memoryIds ↔ db.CycleReachable memoryIds ∨ db.Spelled memoryIds := by
  rcases h.settled with ⟨hcycle, hraises⟩ | ⟨hacyclic, done, hdone, hresolves⟩
  · exact iff_of_true ⟨iff_of_true hraises hcycle, fun hacyclic => (hacyclic hcycle).elim⟩
      (.inl hcycle)
  rw [or_iff_right hacyclic]
  constructor
  · intro hright
    obtain ⟨sources, hsources, hlist, hagain, -⟩ := hright.sources hacyclic
    obtain rfl : done.map db.sourceOf = sources := Except.ok.inj (hresolves.unique hsources)
    have hnodup := hlist.nodup
    have hnodup' := hlist.nodup
    rw [hdone.map_memoryId h] at hnodup hagain
    refine ⟨fun text text' htext htext' heq => ?_, fun memoryId memory hreach hmemory base hbase => ?_⟩
    · exact List.inj_on_of_nodup_map hnodup ((hdone.mem text).mpr htext)
        ((hdone.mem text').mpr htext') heq
    · -- The walk of the ids meets the text of the base and the id it stands for.
      obtain ⟨fuel, again, hvisit, hsame⟩ :=
        hagain.visitAll (hdone.closed_names h) fun _ hmem => .inl hmem
      obtain ⟨hordered, -, hmem⟩ := visitAll_ok hvisit
      have hroot : ∀ text ∈ done.map db.nameOf, text ∈ again := fun text htext =>
        (hmem text).mpr (reached_fromKeys.mpr ⟨text, htext, .refl⟩)
      have hid := named_of_stored (h.canonical memoryId memory hmemory) hmemory
      have hmentioned : db.Mentioned memoryIds base := .inr ⟨memoryId, memory, hreach, hmemory, hbase⟩
      have hbaseMem : base ∈ again := hordered.closed (hroot memoryId ((hdone.mem_names h).mpr hreach))
        (.single (by rw [Edge, bases_of_named hid]; exact hbase))
      have hnameMem : db.nameOf base ∈ again :=
        hroot _ (List.mem_map_of_mem ((hdone.mem base).mpr hmentioned))
      obtain ⟨node, hnamed, -⟩ := h.named hmentioned
      rw [← hsame, List.map_map] at hnodup'
      refine List.inj_on_of_nodup_map hnodup' hnameMem hbaseMem ?_
      rw [Function.comp_apply, Function.comp_apply, nameOf_of_named hnamed,
        (h.canon hmentioned hnamed).2.2.1]
  · intro hspelled
    refine ⟨iff_of_false ?_ hacyclic, fun _ => ⟨_, hresolves,
      hdone.sourceList h (hdone.nodup_names hspelled), ?_, ?_⟩⟩
    · rintro ⟨text, hraises⟩
      cases hraises.unique hresolves
    · rw [hdone.map_memoryId h]
      exact hdone.resolves_names h hspelled
    · intro memoryId backingStore manifestId hnew
      rw [hdone.map_memoryId h]
      exact hdone.resolves_checkpoint h hspelled manifestId hnew

end Database
namespace TestVectors
open Database

/-- Two hyphens begin a comment. -/
def beforeComment : List Char → List Char
  | '-' :: '-' :: _ => []
  | c :: rest => c :: beforeComment rest
  | [] => []

def project : FilesystemMemory := .directory "/project" []

def projectDb : Database where
  memories := FiniteMap.ofList [("memory_node:project", project)]
  recordId text := some (String.ofList (beforeComment text.toList))
  resolvePath := id
  isDir _ := true

theorem project_of_stored {memoryId : String} {memory : FilesystemMemory}
    (h : projectDb.memories.get? memoryId = some memory) :
    memoryId = "memory_node:project" ∧ memory = project := by
  change ((∅ : FiniteMap String FilesystemMemory).insert "memory_node:project" project).get?
    memoryId = some memory at h
  rw [FiniteMap.get?_insert] at h
  split_ifs at h with hid
  · exact ⟨hid, (Option.some.inj h).symm⟩
  · cases h

theorem projectDb_acyclic (memoryIds : List String) : ¬ projectDb.CycleReachable memoryIds := by
  rintro ⟨memoryId, -, hcycle⟩
  obtain ⟨_, ⟨memory, hmemory, base, hbase, -⟩, -⟩ := TransGen.head'_iff.mp hcycle
  rw [(project_of_stored hmemory).2] at hbase
  cases hbase

theorem mem_of_mentioned {memoryIds : List String} {text : String}
    (h : projectDb.Mentioned memoryIds text) : text ∈ memoryIds := by
  rcases h with h | ⟨memoryId, memory, -, hmemory, hbase⟩
  · exact h
  · rw [(project_of_stored hmemory).2] at hbase
    cases hbase

theorem projectDb_available {memoryIds : List String}
    (h : memoryIds ⊆ ["memory_node:project", "memory_node:project--"]) :
    projectDb.Available memoryIds := by
  refine ⟨fun memoryId memory hmemory => ?_, fun text htext => ?_⟩
  · rw [(project_of_stored hmemory).1]
    decide +kernel
  · have hmem := h (mem_of_mentioned htext)
    simp only [List.mem_cons, List.not_mem_nil, or_false] at hmem
    obtain rfl | rfl := hmem <;>
      exact ⟨⟨"memory_node:project", project⟩, .directory "memory_node:project" "/project",
        by decide +kernel, by decide +kernel⟩

/-- A checkpoint of two directories that share a base. -/
def workDb : Database where
  memories := FiniteMap.ofList [
    ("memory_node:project", project),
    ("memory_node:notes", .directory "/notes" ["memory_node:project"]),
    ("memory_node:drafts", .directory "/drafts" ["memory_node:project"]),
    ("memory_node:work", .checkpoint "/store" "4f2a" ["memory_node:notes", "memory_node:drafts"])]
  recordId text := some (String.ofList (beforeComment text.toList))
  resolvePath := id
  isDir _ := true

def workIds : List String := ["memory_node:work", "memory_node:notes"]

theorem workDb_mentioned {text : String} (h : workDb.Mentioned workIds text) :
    workDb.nameOf text = text ∧ ∃ node source, workDb.get text = .ok (some node) ∧
      workDb.memorySource text node = .ok source := by
  have htexts : ∀ text ∈ workIds ++ workDb.memories.toList.flatMap (·.2.baseMemoryIds),
      workDb.nameOf text = text ∧ ((workDb.named text).bind fun node =>
        (workDb.memorySource text node).toOption).isSome := by decide +kernel
  have hmem : text ∈ workIds ++ workDb.memories.toList.flatMap (·.2.baseMemoryIds) := by
    rcases h with h | ⟨memoryId, memory, -, hmemory, hbase⟩
    · exact List.mem_append_left _ h
    · have hentry := FiniteMap.mem_toList.mpr hmemory
      exact List.mem_append_right _ (List.mem_flatMap.mpr ⟨_, hentry, hbase⟩)
  obtain ⟨hname, hsource⟩ := htexts text hmem
  obtain ⟨source, hsource⟩ := Option.isSome_iff_exists.mp hsource
  obtain ⟨node, hnamed, hsource⟩ := Option.bind_eq_some_iff.mp hsource
  refine ⟨hname, node, source, get_of_named hnamed, ?_⟩
  cases hresult : workDb.memorySource text node <;> rw [hresult] at hsource <;> cases hsource
  rfl

theorem workDb_available : workDb.Available workIds := by
  refine ⟨fun memoryId memory hmemory => ?_, fun text htext => (workDb_mentioned htext).2⟩
  have hcanonical : ∀ entry ∈ workDb.memories.toList,
      isMemoryNodeId entry.1 = true ∧ workDb.recordId entry.1 = some entry.1 := by decide +kernel
  exact hcanonical _ (FiniteMap.mem_toList.mpr hmemory)

theorem resolvesRight_work : workDb.ResolvesRight workIds ∧ workDb.Resolves workIds (.ok [
    .directory "memory_node:project" "/project", .directory "memory_node:notes" "/notes",
    .directory "memory_node:drafts" "/drafts", .checkpoint "memory_node:work" "/store" "4f2a"]) := by
  constructor
  · refine (resolvesRight_iff workDb workIds workDb_available).mpr (.inr ⟨?_, ?_⟩)
    · intro text text' htext htext' heq
      rwa [(workDb_mentioned htext).1, (workDb_mentioned htext').1] at heq
    · intro memoryId memory hreach hmemory base hbase
      exact (workDb_mentioned (.inr ⟨memoryId, memory, hreach, hmemory, hbase⟩)).1
  · have hvisit : visitAll workDb.bases ResolveError.cycle 4 (fromKeys workIds) = .ok [
        "memory_node:project", "memory_node:notes", "memory_node:drafts", "memory_node:work"] := by
      decide +kernel
    have hresolves := resolves_of_visitAll_ok workDb_available.closed (fun _ h => .inl h) hvisit
    have hsources : ["memory_node:project", "memory_node:notes", "memory_node:drafts",
        "memory_node:work"].map workDb.sourceOf = [.directory "memory_node:project" "/project",
          .directory "memory_node:notes" "/notes", .directory "memory_node:drafts" "/drafts",
          .checkpoint "memory_node:work" "/store" "4f2a"] := by decide +kernel
    rwa [hsources] at hresolves

/-- One memory in two spellings is listed twice. -/
theorem two_spellings_listed_twice :
    projectDb.Available ["memory_node:project", "memory_node:project--"] ∧
      projectDb.Resolves ["memory_node:project", "memory_node:project--"]
        (.ok [.directory "memory_node:project" "/project",
          .directory "memory_node:project" "/project"]) ∧
      ¬ projectDb.ResolvesRight ["memory_node:project", "memory_node:project--"] := by
  have havailable : projectDb.Available ["memory_node:project", "memory_node:project--"] :=
    projectDb_available (List.Subset.refl _)
  have hvisit : visitAll projectDb.bases ResolveError.cycle 1
      (fromKeys ["memory_node:project", "memory_node:project--"]) =
        .ok ["memory_node:project", "memory_node:project--"] := by decide +kernel
  have hresolves := resolves_of_visitAll_ok havailable.closed (fun _ h => .inl h) hvisit
  have hsources : ["memory_node:project", "memory_node:project--"].map projectDb.sourceOf =
      [.directory "memory_node:project" "/project",
        .directory "memory_node:project" "/project"] := by decide +kernel
  rw [hsources] at hresolves
  refine ⟨havailable, hresolves, fun hright => ?_⟩
  obtain ⟨sources, hright, hlist, -⟩ := hright.sources (projectDb_acyclic _)
  cases hresolves.unique hright
  have hnodup := hlist.nodup
  revert hnodup
  decide +kernel

end TestVectors
end FilesystemMemories
