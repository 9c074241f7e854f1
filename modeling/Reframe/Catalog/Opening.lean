import Reframe.Catalog.Service
import Reframe.Package.AcceptedCatalog

/-! Every catalog that a package accepts opens: the service finds the same forest. -/
namespace StoreCatalog
open Forest (Rooted numberNodes)
open Package (Catalog CatalogEntry DescriptorPool InterfaceVersion parentOf)
open Run (Stop bind_ok forM_eq_ok)

section

variable {catalog : Catalog} {entries : FiniteMap String ℕ}

theorem indexEntry_eq_ok {item : CatalogEntry × ℕ} {entries' : FiniteMap String ℕ} :
    indexEntry entries item = .ok entries' ↔
      item.1.kind.isSome = true ∧ entries.get? item.1.id = none ∧
        entries' = entries.insert item.1.id item.2 := by
  rw [indexEntry]
  split_ifs with hkind hcontains
  · refine iff_of_false (fun h => by cases h) fun h => ?_
    rw [Option.isNone_iff_eq_none.mp hkind] at h
    cases h.1
  · refine iff_of_false (fun h => by cases h) fun h => ?_
    rw [FiniteMap.contains, h.2.1] at hcontains
    cases hcontains
  · rw [Except.ok.injEq, eq_comm (a := entries')]
    have hsome : item.1.kind.isSome = true := by
      cases hk : item.1.kind with
      | none => exact absurd (by rw [hk]; rfl) hkind
      | some kind => rfl
    have hnone : entries.get? item.1.id = none :=
      FiniteMap.contains_eq_false.mp (Bool.eq_false_iff.mpr hcontains)
    exact ⟨fun h => ⟨hsome, hnone, h⟩, fun h => h.2.2⟩

/-- The index of a catalog holds the position of each entry. -/
def Indexes (entries : FiniteMap String ℕ) (catalog : Catalog) : Prop :=
  ∀ id position, entries.get? id = some position ↔
    ∃ entry, catalog.entries[position]? = some entry ∧ entry.id = id

/-- Entries with a kind and ids of their own are indexed. -/
theorem indexEntries_ok (hkind : ∀ entry ∈ catalog.entries, entry.kind.isSome = true)
    (hnodup : (catalog.entries.map CatalogEntry.id).Nodup) :
    ∃ entries, catalog.entries.zipIdx.foldlM indexEntry ∅ = .ok entries ∧
      Indexes entries catalog := by
  have hids : (catalog.entries.zipIdx.map fun item => item.1.id) =
      catalog.entries.map CatalogEntry.id := by
    rw [← Function.comp_def CatalogEntry.id Prod.fst, ← List.map_map, List.zipIdx_map_fst]
  refine ⟨_, (FiniteMap.foldlM_insert (fun item => item.1.kind.isSome = true)
    (fun item => item.1.id) Prod.snd (fun _ _ _ => indexEntry_eq_ok) catalog.entries.zipIdx ∅
    _).mpr ⟨fun item hitem => ⟨hkind _ (List.fst_mem_of_mem_zipIdx hitem), rfl⟩, hids ▸ hnodup, rfl⟩,
    fun id position => ?_⟩
  have hkeys : ((catalog.entries.zipIdx.map fun item => (item.1.id, item.2)).map
      Prod.fst).Nodup := by
    rw [List.map_map]
    exact hids ▸ hnodup
  rw [← FiniteMap.ofList, FiniteMap.get?_ofList hkeys, List.mem_map]
  simp only [Prod.mk.injEq, Prod.exists, List.mem_zipIdx_iff_getElem?]
  constructor
  · rintro ⟨entry, _, hget, hid, rfl⟩
    exact ⟨entry, hget, hid⟩
  · rintro ⟨entry, hget, hid⟩
    exact ⟨entry, position, hget, hid, rfl⟩

theorem indexEntries_eq_ok (hentries : catalog.entries.zipIdx.foldlM indexEntry ∅ = .ok entries) :
    (∀ entry ∈ catalog.entries, entry.kind.isSome = true) ∧
      (catalog.entries.map CatalogEntry.id).Nodup ∧ Indexes entries catalog := by
  have hfold := (FiniteMap.foldlM_insert (fun item : CatalogEntry × ℕ => item.1.kind.isSome = true)
    (fun item => item.1.id) Prod.snd (fun _ _ _ => indexEntry_eq_ok) catalog.entries.zipIdx ∅
    entries).mp hentries
  have hids : (catalog.entries.zipIdx.map fun item => item.1.id) =
      catalog.entries.map CatalogEntry.id := by
    rw [← Function.comp_def CatalogEntry.id Prod.fst, ← List.map_map, List.zipIdx_map_fst]
  have hkind : ∀ entry ∈ catalog.entries, entry.kind.isSome = true := by
    intro entry hentry
    obtain ⟨position, hposition⟩ := List.mem_iff_getElem?.mp hentry
    exact (hfold.1 (entry, position) (List.mem_zipIdx_iff_getElem?.mpr hposition)).1
  have hunique : (catalog.entries.map CatalogEntry.id).Nodup := hids ▸ hfold.2.1
  obtain ⟨entries', hentries', hindexes⟩ := indexEntries_ok hkind hunique
  rw [hentries, Except.ok.injEq] at hentries'
  exact ⟨hkind, hunique, hentries' ▸ hindexes⟩

theorem Indexes.get? (h : Indexes entries catalog) {entry : CatalogEntry}
    (hentry : entry ∈ catalog.entries) :
    ∃ position, entries.get? entry.id = some position ∧
      catalog.entries[position]? = some entry := by
  obtain ⟨position, hposition⟩ := List.mem_iff_getElem?.mp hentry
  exact ⟨position, (h entry.id position).mpr ⟨entry, hposition, rfl⟩, hposition⟩

theorem Indexes.keys (h : Indexes entries catalog) :
    entries.keys = (catalog.entries.map CatalogEntry.id).toFinset := by
  ext id
  rw [FiniteMap.mem_keys_iff, List.mem_toFinset, List.mem_map]
  constructor
  · rintro ⟨position, hget⟩
    obtain ⟨entry, hposition, hid⟩ := (h id position).mp hget
    exact ⟨entry, List.mem_of_getElem? hposition, hid⟩
  · rintro ⟨entry, hentry, rfl⟩
    obtain ⟨position, hget, -⟩ := h.get? hentry
    exact ⟨position, hget⟩

theorem entryKind_eq_topic {entry : CatalogEntry} :
    entryKind entry = .ok .topic ↔ entry.isTopic = true := by
  rw [CatalogEntry.isTopic, decide_eq_true_eq, entryKind]
  split <;> rename_i hkind <;> simp [hkind, fail]

theorem validateParent_iff (h : Indexes entries catalog) {entry : CatalogEntry} :
    validateParent catalog entries entry = .ok () ↔ (entry.parentTopicId ≠ "" →
      ∃ parent ∈ catalog.entries, parent.id = entry.parentTopicId ∧ parent.isTopic = true) := by
  rw [validateParent]
  split_ifs with hroot
  · exact iff_of_true rfl fun hne => absurd hroot hne
  constructor
  · intro hok _
    cases hget : entries.get? entry.parentTopicId with
    | none =>
      rw [hget] at hok
      cases hok
    | some position =>
      obtain ⟨parent, hposition, hid⟩ := (h _ position).mp hget
      simp only [hget, entryAt, hposition] at hok
      obtain ⟨_, hsame, hok⟩ := bind_ok.mp hok
      cases hsame
      obtain ⟨kind, hkind, hok⟩ := bind_ok.mp hok
      split_ifs at hok with htopic
      · subst htopic
        exact ⟨parent, List.mem_of_getElem? hposition, hid, entryKind_eq_topic.mp hkind⟩
      · cases hok
  · intro hparents
    obtain ⟨parent, hparent, hid, htopic⟩ := hparents hroot
    obtain ⟨position, hget, hposition⟩ := h.get? hparent
    rw [hid] at hget
    simp only [hget]
    refine bind_ok.mpr ⟨parent, by rw [entryAt, hposition], ?_⟩
    exact bind_ok.mpr ⟨.topic, entryKind_eq_topic.mpr htopic, rfl⟩

theorem addChildren_iff {children' : FiniteMap String (List String)} :
    ∀ (items : List CatalogEntry) (children : FiniteMap String (List String)),
      items.foldlM (addChild catalog entries) children = .ok children' ↔
        (∀ entry ∈ items, validateParent catalog entries entry = .ok ()) ∧
          items.foldl (fun children entry => children.push entry.parentTopicId entry.id) children =
            children' := by
  intro items
  induction items with
  | nil =>
    intro children
    rw [List.foldlM_nil]
    exact ⟨fun h => ⟨fun _ h => (List.not_mem_nil h).elim, Except.ok.inj h⟩,
      fun h => congrArg Except.ok h.2⟩
  | cons entry items ih =>
    intro children
    rw [List.foldlM_cons, List.foldl_cons, List.forall_mem_cons, and_assoc, ← ih]
    constructor
    · intro h
      obtain ⟨children₁, hfirst, hrest⟩ := bind_ok.mp h
      obtain ⟨_, hvalid, hpush⟩ := bind_ok.mp hfirst
      cases hpush
      exact ⟨hvalid, hrest⟩
    · rintro ⟨hvalid, hrest⟩
      exact bind_ok.mpr ⟨_, bind_ok.mpr ⟨(), hvalid, rfl⟩, hrest⟩

theorem validateTopLevelTopic_iff (h : Indexes entries catalog) {topicId : String} :
    validateTopLevelTopic catalog entries topicId = .ok () ↔ ∃ entry ∈ catalog.entries,
      entry.id = topicId ∧ entry.parentTopicId = "" ∧ entry.isTopic = true := by
  rw [validateTopLevelTopic]
  constructor
  · intro hok
    cases hget : entries.get? topicId with
    | none =>
      rw [hget] at hok
      cases hok
    | some position =>
      obtain ⟨entry, hposition, hid⟩ := (h _ position).mp hget
      simp only [hget, entryAt, hposition] at hok
      obtain ⟨_, hsame, hok⟩ := bind_ok.mp hok
      cases hsame
      obtain ⟨kind, hkind, hok⟩ := bind_ok.mp hok
      split_ifs at hok with hroot
      · rw [hroot.1] at hkind
        exact ⟨entry, List.mem_of_getElem? hposition, hid, hroot.2, entryKind_eq_topic.mp hkind⟩
      · cases hok
  · rintro ⟨entry, hentry, rfl, hroot, hkind⟩
    obtain ⟨position, hget, hposition⟩ := h.get? hentry
    simp only [hget]
    refine bind_ok.mpr ⟨entry, by rw [entryAt, hposition], ?_⟩
    exact bind_ok.mpr ⟨.topic, entryKind_eq_topic.mpr hkind, if_pos ⟨rfl, hroot⟩⟩

/-- The children of each topic in the order of their ids. -/
def childrenOf (catalog : Catalog) (id : String) : List String :=
  sortIds ((catalog.entries.filter (·.parentTopicId = id)).map CatalogEntry.id)

def childMap (catalog : Catalog) : FiniteMap String (List String) :=
  (catalog.entries.foldl
    (fun (children : FiniteMap String (List String)) entry =>
      children.push entry.parentTopicId entry.id) ∅).mapValues sortIds

theorem getD_childMap (id : String) :
    ((childMap catalog).get? id).getD [] = childrenOf catalog id := by
  have hpushed := FiniteMap.getD_get?_foldl_push CatalogEntry.parentTopicId CatalogEntry.id
    catalog.entries ∅ id
  rw [FiniteMap.get?_empty, Option.getD_none, List.nil_append] at hpushed
  rw [childMap, FiniteMap.get?_mapValues, childrenOf, ← hpushed]
  cases FiniteMap.get? _ id with
  | none => rfl
  | some ids => rfl

theorem mem_childrenOf {id child : String} :
    child ∈ childrenOf catalog id ↔
      ∃ entry ∈ catalog.entries, entry.parentTopicId = id ∧ entry.id = child := by
  rw [childrenOf, sortIds, (List.perm_insertionSort _ _).mem_iff, List.mem_map]
  simp only [List.mem_filter, decide_eq_true_eq, and_assoc]

theorem childrenOf_nodup (hunique : (catalog.entries.map CatalogEntry.id).Nodup) (id : String) :
    (childrenOf catalog id).Nodup := by
  rw [childrenOf, sortIds, (List.perm_insertionSort _ _).nodup_iff]
  exact hunique.sublist (List.filter_sublist.map _)

theorem parentOf_id (hunique : (catalog.entries.map CatalogEntry.id).Nodup) {entry : CatalogEntry}
    (hentry : entry ∈ catalog.entries) :
    parentOf catalog.entries entry.id =
      if entry.parentTopicId = "" then none else some entry.parentTopicId := by
  rw [parentOf, (Package.find?_id_eq_some hunique).mpr ⟨hentry, rfl⟩, Option.bind_some]

def catalogIds (catalog : Catalog) : Finset String :=
  (catalog.entries.map CatalogEntry.id).toFinset

theorem mem_catalogIds {id : String} :
    id ∈ catalogIds catalog ↔ ∃ entry ∈ catalog.entries, entry.id = id := by
  rw [catalogIds, List.mem_toFinset, List.mem_map]

theorem card_catalogIds (hunique : (catalog.entries.map CatalogEntry.id).Nodup) :
    (catalogIds catalog).card = catalog.entries.length := by
  rw [catalogIds, List.toFinset_card_of_nodup hunique, List.length_map]

/-- The lists of children are those of the forest: no entry has the empty id, under which the
roots are listed. -/
theorem children_forest (hunique : (catalog.entries.map CatalogEntry.id).Nodup)
    (hids : ∀ entry ∈ catalog.entries, entry.id ≠ "") :
    Forest.Children (parentOf catalog.entries) (childrenOf catalog) (catalogIds catalog) := by
  constructor
  · intro above habove node
    obtain ⟨aboveEntry, haboveEntry, hid⟩ := mem_catalogIds.mp habove
    have hne : above ≠ "" := hid ▸ hids _ haboveEntry
    rw [mem_childrenOf, mem_catalogIds]
    constructor
    · rintro ⟨entry, hentry, rfl, rfl⟩
      exact ⟨⟨entry, hentry, rfl⟩, by rw [parentOf_id hunique hentry, if_neg hne]⟩
    · rintro ⟨⟨entry, hentry, rfl⟩, hparent⟩
      rw [parentOf_id hunique hentry] at hparent
      split_ifs at hparent
      exact ⟨entry, hentry, Option.some.inj hparent, rfl⟩
  · exact fun above _ => childrenOf_nodup hunique above

theorem mem_roots (hunique : (catalog.entries.map CatalogEntry.id).Nodup) (node : String) :
    node ∈ childrenOf catalog "" ↔
      node ∈ catalogIds catalog ∧ parentOf catalog.entries node = none := by
  rw [mem_childrenOf, mem_catalogIds]
  constructor
  · rintro ⟨entry, hentry, hroot, rfl⟩
    exact ⟨⟨entry, hentry, rfl⟩, by rw [parentOf_id hunique hentry, if_pos hroot]⟩
  · rintro ⟨⟨entry, hentry, rfl⟩, hparent⟩
    rw [parentOf_id hunique hentry] at hparent
    split_ifs at hparent with hroot
    exact ⟨entry, hentry, hroot, rfl⟩

/-- The parents of entries are entries. -/
theorem parentOf_mem (hunique : (catalog.entries.map CatalogEntry.id).Nodup)
    (hparents : ∀ entry ∈ catalog.entries, entry.parentTopicId ≠ "" →
      entry.parentTopicId ∈ catalogIds catalog) :
    ∀ node ∈ catalogIds catalog, ∀ p, parentOf catalog.entries node = some p →
      p ∈ catalogIds catalog := by
  intro node hnode p hp
  obtain ⟨entry, hentry, rfl⟩ := mem_catalogIds.mp hnode
  rw [parentOf_id hunique hentry] at hp
  split_ifs at hp with hroot
  cases hp
  exact hparents entry hentry hroot

/-- The walk of the hierarchy numbers every entry. -/
theorem build_ok (hlinked : catalog.WellLinked) (h : Indexes entries catalog)
    {children : FiniteMap String (List String)}
    (hchildren : ∀ id, (children.get? id).getD [] = childrenOf catalog id) :
    ∃ hierarchy, HierarchyIndex.build entries catalog children = .ok hierarchy := by
  have hsize : entries.size = (catalogIds catalog).card := by
    rw [← FiniteMap.card_keys, h.keys, catalogIds]
  have hbounded : (catalogIds catalog).card ≤ 2 ^ 64 - 1 := by
    have := hlinked.bounded
    rw [card_catalogIds hlinked.unique]
    simp only [Package.maxEntries] at this
    omega
  have hclosed := parentOf_mem hlinked.unique fun entry hentry hroot => by
    obtain ⟨parent, hparent, hid, -⟩ := hlinked.parent entry hentry hroot
    exact mem_catalogIds.mpr ⟨parent, hparent, hid⟩
  have hrooted : ∀ node ∈ catalogIds catalog, Rooted (parentOf catalog.entries) node := by
    intro node hnode
    obtain ⟨entry, hentry, rfl⟩ := mem_catalogIds.mp hnode
    exact hlinked.rooted entry hentry
  have hfuel : 2 * (catalogIds catalog).card ≤ hierarchyFuel entries := by
    rw [hierarchyFuel, hsize]
    omega
  obtain ⟨ranges, hwalk, hkeys⟩ := Forest.numberNodes_forest
    (children_forest hlinked.unique fun _ hentry => (Package.validateEntry_ok (hlinked.entry _ hentry)).1)
    cycleError hbounded (childrenOf_nodup hlinked.unique "") (mem_roots hlinked.unique) hclosed
    hrooted hfuel
  refine ⟨⟨ranges⟩, bind_ok.mpr ⟨ranges, ?_, if_pos ?_⟩⟩
  · rw [funext hchildren]
    exact hwalk
  · rw [← FiniteMap.card_keys, hkeys, hsize]

end

/-- A catalog that forms a forest opens. -/
theorem withCursorAuthority_ok {μ : Type} (unicode : Unicode) (sha256 : List UInt8 → Hash)
    {catalog : Catalog} (hlinked : catalog.WellLinked) (descriptorPool : DescriptorPool μ)
    (schemaBundle : List UInt8) (catalogRevision : Hash) (cursorAuthority : CursorAuthority) :
    ∃ service, CatalogService.withCursorAuthority unicode sha256 catalog descriptorPool schemaBundle
      catalogRevision cursorAuthority = .ok service := by
  have hentry := fun entry hentry => (Package.validateEntry_ok (hlinked.entry entry hentry)).2
  obtain ⟨entries, hentries, hindexes⟩ := indexEntries_ok hentry hlinked.unique
  obtain ⟨hierarchy, hbuild⟩ := build_ok hlinked hindexes getD_childMap
  refine ⟨⟨catalog, entries, childMap catalog, hierarchy, descriptorPool, schemaBundle, sha256 schemaBundle,
    catalogRevision, .build unicode catalog.entries, cursorAuthority⟩,
    bind_ok.mpr ⟨entries, hentries, ?_⟩⟩
  refine bind_ok.mpr ⟨_, (addChildren_iff catalog.entries ∅).mpr ⟨fun entry hentry =>
    (validateParent_iff hindexes).mpr (hlinked.parent entry hentry), rfl⟩, ?_⟩
  refine bind_ok.mpr ⟨(), forM_eq_ok.mpr fun id hid =>
    (validateTopLevelTopic_iff hindexes).mpr (hlinked.topLevel id hid), ?_⟩
  exact bind_ok.mpr ⟨hierarchy, hbuild, rfl⟩

/-- A packaged catalog opens, and the check for cycles ends on every catalog that reaches it: it
accepts the catalog or names an entry on a cycle. -/
theorem packaged_catalog_opens {μ : Type} (pool : DescriptorPool μ) (catalog : Catalog) :
    (∀ manifestStoreId manifestInterface,
      Package.validateCatalog pool catalog manifestStoreId manifestInterface = .ok () →
      ∀ unicode sha256 schemaBundle catalogRevision cursorAuthority, ∃ service,
        CatalogService.withCursorAuthority unicode sha256 catalog pool schemaBundle catalogRevision
          cursorAuthority = .ok service) ∧
      ∀ entries, Package.entryMap catalog = .ok entries →
        Package.validateTopLevelTopics catalog entries = .ok () →
        Package.validateLinks entries = .ok () → ∀ fuel, Package.cycleFuel entries ≤ fuel →
        Package.validateParentCycles fuel entries = .ok () ∨ ∃ id,
          Package.validateParentCycles fuel entries = .error (.error (.parentCycle id)) := by
  constructor
  · intro manifestStoreId manifestInterface h unicode sha256 schemaBundle revision authority
    exact withCursorAuthority_ok unicode sha256 (Package.wellLinked_of_ok h) pool schemaBundle
      revision authority
  · intro entries hentries _ hlinks fuel hfuel
    rw [Package.cycleFuel] at hfuel
    exact Package.validateParentCycles_total (Package.linked_of_ok hentries hlinks) (by omega)

namespace TestVectors
open Package (Example Guidance MethodBinding)

def topic (id parentTopicId : String) : CatalogEntry :=
  ⟨id, parentTopicId, "A topic", "What is below it", [], [], none, some .topic⟩

def listGuidance (typeUrl : String) : Guidance :=
  ⟨"To see events", "", [], [⟨"All events", "", some ⟨typeUrl, []⟩, some ⟨typeUrl, []⟩⟩]⟩

def listFunction (typeUrl : String) : CatalogEntry :=
  ⟨"events.list", "events", "List events", "Every event of a range", ["show my events"], ["events"],
    some (listGuidance typeUrl), some (.function ⟨".calendar.Range", ".calendar.Range", 1, 1,
      some ⟨".calendar.Events", "List"⟩⟩)⟩

/-- A calendar whose example values have this type URL. -/
def calendarCatalogWith (typeUrl : String) : Catalog :=
  ⟨1, "test.calendar", some ⟨1, 0⟩, "Calendar", ["A calendar.", "It has events."], ["calendar"],
    [topic "calendar" "", topic "events" "calendar", listFunction typeUrl]⟩

def calendarCatalog : Catalog := calendarCatalogWith "type.googleapis.com/calendar.Range"

/-- A pool with one message and one method. -/
def calendarPool : DescriptorPool Unit where
  schema := ⟨fun _ => "calendar.Range", fun _ _ => none, fun _ _ => none⟩
  getMessageByName name := if name = "calendar.Range" then some () else none
  getServiceByName name :=
    if name = "calendar.Events" then some [⟨"List", false, false, (), ()⟩] else none
  decode _ bytes := if bytes = [] then .ok [] else .error "malformed"
  capabilities _ := .ok none

theorem packaged_catalog_opens_calendar :
    Package.validateCatalog calendarPool calendarCatalog "test.calendar" ⟨1, 0⟩ = .ok () ∧
      ∃ service, CatalogService.withCursorAuthority ⟨id, Char.isAlphanum, fun c => [c.toLower]⟩
        (fun _ => .replicate 32 0) calendarCatalog calendarPool [] (.replicate 32 1)
        ⟨.replicate 32 2⟩ = .ok service := by
  have hvalid : Package.validateCatalog calendarPool calendarCatalog "test.calendar" ⟨1, 0⟩ =
      .ok () := by decide +kernel
  exact ⟨hvalid, (packaged_catalog_opens calendarPool calendarCatalog).1 _ _ hvalid _ _ _ _ _⟩

end TestVectors

end StoreCatalog
