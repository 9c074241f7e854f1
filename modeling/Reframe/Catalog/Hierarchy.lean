import Reframe.Catalog.Opening
import Reframe.Lib.ForestRanges

/-! The hierarchy of a catalog. The service opens exactly when the parents of all entries end at a
root, and then the test on two ranges tells what lies below a topic. -/
namespace StoreCatalog
open Forest (Rooted Within numberNodes)
open Package (Catalog CatalogEntry DescriptorPool parentOf)
open Run (Stop bind_ok forM_eq_ok)

/-- What the service checks of a catalog before it numbers the entries. -/
structure Listed (catalog : Catalog) : Prop where
  kind : ∀ entry ∈ catalog.entries, entry.kind.isSome = true
  unique : (catalog.entries.map CatalogEntry.id).Nodup
  parent : ∀ entry ∈ catalog.entries, entry.parentTopicId ≠ "" →
    ∃ parent ∈ catalog.entries, parent.id = entry.parentTopicId ∧ parent.isTopic = true
  topLevel : ∀ id ∈ catalog.topLevelTopicIds, ∃ entry ∈ catalog.entries,
    entry.id = id ∧ entry.parentTopicId = "" ∧ entry.isTopic = true

/-- The parents of every entry end at a root. The empty id is no entry: under it the roots are
listed, which would lie below it. -/
def Rootedness (catalog : Catalog) : Prop :=
  ∀ entry ∈ catalog.entries, entry.id ≠ "" ∧ Rooted (parentOf catalog.entries) entry.id

section

variable {catalog : Catalog} {entries : FiniteMap String ℕ}
  {children : FiniteMap String (List String)} {hierarchy : HierarchyIndex}

theorem Listed.parents (h : Listed catalog) : ∀ node ∈ catalogIds catalog, ∀ p,
    parentOf catalog.entries node = some p → p ∈ catalogIds catalog :=
  parentOf_mem h.unique fun entry hentry hroot => by
    obtain ⟨parent, hparent, hid, -⟩ := h.parent entry hentry hroot
    exact mem_catalogIds.mpr ⟨parent, hparent, hid⟩

theorem Indexes.size (h : Indexes entries catalog) :
    entries.size = (catalogIds catalog).card := by
  rw [← FiniteMap.card_keys, h.keys, catalogIds]

theorem childrenOf_subset (id child : String) (h : child ∈ childrenOf catalog id) :
    child ∈ catalogIds catalog := by
  obtain ⟨entry, hentry, -, rfl⟩ := mem_childrenOf.mp h
  exact mem_catalogIds.mpr ⟨entry, hentry, rfl⟩

/-- The hierarchy is what the walk from the roots leaves behind. -/
theorem build_eq (hchildren : ∀ id, (children.get? id).getD [] = childrenOf catalog id) :
    HierarchyIndex.build entries catalog children =
      (numberNodes (childrenOf catalog) cycleError (2 ^ 64 - 1) (hierarchyFuel entries)
        ((childrenOf catalog "").map .enter) 0 ∅ >>= fun ranges =>
          if ranges.size = entries.size then .ok ⟨ranges⟩ else fail cycleError) := by
  rw [HierarchyIndex.build, funext hchildren]
  rfl

/-- The walk ends or reports a cycle, whatever the parents are. -/
theorem walk_total (h : Indexes entries catalog) :
    (∃ ranges, numberNodes (childrenOf catalog) cycleError (2 ^ 64 - 1) (hierarchyFuel entries)
        ((childrenOf catalog "").map .enter) 0 ∅ = .ok ranges ∧ ranges.keys ⊆ catalogIds catalog) ∨
      numberNodes (childrenOf catalog) cycleError (2 ^ 64 - 1) (hierarchyFuel entries)
        ((childrenOf catalog "").map .enter) 0 ∅ = .error (.error cycleError) := by
  have hentering : Forest.entering ((childrenOf catalog "").map Forest.Frame.enter) =
      childrenOf catalog "" := by
    have := Forest.entering_map_enter (childrenOf catalog "") []
    simpa [Forest.entering] using this
  have hleaving : Forest.leaving ((childrenOf catalog "").map Forest.Frame.enter) = [] := by
    have := Forest.leaving_map_enter (childrenOf catalog "") []
    simpa [Forest.leaving] using this
  refine Forest.numberNodes_total (fun node _ child => childrenOf_subset node child) _ _ _ _ ?_ ?_ ?_ ?_
  · rw [hentering]
    exact fun node => childrenOf_subset "" node
  · rw [hleaving]
    exact fun _ hmem => (List.not_mem_nil hmem).elim
  · exact Finset.empty_subset _
  · rw [Forest.remaining, hleaving, hierarchyFuel, h.size]
    simp only [List.length_nil]
    omega

/-- An entry with the empty id is never numbered: the roots, under which it lies, are listed as its
children. -/
theorem ids_of_numbered {fuel : ℕ} {ranges : FiniteMap String Forest.NodeRange}
    (hwalk : numberNodes (childrenOf catalog) cycleError (2 ^ 64 - 1) fuel
      ((childrenOf catalog "").map .enter) 0 ∅ = .ok ranges) : "" ∉ ranges.keys := by
  intro hnumbered
  have hfresh := Forest.numberNodes_entered _ _ _ _ _ hwalk hnumbered (Finset.notMem_empty _)
  have hentering : Forest.entering ((childrenOf catalog "").map Forest.Frame.enter) =
      childrenOf catalog "" := by
    have := Forest.entering_map_enter (childrenOf catalog "") []
    simpa [Forest.entering] using this
  rw [hentering] at hfresh
  cases hroots : childrenOf catalog "" with
  | nil =>
    rw [hroots, List.map_nil] at hwalk
    have hempty : ranges = ∅ := by
      cases fuel with
      | zero =>
        rw [numberNodes] at hwalk
        exact (Except.ok.inj hwalk).symm
      | succ fuel =>
        rw [numberNodes] at hwalk
        exact (Except.ok.inj hwalk).symm
    rw [hempty] at hnumbered
    exact Finset.notMem_empty _ hnumbered
  | cons root roots =>
    have hroot : root ∈ childrenOf catalog "" := hroots ▸ List.mem_cons_self
    exact hfresh root (.inl hroot) hroot

theorem build_cases (h : Indexes entries catalog)
    (hchildren : ∀ id, (children.get? id).getD [] = childrenOf catalog id) :
    (∃ hierarchy, HierarchyIndex.build entries catalog children = .ok hierarchy) ∨
      HierarchyIndex.build entries catalog children = .error (.error cycleError) := by
  rw [build_eq hchildren]
  rcases walk_total h with ⟨ranges, hwalk, -⟩ | hwalk
  · rw [hwalk]
    change (∃ hierarchy, (if ranges.size = entries.size then Except.ok (HierarchyIndex.mk ranges)
      else fail cycleError) = .ok hierarchy) ∨ (if ranges.size = entries.size then
        Except.ok (HierarchyIndex.mk ranges) else fail cycleError) = .error (.error cycleError)
    split_ifs
    · exact .inl ⟨_, rfl⟩
    · exact .inr rfl
  · rw [hwalk]
    exact .inr rfl

/-- A hierarchy has a final range for every entry. -/
theorem build_ranged (hlisted : Listed catalog) (h : Indexes entries catalog)
    (hchildren : ∀ id, (children.get? id).getD [] = childrenOf catalog id)
    (hbuild : HierarchyIndex.build entries catalog children = .ok hierarchy) :
    (∀ entry ∈ catalog.entries, entry.id ≠ "") ∧ hierarchy.ranges.keys = catalogIds catalog ∧
      ∃ position, Forest.Ranged (parentOf catalog.entries) (catalogIds catalog) [] position
        hierarchy.ranges := by
  rw [build_eq hchildren] at hbuild
  obtain ⟨ranges, hwalk, hsize⟩ := bind_ok.mp hbuild
  split_ifs at hsize with hcard
  · cases hsize
    have hkeys : ranges.keys = catalogIds catalog := by
      rcases walk_total h with ⟨ranges', hwalk', hsubset⟩ | hwalk'
      · rw [hwalk, Except.ok.injEq] at hwalk'
        subst hwalk'
        refine Finset.eq_of_subset_of_card_le hsubset ?_
        rw [← h.size, ← hcard, ← FiniteMap.card_keys]
      · rw [hwalk] at hwalk'
        cases hwalk'
    have hids : ∀ entry ∈ catalog.entries, entry.id ≠ "" := by
      intro entry hentry hid
      refine ids_of_numbered hwalk ?_
      rw [hkeys, ← hid]
      exact mem_catalogIds.mpr ⟨entry, hentry, rfl⟩
    have hstart := Forest.walking_roots (parentOf catalog.entries)
      (childrenOf_nodup hlisted.unique "") (mem_roots hlisted.unique)
    obtain ⟨position, -, hranged⟩ := Forest.numberNodes_ranged
      (children_forest hlisted.unique hids) hlisted.parents _ _ _ _ _ hstart
      (Forest.ranged_roots _ _ _) hwalk
    exact ⟨hids, hkeys, position, hranged⟩
  · cases hsize

theorem build_iff (hlisted : Listed catalog) (h : Indexes entries catalog)
    (hchildren : ∀ id, (children.get? id).getD [] = childrenOf catalog id)
    (hlength : catalog.entries.length < 2 ^ 64) :
    (∃ hierarchy, HierarchyIndex.build entries catalog children = .ok hierarchy) ↔
      Rootedness catalog := by
  constructor
  · rintro ⟨hierarchy, hbuild⟩ entry hentry
    obtain ⟨hids, hkeys, position, hranged⟩ := build_ranged hlisted h hchildren hbuild
    refine ⟨hids entry hentry, hranged.rooted ?_⟩
    rw [hkeys]
    exact mem_catalogIds.mpr ⟨entry, hentry, rfl⟩
  · intro hrooted
    have hids := fun entry hentry => (hrooted entry hentry).1
    have hnodes : ∀ node ∈ catalogIds catalog, Rooted (parentOf catalog.entries) node := by
      intro node hnode
      obtain ⟨entry, hentry, rfl⟩ := mem_catalogIds.mp hnode
      exact (hrooted entry hentry).2
    have hbounded : (catalogIds catalog).card ≤ 2 ^ 64 - 1 := by
      rw [card_catalogIds hlisted.unique]
      omega
    have hfuel : 2 * (catalogIds catalog).card ≤ hierarchyFuel entries := by
      rw [hierarchyFuel, h.size]
      omega
    obtain ⟨ranges, hwalk, hkeys⟩ := Forest.numberNodes_forest
      (children_forest hlisted.unique hids) cycleError hbounded (childrenOf_nodup hlisted.unique "")
      (mem_roots hlisted.unique) hlisted.parents hnodes hfuel
    refine ⟨⟨ranges⟩, ?_⟩
    rw [build_eq hchildren]
    refine bind_ok.mpr ⟨ranges, hwalk, if_pos ?_⟩
    rw [← FiniteMap.card_keys, hkeys, h.size]

theorem contains_iff (hlisted : Listed catalog) (h : Indexes entries catalog)
    (hchildren : ∀ id, (children.get? id).getD [] = childrenOf catalog id)
    (hbuild : HierarchyIndex.build entries catalog children = .ok hierarchy)
    (ancestorId candidateId : String) :
    hierarchy.contains ancestorId candidateId = true ↔
      ancestorId ∈ catalogIds catalog ∧ candidateId ∈ catalogIds catalog ∧
        Within (parentOf catalog.entries) candidateId ancestorId := by
  obtain ⟨-, hkeys, position, hranged⟩ := build_ranged hlisted h hchildren hbuild
  rw [HierarchyIndex.contains, ← hkeys, FiniteMap.mem_keys_iff, FiniteMap.mem_keys_iff]
  cases hancestor : hierarchy.ranges.get? ancestorId with
  | none => simp
  | some ancestor =>
    cases hcandidate : hierarchy.ranges.get? candidateId with
    | none => simp
    | some candidate =>
      have hinside := hranged.inside ancestorId ancestor hancestor List.not_mem_nil candidateId
        candidate hcandidate
      simp only [Bool.and_eq_true, decide_eq_true_eq, Option.some.injEq, exists_eq', true_and]
      exact hinside

end

section

variable {μ : Type} {unicode : Unicode} {sha256 : List UInt8 → Hash} {catalog : Catalog}
  {descriptorPool : DescriptorPool μ} {schemaBundle : List UInt8} {catalogRevision : Hash}
  {cursorAuthority : CursorAuthority} {service : CatalogService μ}

theorem listed_of_ok (hok : CatalogService.withCursorAuthority unicode sha256 catalog
      descriptorPool schemaBundle catalogRevision cursorAuthority = .ok service) :
    Listed catalog ∧ ∃ entries, Indexes entries catalog ∧
      HierarchyIndex.build entries catalog (childMap catalog) = .ok service.hierarchy := by
  obtain ⟨entries, hentries, hok⟩ := bind_ok.mp hok
  obtain ⟨children, hchildren, hok⟩ := bind_ok.mp hok
  obtain ⟨⟨⟩, htopLevel, hok⟩ := bind_ok.mp hok
  obtain ⟨hierarchy, hbuild, hok⟩ := bind_ok.mp hok
  cases hok
  obtain ⟨hkind, hunique, hindexes⟩ := indexEntries_eq_ok hentries
  obtain ⟨hparents, rfl⟩ := (addChildren_iff _ _).mp hchildren
  exact ⟨⟨hkind, hunique, fun entry hentry => (validateParent_iff hindexes).mp (hparents entry hentry),
    fun id hid => (validateTopLevelTopic_iff hindexes).mp (forM_eq_ok.mp htopLevel id hid)⟩,
    entries, hindexes, hbuild⟩

variable (unicode sha256 descriptorPool schemaBundle catalogRevision cursorAuthority) in
theorem Listed.opening (h : Listed catalog) : ∃ entries, Indexes entries catalog ∧
    CatalogService.withCursorAuthority unicode sha256 catalog descriptorPool schemaBundle
        catalogRevision cursorAuthority =
      (HierarchyIndex.build entries catalog (childMap catalog) >>= fun hierarchy =>
        .ok ⟨catalog, entries, childMap catalog, hierarchy, descriptorPool, schemaBundle,
          sha256 schemaBundle, catalogRevision, .build unicode catalog.entries,
          cursorAuthority⟩) := by
  obtain ⟨entries, hentries, hindexes⟩ := indexEntries_ok h.kind h.unique
  have hchildren : catalog.entries.foldlM (addChild catalog entries) ∅ = .ok _ :=
    (addChildren_iff catalog.entries ∅).mpr
      ⟨fun entry hentry => (validateParent_iff hindexes).mpr (h.parent entry hentry), rfl⟩
  have htopLevel : catalog.topLevelTopicIds.forM (validateTopLevelTopic catalog entries) = .ok () :=
    forM_eq_ok.mpr fun id hid => (validateTopLevelTopic_iff hindexes).mpr (h.topLevel id hid)
  refine ⟨entries, hindexes, ?_⟩
  rw [CatalogService.withCursorAuthority, hentries]
  dsimp only [bind, Except.bind]
  rw [hchildren]
  dsimp only
  rw [htopLevel]
  rfl

end

/-- A service opens exactly when the catalog is listed and the parents of its entries end at roots;
a listed catalog that does not open has a cycle for its only error. In an open service the test on
two ranges holds exactly when one entry is the other or lies below it. -/
theorem hierarchy_exact {μ : Type} (unicode : Unicode) (sha256 : List UInt8 → Hash)
    (catalog : Catalog) (descriptorPool : DescriptorPool μ) (schemaBundle : List UInt8)
    (catalogRevision : Hash) (cursorAuthority : CursorAuthority)
    (hlength : catalog.entries.length < 2 ^ 64) :
    ((∃ service, CatalogService.withCursorAuthority unicode sha256 catalog descriptorPool
        schemaBundle catalogRevision cursorAuthority = .ok service) ↔
      Listed catalog ∧ Rootedness catalog) ∧
    (Listed catalog → ¬Rootedness catalog →
      CatalogService.withCursorAuthority unicode sha256 catalog descriptorPool schemaBundle
        catalogRevision cursorAuthority = .error (.error cycleError)) ∧
    ∀ service, CatalogService.withCursorAuthority unicode sha256 catalog descriptorPool
        schemaBundle catalogRevision cursorAuthority = .ok service →
      ∀ ancestorId candidateId, service.hierarchy.contains ancestorId candidateId = true ↔
        ancestorId ∈ catalogIds catalog ∧ candidateId ∈ catalogIds catalog ∧
          Within (parentOf catalog.entries) candidateId ancestorId := by
  refine ⟨⟨?_, ?_⟩, fun hlisted hnot => ?_, fun service hok => ?_⟩
  · rintro ⟨service, hok⟩
    obtain ⟨hlisted, entries, hindexes, hbuild⟩ := listed_of_ok hok
    exact ⟨hlisted, (build_iff hlisted hindexes getD_childMap hlength).mp ⟨_, hbuild⟩⟩
  · rintro ⟨hlisted, hrooted⟩
    obtain ⟨entries, hindexes, hopening⟩ := hlisted.opening unicode sha256 descriptorPool
      schemaBundle catalogRevision cursorAuthority
    obtain ⟨hierarchy, hbuild⟩ := (build_iff hlisted hindexes getD_childMap hlength).mpr hrooted
    exact ⟨_, hopening.trans (bind_ok.mpr ⟨hierarchy, hbuild, rfl⟩)⟩
  · obtain ⟨entries, hindexes, hopening⟩ := hlisted.opening unicode sha256 descriptorPool
      schemaBundle catalogRevision cursorAuthority
    rcases build_cases hindexes getD_childMap with hbuild | hbuild
    · exact absurd ((build_iff hlisted hindexes getD_childMap hlength).mp hbuild) hnot
    · rw [hopening, hbuild]
      rfl
  · obtain ⟨hlisted, entries, hindexes, hbuild⟩ := listed_of_ok hok
    exact contains_iff hlisted hindexes getD_childMap hbuild

namespace TestVectors

/-- Two topics, each the parent of the other. -/
def tangledCatalog : Catalog :=
  ⟨1, "test.tangled", some ⟨1, 0⟩, "Tangled", ["Two topics.", "Each is below the other."], [],
    [topic "first" "second", topic "second" "first"]⟩

def openTest (catalog : Catalog) : Outcome (CatalogService Unit) :=
  CatalogService.withCursorAuthority ⟨id, Char.isAlphanum, fun c => [c.toLower]⟩
    (fun _ => .replicate 32 0) catalog calendarPool [] (.replicate 32 1) ⟨.replicate 32 2⟩

theorem hierarchy_exact_calendar :
    (∃ service, openTest calendarCatalog = .ok service ∧
      service.hierarchy.contains "calendar" "events.list" = true) ∧
      (Listed tangledCatalog → ¬Rootedness tangledCatalog) := by
  have hexact := fun catalog => hierarchy_exact ⟨id, Char.isAlphanum, fun c => [c.toLower]⟩
    (fun _ => .replicate 32 0) catalog calendarPool [] (.replicate 32 1) ⟨.replicate 32 2⟩
  constructor
  · have hopens : (openTest calendarCatalog).isOk = true := by decide +kernel
    cases hservice : openTest calendarCatalog with
    | error stop =>
      rw [hservice] at hopens
      cases hopens
    | ok service =>
      have hcontains := (hexact calendarCatalog (by decide)).2.2 service hservice
      refine ⟨service, rfl, (hcontains "calendar" "events.list").mpr ⟨by decide, by decide, ?_⟩⟩
      exact .head (b := "events") (by decide) (.head (by decide) .refl)
  · intro hlisted hrooted
    have hfails : (openTest tangledCatalog).isOk = false := by decide +kernel
    obtain ⟨service, hservice⟩ := (hexact tangledCatalog (by decide)).1.mpr ⟨hlisted, hrooted⟩
    rw [show openTest tangledCatalog = .ok service from hservice] at hfails
    cases hfails

end TestVectors

end StoreCatalog
