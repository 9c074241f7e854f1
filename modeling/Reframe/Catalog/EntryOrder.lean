import Reframe.Catalog.Ranking

/-! The order in which a catalog lists its entries does not show: a service over the same entries in
another order opens as well, and answers every search and every listing alike. -/
namespace StoreCatalog
open Forest (Rooted Within)
open Package (Catalog CatalogEntry DescriptorPool parentOf)
open Run (bind_ok)

/-- The same entries and the same top-level topics, in any order. -/
structure SameEntries (catalog catalog' : Catalog) : Prop where
  entries : catalog.entries.Perm catalog'.entries
  topLevel : ∀ id, id ∈ catalog.topLevelTopicIds ↔ id ∈ catalog'.topLevelTopicIds

section

variable {catalog catalog' : Catalog}

theorem SameEntries.symm (h : SameEntries catalog catalog') : SameEntries catalog' catalog :=
  ⟨h.entries.symm, fun id => (h.topLevel id).symm⟩

theorem SameEntries.parentOf (h : SameEntries catalog catalog')
    (hunique : (catalog.entries.map CatalogEntry.id).Nodup) :
    parentOf catalog.entries = parentOf catalog'.entries := by
  have hunique' : (catalog'.entries.map CatalogEntry.id).Nodup :=
    (h.entries.map CatalogEntry.id).nodup_iff.mp hunique
  funext id
  by_cases hid : id ∈ catalogIds catalog
  · obtain ⟨entry, hentry, rfl⟩ := mem_catalogIds.mp hid
    rw [parentOf_id hunique hentry, parentOf_id hunique' (h.entries.mem_iff.mp hentry)]
  · have hnone : ∀ entries : List CatalogEntry, (∀ entry ∈ entries, entry.id ≠ id) →
        Package.parentOf entries id = none := by
      intro entries hentries
      rw [Package.parentOf, List.find?_eq_none.mpr fun entry hentry hsame =>
        hentries entry hentry (of_decide_eq_true hsame)]
      rfl
    have habsent : ∀ entry ∈ catalog.entries, entry.id ≠ id :=
      fun entry hentry hsame => hid (mem_catalogIds.mpr ⟨entry, hentry, hsame⟩)
    rw [hnone _ habsent, hnone _ fun entry hentry => habsent entry (h.entries.mem_iff.mpr hentry)]

theorem Listed.perm (hlisted : Listed catalog) (h : SameEntries catalog catalog') :
    Listed catalog' where
  kind entry hentry := hlisted.kind entry (h.entries.mem_iff.mpr hentry)
  unique := (h.entries.map CatalogEntry.id).nodup_iff.mp hlisted.unique
  parent entry hentry hroot := by
    obtain ⟨parent, hparent, hboth⟩ := hlisted.parent entry (h.entries.mem_iff.mpr hentry) hroot
    exact ⟨parent, h.entries.mem_iff.mp hparent, hboth⟩
  topLevel id hid := by
    obtain ⟨entry, hentry, hboth⟩ := hlisted.topLevel id ((h.topLevel id).mpr hid)
    exact ⟨entry, h.entries.mem_iff.mp hentry, hboth⟩

theorem Rootedness.perm (hrooted : Rootedness catalog) (h : SameEntries catalog catalog')
    (hunique : (catalog.entries.map CatalogEntry.id).Nodup) : Rootedness catalog' := by
  intro entry hentry
  rw [← h.parentOf hunique]
  exact hrooted entry (h.entries.mem_iff.mpr hentry)

theorem Found.perm {unicode : Unicode} {queryTerms : List String} {kinds : List CapabilityKind}
    {topic : String} {entry : CatalogEntry} (h : SameEntries catalog catalog')
    (hunique : (catalog.entries.map CatalogEntry.id).Nodup)
    (hfound : Found unicode catalog queryTerms kinds topic entry) :
    Found unicode catalog' queryTerms kinds topic entry where
  listed := h.entries.mem_iff.mp hfound.listed
  kind := hfound.kind
  below := by
    rw [← h.parentOf hunique]
    exact hfound.below
  occurs := hfound.occurs

end

/-- Two lists with the same entries in one strict order are equal. -/
theorem eq_of_strict_order {R : CatalogEntry → CatalogEntry → Prop} {found found' : List CatalogEntry}
    (hasymm : ∀ left right, R left right → ¬R right left) (hsorted : found.Pairwise R)
    (hsorted' : found'.Pairwise R) (h : ∀ entry, entry ∈ found ↔ entry ∈ found') :
    found = found' := by
  have hne : ∀ {left right}, R left right → left ≠ right := by
    rintro left _ hR rfl
    exact hasymm left left hR hR
  refine ((List.perm_ext_iff_of_nodup (hsorted.imp hne) (hsorted'.imp hne)).mpr h).eq_of_pairwise
    (fun left right _ _ hlr hrl => absurd hrl (hasymm left right hlr)) hsorted hsorted'

theorem Precedes.asymm {unicode : Unicode} {queryTerms : List String} {left right : CatalogEntry}
    (h : Precedes unicode queryTerms left right) : ¬Precedes unicode queryTerms right left := by
  rintro (hlt | ⟨heq, hid⟩)
  · rcases h with hlt' | ⟨heq', -⟩
    · exact lt_asymm hlt hlt'
    · exact hlt.ne heq'
  · rcases h with hlt' | ⟨-, hid'⟩
    · exact hlt'.ne heq
    · exact lt_asymm hid hid'

section

variable {μ μ' : Type} {service : CatalogService μ} {service' : CatalogService μ'}
  {sha256 : List UInt8 → Hash}

/-! What a page reads of a service are its entries, its revision and its cursors. -/

theorem ensureAnyTopic_congr (hentry : service.entry = service'.entry) (topicId : String) :
    service.ensureAnyTopic topicId = service'.ensureAnyTopic topicId := by
  rw [CatalogService.ensureAnyTopic, CatalogService.ensureAnyTopic, CatalogService.ensureTopic,
    CatalogService.ensureTopic, hentry]

theorem pageOffset_congr (hrevision : service.revision = service'.revision)
    (hcursor : service.cursor = service'.cursor) (cursor : String) (operation : Operation)
    (binding : Hash) : service.pageOffset sha256 cursor operation binding =
      service'.pageOffset sha256 cursor operation binding := by
  rw [CatalogService.pageOffset, CatalogService.pageOffset, hrevision, hcursor]

theorem takeHits_congr (hentry : service.entry = service'.entry) (limit budget : ℕ) :
    ∀ (candidates : List String) (position : ℕ) (hits : List CatalogHit) (used : ℕ),
      service.takeHits limit budget candidates position hits used =
        service'.takeHits limit budget candidates position hits used := by
  intro candidates
  induction candidates with
  | nil => exact fun _ _ _ => rfl
  | cons id candidates ih =>
    intro position hits used
    simp only [CatalogService.takeHits, hentry, ih]

theorem page_congr (hentry : service.entry = service'.entry)
    (hrevision : service.revision = service'.revision) (hcursor : service.cursor = service'.cursor)
    (operation : Operation) (binding : Hash) (candidates : List String) (offset : ℕ)
    (limit byteBudget : UInt32) :
    service.page sha256 operation binding candidates offset limit byteBudget =
      service'.page sha256 operation binding candidates offset limit byteBudget := by
  simp only [CatalogService.page, CatalogService.boundedHits, takeHits_congr hentry, hrevision,
    hcursor]

/-- Services with the same entries under the same ids find the same entry for every id. -/
theorem CatalogService.Opened.entry_congr (h : service.Opened) (h' : service'.Opened)
    (hsame : service.catalog.entries.Perm service'.catalog.entries) :
    service.entry = service'.entry := by
  funext id
  by_cases hid : id ∈ catalogIds service.catalog
  · obtain ⟨entry, hentry, rfl⟩ := mem_catalogIds.mp hid
    rw [h.entry_ok hentry, h'.entry_ok (hsame.mem_iff.mp hentry)]
  · have habsent : ∀ {ν : Type} (other : CatalogService ν), other.Opened →
        id ∉ catalogIds other.catalog → other.entry id = fail (.capabilityNotFound id) := by
      intro ν other hother hid
      rw [catalogIds, ← hother.indexes.keys, FiniteMap.mem_keys, Option.not_isSome_iff_eq_none] at hid
      rw [CatalogService.entry, hid, Option.bind_none]
    have hid' : id ∉ catalogIds service'.catalog := by
      rw [mem_catalogIds] at hid ⊢
      rintro ⟨entry, hentry, hsameId⟩
      exact hid ⟨entry, hsame.mem_iff.mpr hentry, hsameId⟩
    rw [habsent service h hid, habsent service' h' hid']

end

section

variable {μ : Type} {unicode : Unicode} {sha256 : List UInt8 → Hash} {catalog catalog' : Catalog}
  {descriptorPool : DescriptorPool μ} {schemaBundle : List UInt8} {catalogRevision : Hash}
  {cursorAuthority : CursorAuthority} {service service' : CatalogService μ}

theorem searchCandidates_perm (hsame : SameEntries catalog catalog')
    (h : CatalogService.withCursorAuthority unicode sha256 catalog descriptorPool schemaBundle
      catalogRevision cursorAuthority = .ok service)
    (h' : CatalogService.withCursorAuthority unicode sha256 catalog' descriptorPool schemaBundle
      catalogRevision cursorAuthority = .ok service')
    (queryTerms : List String) (kinds : List CapabilityKind) (topic : String) :
    service.searchCandidates queryTerms kinds topic =
      service'.searchCandidates queryTerms kinds topic := by
  obtain ⟨hlisted, entries, hindexes, hbuild⟩ := listed_of_ok h
  obtain ⟨hlisted', entries', hindexes', hbuild'⟩ := listed_of_ok h'
  obtain ⟨rfl, hindex, -⟩ := built_of_ok h
  obtain ⟨rfl, hindex', -⟩ := built_of_ok h'
  obtain ⟨found, hfound, hmem, hsorted⟩ := (opened_of_ok h).searchCandidates_found hindex
    (contains_iff hlisted hindexes getD_childMap hbuild) hlisted.parents queryTerms kinds topic
  obtain ⟨found', hfound', hmem', hsorted'⟩ := (opened_of_ok h').searchCandidates_found hindex'
    (contains_iff hlisted' hindexes' getD_childMap hbuild') hlisted'.parents queryTerms kinds topic
  have heq : found = found' := eq_of_strict_order (fun _ _ => Precedes.asymm) hsorted hsorted'
    fun entry => by
      rw [hmem, hmem']
      exact ⟨Found.perm hsame hlisted.unique, Found.perm hsame.symm hlisted'.unique⟩
  rw [hfound, hfound', heq]

theorem browseCandidates_perm (hsame : SameEntries catalog catalog')
    (h : CatalogService.withCursorAuthority unicode sha256 catalog descriptorPool schemaBundle
      catalogRevision cursorAuthority = .ok service)
    (h' : CatalogService.withCursorAuthority unicode sha256 catalog' descriptorPool schemaBundle
      catalogRevision cursorAuthority = .ok service')
    (kinds : List CapabilityKind) (parent : String) :
    service.browseCandidates kinds parent = service'.browseCandidates kinds parent := by
  obtain ⟨rfl, -⟩ := built_of_ok h
  obtain ⟨rfl, -⟩ := built_of_ok h'
  obtain ⟨found, hfound, hmem, hsorted⟩ := (opened_of_ok h).browseCandidates_found kinds parent
  obtain ⟨found', hfound', hmem', hsorted'⟩ :=
    (opened_of_ok h').browseCandidates_found kinds parent
  have heq : found = found' := eq_of_strict_order (fun _ _ => lt_asymm) hsorted hsorted'
    fun entry => by rw [hmem, hmem', hsame.entries.mem_iff]
  rw [hfound, hfound', heq]

end

/-- A catalog opens in every order of its entries, and every search and every listing has the same
response, or the same error, whatever that order is. -/
theorem discovery_entry_order {μ : Type} (unicode : Unicode) (sha256 : List UInt8 → Hash)
    {catalog catalog' : Catalog} (descriptorPool : DescriptorPool μ) (schemaBundle : List UInt8)
    (catalogRevision : Hash) (cursorAuthority : CursorAuthority)
    (hlength : catalog.entries.length < 2 ^ 64) (hsame : SameEntries catalog catalog')
    {service : CatalogService μ}
    (h : CatalogService.withCursorAuthority unicode sha256 catalog descriptorPool schemaBundle
      catalogRevision cursorAuthority = .ok service) :
    ∃ service', CatalogService.withCursorAuthority unicode sha256 catalog' descriptorPool
        schemaBundle catalogRevision cursorAuthority = .ok service' ∧
      (∀ request, service'.searchCatalog unicode sha256 request =
        service.searchCatalog unicode sha256 request) ∧
      ∀ request, service'.browseCatalog sha256 request = service.browseCatalog sha256 request := by
  obtain ⟨hlisted, entries, hindexes, hbuild⟩ := listed_of_ok h
  have hlisted' := hlisted.perm hsame
  have hrooted' := ((build_iff hlisted hindexes getD_childMap hlength).mp ⟨_, hbuild⟩).perm hsame
    hlisted.unique
  obtain ⟨entries', hindexes', hopening⟩ := hlisted'.opening unicode sha256 descriptorPool
    schemaBundle catalogRevision cursorAuthority
  obtain ⟨hierarchy', hbuild'⟩ := (build_iff hlisted' hindexes' getD_childMap
    (hsame.entries.length_eq ▸ hlength)).mpr hrooted'
  have h' := hopening.trans (bind_ok.mpr ⟨hierarchy', hbuild', rfl⟩)
  refine ⟨_, h', fun request => ?_, fun request => ?_⟩
  all_goals
    have hsearch := searchCandidates_perm hsame h h'
    have hbrowse := browseCandidates_perm hsame h h'
    have hopened := opened_of_ok h
    have hopened' := opened_of_ok h'
    obtain ⟨hcatalog, -, hrevision, hcursor⟩ := built_of_ok h
    obtain ⟨hcatalog', -, hrevision', hcursor'⟩ := built_of_ok h'
    have hentry := hopened.entry_congr hopened' (by rw [hcatalog]; exact hsame.entries)
    have hrevision := hrevision'.trans hrevision.symm
    have hcursor := hcursor'.trans hcursor.symm
  · simp only [CatalogService.searchCatalog, ensureAnyTopic_congr hentry.symm,
      pageOffset_congr hrevision hcursor, page_congr hentry.symm hrevision hcursor, hsearch]
  · simp only [CatalogService.browseCatalog, ensureAnyTopic_congr hentry.symm,
      pageOffset_congr hrevision hcursor, page_congr hentry.symm hrevision hcursor, hbrowse]

namespace TestVectors

/-- The calendar with its function before its topics. -/
def shuffledCatalog : Catalog := { calendarCatalog with entries := calendarCatalog.entries.reverse }

theorem discovery_entry_order_calendar : ∃ service service',
    openCalendar asciiTables foldHash = .ok service ∧
      CatalogService.withCursorAuthority asciiTables foldHash shuffledCatalog calendarPool []
        (.replicate 32 1) ⟨.replicate 32 2⟩ = .ok service' ∧
      ∀ request, service'.searchCatalog asciiTables foldHash request =
        service.searchCatalog asciiTables foldHash request := by
  have hopens : (openCalendar asciiTables foldHash).isOk = true := by decide +kernel
  cases hservice : openCalendar asciiTables foldHash with
  | error stop =>
    rw [hservice] at hopens
    cases hopens
  | ok service =>
    have hsame : SameEntries calendarCatalog shuffledCatalog :=
      ⟨(List.reverse_perm _).symm, fun _ => Iff.rfl⟩
    obtain ⟨service', hservice', hsearch, -⟩ := discovery_entry_order asciiTables foldHash
      calendarPool [] (.replicate 32 1) ⟨.replicate 32 2⟩ (by decide) hsame hservice
    exact ⟨service, service', rfl, hservice', hsearch⟩

end TestVectors

end StoreCatalog
