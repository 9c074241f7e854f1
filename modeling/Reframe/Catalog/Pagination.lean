import Reframe.Catalog.Discovery
import Reframe.Catalog.Opening
import Reframe.Lib.Paging

/-! Following the cursors of a search or a listing reads its candidates once and in order. -/
namespace StoreCatalog
open Package (Catalog CatalogEntry DescriptorPool)
open Paging (follow Ended PageAt)
open Run (Stop bind_ok map_eq_ok)

/-- What holds of a service that was opened. -/
structure CatalogService.Opened {μ : Type} (service : CatalogService μ) : Prop where
  kinds : ∀ entry ∈ service.catalog.entries, entry.kind.isSome = true
  unique : (service.catalog.entries.map CatalogEntry.id).Nodup
  indexes : Indexes service.entries service.catalog
  children : ∀ id, (service.children.get? id).getD [] = childrenOf service.catalog id
  entryIds : service.index.entryIds = service.catalog.entries.map CatalogEntry.id
  bounded : service.catalog.entries.length < 2 ^ 64

section

variable {catalog : Catalog} {entries : FiniteMap String ℕ}

theorem bounded_of_build {children : FiniteMap String (List String)} {hierarchy : HierarchyIndex}
    (h : HierarchyIndex.build entries catalog children = .ok hierarchy) : entries.size < 2 ^ 64 := by
  obtain ⟨ranges, hwalk, h⟩ := bind_ok.mp h
  split_ifs at h with hsize
  · have hcard := Forest.numberNodes_card_le _ _ _ _ _ (Nat.zero_le _) (Nat.zero_le _) hwalk
    rw [FiniteMap.card_keys, hsize] at hcard
    omega
  · cases h

end

theorem opened_of_ok {μ : Type} {unicode : Unicode} {sha256 : List UInt8 → Hash}
    {catalog : Catalog} {descriptorPool : DescriptorPool μ} {schemaBundle : List UInt8}
    {catalogRevision : Hash} {cursorAuthority : CursorAuthority} {service : CatalogService μ}
    (h : CatalogService.withCursorAuthority unicode sha256 catalog descriptorPool schemaBundle
      catalogRevision cursorAuthority = .ok service) : service.Opened := by
  obtain ⟨entries, hentries, h⟩ := bind_ok.mp h
  obtain ⟨children, hchildren, h⟩ := bind_ok.mp h
  obtain ⟨_, -, h⟩ := bind_ok.mp h
  obtain ⟨hierarchy, hbuild, h⟩ := bind_ok.mp h
  cases h
  obtain ⟨hkinds, hunique, hindexes⟩ := indexEntries_eq_ok hentries
  obtain ⟨-, rfl⟩ := (addChildren_iff _ _).mp hchildren
  refine ⟨hkinds, hunique, hindexes, getD_childMap, rfl, ?_⟩
  have hbounded := bounded_of_build hbuild
  rwa [← FiniteMap.card_keys, hindexes.keys, List.toFinset_card_of_nodup hunique,
    List.length_map] at hbounded

section

variable {μ : Type} {service : CatalogService μ}

/-- The hit of an id. -/
def CatalogService.hit (service : CatalogService μ) (id : String) : Outcome CatalogHit := do
  let entry ← service.entry id
  catalogHit entry

theorem catalogHit_ok {entry : CatalogEntry} (h : entry.kind.isSome = true) :
    ∃ hit, catalogHit entry = .ok hit ∧ hit.id = entry.id := by
  obtain ⟨kind, hkind⟩ := Option.isSome_iff_exists.mp h
  cases kind <;> exact ⟨_, by rw [catalogHit, entryKind, hkind]; rfl, rfl⟩

theorem CatalogService.Opened.entry_ok (h : service.Opened) {entry : CatalogEntry}
    (hentry : entry ∈ service.catalog.entries) : service.entry entry.id = .ok entry := by
  obtain ⟨position, hget, hposition⟩ := h.indexes.get? hentry
  rw [CatalogService.entry, hget, Option.bind_some, hposition]

/-- Candidates that are ids of the catalog have hits. -/
theorem CatalogService.Opened.hits (h : service.Opened) :
    ∀ candidates : List String, (∀ id ∈ candidates, id ∈ catalogIds service.catalog) →
      ∃ hits : List CatalogHit, candidates.map service.hit = hits.map .ok ∧ hits.map CatalogHit.id = candidates := by
  intro candidates
  induction candidates with
  | nil => exact fun _ => ⟨[], rfl, rfl⟩
  | cons id candidates ih =>
    intro hids
    rw [List.forall_mem_cons] at hids
    obtain ⟨hits, hhits, hsame⟩ := ih hids.2
    obtain ⟨entry, hentry, rfl⟩ := mem_catalogIds.mp hids.1
    obtain ⟨hit, hhit, hid⟩ := catalogHit_ok (h.kinds entry hentry)
    refine ⟨hit :: hits, ?_, by rw [List.map_cons, hsame, hid]⟩
    rw [List.map_cons, List.map_cons, hhits, CatalogService.hit, h.entry_ok hentry]
    exact congrArg (· :: _) hhit

/-! One page. -/

/-- The loop takes the hits of the next candidates, within the limit and the budget, and takes at
least one where there is one. -/
theorem takeHits_ok {limit budget : ℕ} (hbudget : budget < 2 ^ 64 - 1) :
    ∀ (candidates : List String) (all : List CatalogHit) (position : ℕ) (hits : List CatalogHit)
      (used : ℕ) (hits' : List CatalogHit) (position' : ℕ),
      candidates.map service.hit = all.map .ok → hits.length ≤ limit →
      (hits.map CatalogHit.encodedLen).sum = used → used ≤ budget →
      service.takeHits limit budget candidates position hits used = .ok (hits', position') →
      ∃ taken, hits' = hits ++ taken ∧ taken = all.take taken.length ∧
        position' = position + taken.length ∧ hits'.length ≤ limit ∧
        (hits'.map CatalogHit.encodedLen).sum ≤ budget ∧
        (0 < limit → hits = [] → candidates ≠ [] → taken ≠ []) := by
  intro candidates
  induction candidates with
  | nil =>
    intro all position hits used hits' position' _ hlimit hused hle h
    cases h
    exact ⟨[], by simp, by simp, rfl, hlimit, hused ▸ hle, fun _ _ hne => absurd rfl hne⟩
  | cons id candidates ih =>
    intro all position hits used hits' position' hall hlimit hused hle h
    cases all with
    | nil => cases hall
    | cons hit all =>
      obtain ⟨hhit, hrest⟩ := List.cons.inj hall
      rw [CatalogService.takeHits] at h
      by_cases hroom : hits.length < limit
      · rw [if_pos hroom] at h
        obtain ⟨entry, hentry, h⟩ := bind_ok.mp h
        obtain ⟨hit', hhit', h⟩ := bind_ok.mp h
        have hsame : hit' = hit := by
          have := hhit
          rw [CatalogService.hit, hentry] at this
          exact Except.ok.inj (hhit'.symm.trans this)
        subst hsame
        simp only at h
        by_cases hover : budget < min (used + hit'.encodedLen) (2 ^ 64 - 1)
        · rw [if_pos hover] at h
          split_ifs at h with hempty
          · cases h
          · cases h
            exact ⟨[], by simp, by simp, rfl, hlimit, hused ▸ hle,
              fun _ hnil _ => absurd hnil hempty⟩
        · rw [if_neg hover] at h
          obtain ⟨taken, hhits', htaken, hposition', hlength, hsum, -⟩ :=
            ih all _ _ _ _ _ hrest (by rw [List.length_append]; exact hroom)
              (by rw [List.map_append, List.sum_append, hused]; simp) (by omega) h
          refine ⟨hit' :: taken, ?_, ?_, ?_, hlength, hsum, fun _ _ _ => List.cons_ne_nil _ _⟩
          · rw [hhits', List.append_assoc]
            rfl
          · rw [List.length_cons, List.take_succ_cons, ← htaken]
          · rw [hposition', List.length_cons]
            omega
      · rw [if_neg hroom] at h
        cases h
        refine ⟨[], by simp, by simp, rfl, hlimit, hused ▸ hle, fun hpos hnil _ => ?_⟩
        rw [hnil, List.length_nil] at hroom
        exact absurd hpos hroom

/-- A page without its revision: the hits and the cursor of the next page, if there is one. -/
def CatalogPage.next (page : CatalogPage) : List CatalogHit × Option String :=
  (page.hits, if page.nextCursor = "" then none else some page.nextCursor)

/-- A cursor stands for the offset it is decoded to. -/
def Points (service : CatalogService μ) (sha256 : List UInt8 → Hash) (operation : Operation)
    (binding : Hash) (cursor : String) (offset : ℕ) : Prop :=
  service.pageOffset sha256 cursor operation binding = .ok offset

/-- What a page may hold. -/
structure WithinLimits (limit byteBudget : UInt32) (hits : List CatalogHit) : Prop where
  limit : hits.length ≤ normalizedLimit limit
  budget : (hits.map CatalogHit.encodedLen).sum ≤ listBudget byteBudget

theorem normalizedLimit_pos (limit : UInt32) : 0 < normalizedLimit limit := by
  rw [normalizedLimit]
  split_ifs with h
  · decide
  · have hpos : limit.toNat ≠ 0 := fun hzero => h (UInt32.toNat_inj.mp hzero)
    exact lt_min (Nat.pos_of_ne_zero hpos) (by decide)

theorem listBudget_lt (byteBudget : UInt32) : listBudget byteBudget < 2 ^ 64 - 1 := by
  rw [listBudget]
  split_ifs
  · decide
  · have := byteBudget.toNat_lt
    omega

variable {sha256 : List UInt8 → Hash} {operation : Operation} {binding : Hash}
  {candidates : List String} {all : List CatalogHit} {offset : ℕ}
  {limit byteBudget : UInt32} {page : CatalogPage}

/-- A page holds the hits from its offset on, and its cursor points after them. -/
theorem page_ok (hall : candidates.map service.hit = all.map .ok) (hbounded : all.length < 2 ^ 64)
    (h : service.page sha256 operation binding candidates offset limit byteBudget = .ok page) :
    PageAt (Points service sha256 operation binding) all offset page.next ∧
      WithinLimits limit byteBudget page.hits := by
  have hlengths : candidates.length = all.length := by
    have := congrArg List.length hall
    rwa [List.length_map, List.length_map] at this
  obtain ⟨⟨hits, next⟩, hbound, h⟩ := bind_ok.mp h
  rw [CatalogService.boundedHits] at hbound
  split_ifs at hbound with hoffset
  · cases hbound
  obtain ⟨⟨hits', position⟩, htake, hbound⟩ := bind_ok.mp hbound
  cases hbound
  have hdrop : (candidates.drop offset).map service.hit = (all.drop offset).map .ok := by
    rw [List.map_drop, hall, List.map_drop]
  obtain ⟨taken, hhits, htaken, hposition, hlength, hsum, hprogress⟩ :=
    takeHits_ok (listBudget_lt byteBudget) _ _ _ _ _ _ _ hdrop (Nat.zero_le _) rfl (Nat.zero_le _) htake
  rw [List.nil_append] at hhits
  subst hhits
  cases h
  have hne : service.cursor.encode sha256 operation position service.revision binding ≠ "" :=
    CursorAuthority.encode_ne_empty _ _ _ _ _ _
  refine ⟨⟨htaken, ?_, ?_⟩, ⟨hlength, hsum⟩⟩
  · intro hnone
    by_contra hmore
    have hlt : position < candidates.length := by
      simp only [CatalogPage.next] at hmore
      omega
    simp only [CatalogPage.next, if_pos hlt] at hnone
    rw [if_neg hne] at hnone
    cases hnone
  · intro next hnext
    simp only [CatalogPage.next] at hnext ⊢
    by_cases hlt : position < candidates.length
    · rw [if_pos hlt] at hnext
      simp only at hnext
      rw [if_neg hne] at hnext
      cases hnext
      refine ⟨?_, hprogress (normalizedLimit_pos limit) rfl ?_, by omega⟩
      · rw [Points, CatalogService.pageOffset, if_neg hne,
          CursorAuthority.decode_encode _ _ _ _ _ (by omega), hposition]
      · intro hnil
        have := congrArg List.length hnil
        rw [List.length_drop, List.length_nil] at this
        omega
    · rw [if_neg hlt] at hnext
      cases hnext

/-! Candidates. -/

theorem retain_ok {keep : String → Outcome Bool} :
    ∀ ids : List String, (∀ id ∈ ids, ∃ kept, keep id = .ok kept) →
      retain keep ids = .ok (ids.filter fun id => keep id = .ok true) := by
  intro ids
  induction ids with
  | nil => exact fun _ => rfl
  | cons id ids ih =>
    intro hkeep
    rw [List.forall_mem_cons] at hkeep
    obtain ⟨kept, hkept⟩ := hkeep.1
    refine bind_ok.mpr ⟨kept, hkept, bind_ok.mpr ⟨_, ih hkeep.2, ?_⟩⟩
    rw [List.filter_cons, hkept]
    cases kept <;> rfl

theorem CatalogService.Opened.expectEntry_ok (h : service.Opened) {id : String}
    (hid : id ∈ catalogIds service.catalog) :
    ∃ entry ∈ service.catalog.entries, entry.id = id ∧ service.expectEntry id = .ok entry := by
  obtain ⟨entry, hentry, rfl⟩ := mem_catalogIds.mp hid
  exact ⟨entry, hentry, rfl, by rw [CatalogService.expectEntry, h.entry_ok hentry]⟩

/-- The ids that a query ranks are ids of the catalog, each once. -/
theorem CatalogService.Opened.rank (h : service.Opened) (queryTerms : List String) :
    (service.index.rank queryTerms).Nodup ∧
      ∀ id ∈ service.index.rank queryTerms, id ∈ catalogIds service.catalog := by
  have hscored : ((service.index.scores queryTerms).toList.filterMap fun scored =>
      service.index.entryIds[scored.1]?.map fun id => (id, scored.2)).map Prod.fst =
      ((service.index.scores queryTerms).toList.map Prod.fst).filterMap fun entryIndex =>
        service.index.entryIds[entryIndex]? := by
    rw [List.map_filterMap, List.filterMap_map]
    simp only [Option.map_map, Function.comp_def, Option.map_id']
  have hperm : (service.index.rank queryTerms).Perm
      (((service.index.scores queryTerms).toList.map Prod.fst).filterMap fun entryIndex =>
        service.index.entryIds[entryIndex]?) := by
    rw [SearchIndex.rank, ← hscored]
    exact (List.perm_insertionSort _ _).map _
  constructor
  · rw [hperm.nodup_iff]
    refine List.Nodup.filterMap (fun i j id hi hj => ?_)
      (service.index.scores queryTerms).toList_nodup_keys
    rw [h.entryIds] at hi hj
    obtain ⟨hlt, -⟩ := List.getElem?_eq_some_iff.mp hi
    exact (List.getElem?_inj hlt h.unique).mp (hi.trans hj.symm)
  · intro id hid
    obtain ⟨entryIndex, -, hget⟩ := List.mem_filterMap.mp (hperm.mem_iff.mp hid)
    rw [h.entryIds] at hget
    rw [catalogIds, List.mem_toFinset]
    exact List.mem_of_getElem? hget

/-- A list of different ids of the catalog. -/
structure Candidates (service : CatalogService μ) (candidates : List String) : Prop where
  once : candidates.Nodup
  known : ∀ id ∈ candidates, id ∈ catalogIds service.catalog

theorem retain_candidates {keep : String → Outcome Bool} {ids : List String}
    (hids : Candidates service ids)
    (hkeep : ∀ id ∈ catalogIds service.catalog, ∃ kept, keep id = .ok kept) :
    ∃ candidates, retain keep ids = .ok candidates ∧ Candidates service candidates :=
  ⟨_, retain_ok ids fun id hid => hkeep id (hids.known id hid), hids.once.filter _,
    fun id hid => hids.known id (List.mem_of_mem_filter hid)⟩

theorem CatalogService.Opened.searchCandidates_ok (h : service.Opened) (terms : List String)
    (kinds : List CapabilityKind) (topic : String) :
    ∃ candidates, service.searchCandidates terms kinds topic = .ok candidates ∧
      Candidates service candidates := by
  refine retain_candidates ?_ fun id hid => ?_
  · split_ifs with hterms
    · refine ⟨(SortedSet.toSorted_sorted _).imp ne_of_lt, fun id hid => ?_⟩
      rwa [SortedSet.mem_toSorted, h.indexes.keys] at hid
    · exact ⟨(h.rank terms).1, (h.rank terms).2⟩
  · obtain ⟨entry, -, -, hentry⟩ := h.expectEntry_ok hid
    exact ⟨_, bind_ok.mpr ⟨entry, hentry, rfl⟩⟩

theorem CatalogService.Opened.browseCandidates_ok (h : service.Opened)
    (kinds : List CapabilityKind) (parent : String) :
    ∃ candidates, service.browseCandidates kinds parent = .ok candidates ∧
      Candidates service candidates := by
  refine retain_candidates ?_ fun id hid => ?_
  · rw [h.children]
    refine ⟨?_, fun id hid => ?_⟩
    · rw [childrenOf, sortIds, (List.perm_insertionSort _ _).nodup_iff]
      exact h.unique.sublist (List.filter_sublist.map _)
    · obtain ⟨entry, hentry, -, hid⟩ := mem_childrenOf.mp hid
      exact mem_catalogIds.mpr ⟨entry, hentry, hid⟩
  · obtain ⟨entry, -, -, hentry⟩ := h.expectEntry_ok hid
    exact ⟨_, bind_ok.mpr ⟨entry, hentry, rfl⟩⟩

theorem CatalogService.Opened.candidates_lt (h : service.Opened)
    (hcandidates : Candidates service candidates) : candidates.length < 2 ^ 64 := by
  have hsub : candidates.toFinset ⊆ catalogIds service.catalog :=
    fun id hid => hcandidates.known id (List.mem_toFinset.mp hid)
  have hcard := Finset.card_le_card hsub
  rw [List.toFinset_card_of_nodup hcandidates.once, catalogIds,
    List.toFinset_card_of_nodup h.unique, List.length_map] at hcard
  exact hcard.trans_lt h.bounded

end

/-! Runs over pages. -/

section

variable {μ : Type} (service : CatalogService μ) (sha256 : List UInt8 → Hash)

/-- The pages of a search, each with its own limit and byte budget. -/
def searchPages (unicode : Unicode) (query : String) (kinds : List ℤ) (topicId : String)
    (requests : List (UInt32 × UInt32)) :
    Outcome (List (List CatalogHit × Option String)) :=
  follow (fun request cursor => (service.searchCatalog unicode sha256
    ⟨query, kinds, topicId, request.1, request.2, cursor⟩).map CatalogPage.next) "" requests

/-- The pages of the children of a topic. -/
def browsePages (parentTopicId : String) (kinds : List ℤ) (requests : List (UInt32 × UInt32)) :
    Outcome (List (List CatalogHit × Option String)) :=
  follow (fun request cursor => (service.browseCatalog sha256
    ⟨parentTopicId, kinds, request.1, request.2, cursor⟩).map CatalogPage.next) "" requests

/-- The candidates of a query, as the pages of a search compute them. -/
def searchedIds (unicode : Unicode) (query : String) (kinds : List ℤ) (topicId : String) :
    Outcome (List String) := do
  let kinds ← normalizedKinds kinds
  service.searchCandidates (uniqueTerms unicode query) kinds (trim topicId)

/-- The candidates of a listing. -/
def browsedIds (parentTopicId : String) (kinds : List ℤ) : Outcome (List String) := do
  let kinds ← normalizedKinds kinds
  service.browseCandidates kinds (trim parentTopicId)

/-- The pages list the hits of the candidates in order and each once, all of them when the last
page has no cursor, which is the case after as many pages as there are candidates. -/
structure Complete (candidates : List String) (requests : List (UInt32 × UInt32))
    (pages : List (List CatalogHit × Option String)) : Prop where
  once : candidates.Nodup
  hits : ∃ hits : List CatalogHit, candidates.map service.hit = hits.map .ok ∧
    (pages.flatMap Prod.fst <+: hits) ∧ (Ended pages → pages.flatMap Prod.fst = hits)
  ends : candidates.length ≤ requests.length → requests ≠ [] → Ended pages
  within : pages.length ≤ requests.length ∧ ∀ pair ∈ requests.zip pages,
    WithinLimits pair.1.1 pair.1.2 pair.2.1 ∧ (pair.2.2 ≠ none → pair.2.1 ≠ [])

/-- It answers: with a value or with an error of its own. -/
def Answers {α : Type} (outcome : Outcome α) : Prop :=
  Run.Ensures (fun stop => ∃ error, stop = .error error) outcome fun _ => True

end

section

variable {μ : Type} {service : CatalogService μ} {sha256 : List UInt8 → Hash}

theorem complete_of_fetch (sha256 : List UInt8 → Hash) (h : service.Opened) {candidates : List String}
    (hcandidates : Candidates service candidates) (operation : Operation) (binding : Hash)
    {fetch : UInt32 × UInt32 → String → Outcome (List CatalogHit × Option String)}
    (hfetch : ∀ request cursor page, fetch request cursor = .ok page → ∃ offset response,
      service.pageOffset sha256 cursor operation binding = .ok offset ∧
        service.page sha256 operation binding candidates offset request.1 request.2 =
          .ok response ∧ response.next = page)
    {requests : List (UInt32 × UInt32)} {pages : List (List CatalogHit × Option String)}
    (hpages : follow fetch "" requests = .ok pages) : Complete service candidates requests pages := by
  obtain ⟨hits, hhits, hids⟩ := h.hits candidates hcandidates.known
  have hlength : hits.length = candidates.length := by rw [← hids, List.length_map]
  have hbounded : hits.length < 2 ^ 64 := hlength ▸ h.candidates_lt hcandidates
  obtain ⟨hleads, hall, hends⟩ := Paging.follow_reads (Points service sha256 operation binding)
    hits (fun request cursor offset page hcursor hpage => by
      obtain ⟨offset', response, hoffset, hresponse, rfl⟩ := hfetch request cursor page hpage
      cases hcursor.symm.trans hoffset
      exact (page_ok hhits hbounded hresponse).1) requests "" 0 pages rfl hpages
  refine ⟨hcandidates.once, ⟨hits, hhits, hleads, hall⟩, fun hle => ?_, ?_⟩
  · exact hends (by rw [hlength, Nat.zero_add]; exact hle)
  · refine Paging.follow_forall (fun request page => WithinLimits request.1 request.2 page.1 ∧
      (page.2 ≠ none → page.1 ≠ [])) (fun request cursor page hpage => ?_) requests "" pages hpages
    obtain ⟨offset, response, -, hresponse, rfl⟩ := hfetch request cursor page hpage
    obtain ⟨hat, hwithin⟩ := page_ok hhits hbounded hresponse
    refine ⟨hwithin, fun hmore => ?_⟩
    obtain ⟨next, hnext⟩ := Option.ne_none_iff_exists'.mp hmore
    exact (hat.continues next hnext).2.1

theorem search_complete (h : service.Opened) {unicode : Unicode} {query : String} {kinds : List ℤ}
    {topicId : String} {requests : List (UInt32 × UInt32)}
    {pages : List (List CatalogHit × Option String)} (hne : requests ≠ [])
    (hpages : searchPages service sha256 unicode query kinds topicId requests = .ok pages) :
    ∃ candidates, searchedIds service unicode query kinds topicId = .ok candidates ∧
      Complete service candidates requests pages := by
  cases hkinds : normalizedKinds kinds with
  | error stop =>
    obtain ⟨request, requests, rfl⟩ := List.exists_cons_of_ne_nil hne
    obtain ⟨page, hpage, -⟩ := Run.bind_eq_ok.mp hpages
    obtain ⟨response, hresponse, -⟩ := map_eq_ok.mp hpage
    rw [CatalogService.searchCatalog] at hresponse
    obtain ⟨parsed, hparsed, -⟩ := bind_ok.mp hresponse
    cases hkinds.symm.trans hparsed
  | ok parsed =>
    obtain ⟨candidates, hcandidates, hknown⟩ :=
      h.searchCandidates_ok (uniqueTerms unicode query) parsed (trim topicId)
    refine ⟨candidates, bind_ok.mpr ⟨parsed, hkinds, hcandidates⟩, ?_⟩
    refine complete_of_fetch sha256 h hknown .search
      (CatalogService.searchBinding sha256 (uniqueTerms unicode query) parsed (trim topicId)) (fun request cursor page hpage => ?_) hpages
    obtain ⟨response, hresponse, rfl⟩ := map_eq_ok.mp hpage
    rw [CatalogService.searchCatalog] at hresponse
    obtain ⟨parsed', hparsed, hresponse⟩ := bind_ok.mp hresponse
    cases hkinds.symm.trans hparsed
    obtain ⟨_, -, hresponse⟩ := bind_ok.mp hresponse
    obtain ⟨offset, hoffset, hresponse⟩ := bind_ok.mp hresponse
    obtain ⟨candidates', hcandidates', hresponse⟩ := bind_ok.mp hresponse
    cases hcandidates.symm.trans hcandidates'
    exact ⟨offset, response, hoffset, hresponse, rfl⟩

theorem browse_complete (h : service.Opened) {parentTopicId : String} {kinds : List ℤ}
    {requests : List (UInt32 × UInt32)} {pages : List (List CatalogHit × Option String)}
    (hne : requests ≠ [])
    (hpages : browsePages service sha256 parentTopicId kinds requests = .ok pages) :
    ∃ candidates, browsedIds service parentTopicId kinds = .ok candidates ∧
      Complete service candidates requests pages := by
  cases hkinds : normalizedKinds kinds with
  | error stop =>
    obtain ⟨request, requests, rfl⟩ := List.exists_cons_of_ne_nil hne
    obtain ⟨page, hpage, -⟩ := Run.bind_eq_ok.mp hpages
    obtain ⟨response, hresponse, -⟩ := map_eq_ok.mp hpage
    rw [CatalogService.browseCatalog] at hresponse
    obtain ⟨_, -, hresponse⟩ := bind_ok.mp hresponse
    obtain ⟨parsed, hparsed, -⟩ := bind_ok.mp hresponse
    cases hkinds.symm.trans hparsed
  | ok parsed =>
    obtain ⟨candidates, hcandidates, hknown⟩ := h.browseCandidates_ok parsed (trim parentTopicId)
    refine ⟨candidates, bind_ok.mpr ⟨parsed, hkinds, hcandidates⟩, ?_⟩
    refine complete_of_fetch sha256 h hknown .browse
      (CatalogService.browseBinding sha256 parsed (trim parentTopicId)) (fun request cursor page hpage => ?_) hpages
    obtain ⟨response, hresponse, rfl⟩ := map_eq_ok.mp hpage
    rw [CatalogService.browseCatalog] at hresponse
    obtain ⟨_, -, hresponse⟩ := bind_ok.mp hresponse
    obtain ⟨parsed', hparsed, hresponse⟩ := bind_ok.mp hresponse
    cases hkinds.symm.trans hparsed
    obtain ⟨offset, hoffset, hresponse⟩ := bind_ok.mp hresponse
    obtain ⟨candidates', hcandidates', hresponse⟩ := bind_ok.mp hresponse
    cases hcandidates.symm.trans hcandidates'
    exact ⟨offset, response, hoffset, hresponse, rfl⟩

/-! No request panics. -/

theorem answers_fail {α : Type} (error : CatalogError) : Answers (fail error : Outcome α) :=
  ⟨error, rfl⟩

theorem answers_ok {α : Type} (a : α) : Answers (.ok a : Outcome α) := trivial

theorem Answers.bind {α β : Type} {x : Outcome α} {f : α → Outcome β} (h : Answers x)
    (hf : ∀ a, Answers (f a)) : Answers (x >>= f) := Run.Ensures.bind' h fun a _ => hf a

theorem answers_entryKind (entry : CatalogEntry) : Answers (entryKind entry) := by
  rw [entryKind]
  split
  all_goals first | exact answers_ok _ | exact answers_fail _

theorem answers_entry (id : String) : Answers (service.entry id) := by
  rw [CatalogService.entry]
  split
  · exact answers_fail _
  · exact answers_ok _

theorem answers_normalizedKinds (values : List ℤ) : Answers (normalizedKinds values) := by
  refine Answers.bind ?_ fun _ => answers_ok _
  induction values with
  | nil => exact answers_ok _
  | cons value values ih =>
    rw [List.mapM_cons]
    refine Answers.bind ?_ fun _ => Answers.bind ih fun _ => answers_ok _
    rw [parseKind]
    split
    · exact answers_fail _
    · exact answers_fail _
    · exact answers_ok _

theorem answers_ensureTopic (topicId : String) : Answers (service.ensureTopic topicId) := by
  rw [CatalogService.ensureTopic]
  split
  · exact answers_fail _
  · refine Answers.bind (answers_entryKind _) fun kind => ?_
    split_ifs
    · exact answers_ok _
    · exact answers_fail _

theorem answers_ensureAnyTopic (topicId : String) : Answers (service.ensureAnyTopic topicId) := by
  rw [CatalogService.ensureAnyTopic]
  split_ifs
  · exact answers_ok _
  · exact answers_ensureTopic _

theorem answers_pageOffset (cursor : String) (operation : Operation) (binding : Hash) :
    Answers (service.pageOffset sha256 cursor operation binding) := by
  rw [CatalogService.pageOffset]
  split_ifs
  · exact answers_ok _
  · split
    · exact answers_ok _
    · exact answers_fail _

theorem answers_takeHits (limit budget : ℕ) :
    ∀ (candidates : List String) (position : ℕ) (hits : List CatalogHit) (used : ℕ),
      Answers (service.takeHits limit budget candidates position hits used) := by
  intro candidates
  induction candidates with
  | nil => exact fun _ _ _ => answers_ok _
  | cons id candidates ih =>
    intro position hits used
    rw [CatalogService.takeHits]
    by_cases hroom : hits.length < limit
    · rw [if_pos hroom]
      refine Answers.bind (answers_entry id) fun entry => Answers.bind ?_ fun hit => ?_
      · exact Answers.bind (answers_entryKind entry) fun _ => answers_ok _
      · by_cases hover : budget < min (used + hit.encodedLen) (2 ^ 64 - 1)
        · simp only [if_pos hover]
          split_ifs
          · exact answers_fail _
          · exact answers_ok _
        · simp only [if_neg hover]
          exact ih _ _ _
    · rw [if_neg hroom]
      exact answers_ok _

theorem answers_page (operation : Operation) (binding : Hash) (candidates : List String)
    (offset : ℕ) (limit byteBudget : UInt32) :
    Answers (service.page sha256 operation binding candidates offset limit byteBudget) := by
  refine Answers.bind ?_ fun _ => answers_ok _
  rw [CatalogService.boundedHits]
  split_ifs
  · exact answers_fail _
  · exact Answers.bind (answers_takeHits _ _ _ _ _ _) fun _ => answers_ok _

theorem CatalogService.Opened.answers_search (h : service.Opened) (unicode : Unicode)
    (request : SearchCatalogRequest) : Answers (service.searchCatalog unicode sha256 request) := by
  rw [CatalogService.searchCatalog]
  refine Answers.bind (answers_normalizedKinds _) fun kinds => ?_
  refine Answers.bind (answers_ensureAnyTopic _) fun _ => ?_
  refine Answers.bind (answers_pageOffset _ _ _) fun offset => ?_
  obtain ⟨candidates, hcandidates, -⟩ :=
    h.searchCandidates_ok (uniqueTerms unicode request.query) kinds (trim request.topicId)
  rw [hcandidates]
  exact answers_page _ _ _ _ _ _

theorem CatalogService.Opened.answers_browse (h : service.Opened)
    (request : BrowseCatalogRequest) : Answers (service.browseCatalog sha256 request) := by
  rw [CatalogService.browseCatalog]
  refine Answers.bind (answers_ensureAnyTopic _) fun _ => ?_
  refine Answers.bind (answers_normalizedKinds _) fun kinds => ?_
  refine Answers.bind (answers_pageOffset _ _ _) fun offset => ?_
  obtain ⟨candidates, hcandidates, -⟩ :=
    h.browseCandidates_ok kinds (trim request.parentTopicId)
  rw [hcandidates]
  exact answers_page _ _ _ _ _ _

end

/-- Following the cursors from the first page on lists the candidates of a search, or the children
of a topic, in order and each once. A page holds no more hits than its limit, their encoded lengths
add up to no more than its byte budget, and every page but the last holds a hit. -/
theorem pages_complete {μ : Type} {unicode : Unicode} {sha256 : List UInt8 → Hash}
    {catalog : Catalog} {descriptorPool : DescriptorPool μ} {schemaBundle : List UInt8}
    {catalogRevision : Hash} {cursorAuthority : CursorAuthority} {service : CatalogService μ}
    (h : CatalogService.withCursorAuthority unicode sha256 catalog descriptorPool schemaBundle
      catalogRevision cursorAuthority = .ok service) :
    (∀ query kinds topicId requests pages, requests ≠ [] →
      searchPages service sha256 unicode query kinds topicId requests = .ok pages →
      ∃ candidates, searchedIds service unicode query kinds topicId = .ok candidates ∧
        Complete service candidates requests pages) ∧
      (∀ parentTopicId kinds requests pages, requests ≠ [] →
        browsePages service sha256 parentTopicId kinds requests = .ok pages →
        ∃ candidates, browsedIds service parentTopicId kinds = .ok candidates ∧
          Complete service candidates requests pages) ∧
      (∀ request, Answers (service.searchCatalog unicode sha256 request)) ∧
      ∀ request, Answers (service.browseCatalog sha256 request) := by
  have hopened := opened_of_ok h
  refine ⟨?_, ?_, ?_, ?_⟩
  · exact fun _ _ _ _ _ hne hpages => search_complete hopened hne hpages
  · exact fun _ _ _ _ hne hpages => browse_complete hopened hne hpages
  · exact fun request => hopened.answers_search unicode request
  · exact fun request => hopened.answers_browse request

namespace TestVectors

def openCalendar (unicode : Unicode) (sha256 : List UInt8 → Hash) : Outcome (CatalogService Unit) :=
  CatalogService.withCursorAuthority unicode sha256 calendarCatalog calendarPool []
    (.replicate 32 1) ⟨.replicate 32 2⟩

/-- ASCII letters and digits, in lower case. -/
def asciiTables : Unicode := ⟨id, Char.isAlphanum, fun c => [c.toLower]⟩

def foldHash (bytes : List UInt8) : Hash := .replicate 32 (bytes.foldl (· + ·) 0)

/-- Two pages of the search for everything. -/
theorem pages_complete_calendar : ∃ service pages,
    openCalendar asciiTables foldHash = .ok service ∧
      searchPages service foldHash asciiTables "" [] "" [(2, 0), (2, 0)] = .ok pages ∧
      (pages.map fun page => page.1.map CatalogHit.id) =
        [["calendar", "events"], ["events.list"]] ∧
      ∃ candidates, searchedIds service asciiTables "" [] "" = .ok candidates ∧
        Complete service candidates [(2, 0), (2, 0)] pages := by
  have hrun : ((openCalendar asciiTables foldHash).bind fun service =>
      (searchPages service foldHash asciiTables "" [] "" [(2, 0), (2, 0)]).map fun pages =>
        pages.map fun page => page.1.map CatalogHit.id) =
      .ok [["calendar", "events"], ["events.list"]] := by decide +kernel
  obtain ⟨service, hservice, hrun⟩ := Run.bind_eq_ok.mp hrun
  obtain ⟨pages, hpages, hids⟩ := map_eq_ok.mp hrun
  exact ⟨service, pages, hservice, hpages, hids,
    (pages_complete hservice).1 "" [] "" _ pages (by decide) hpages⟩

/-- The response that lists one topic within its budget is longer than the budget: the cursor, the
revision and the framing of the hits are not counted. -/
theorem browse_exceeds_budget : ∃ page : CatalogPage, 39 < page.encodedLen ∧
    ∀ unicode sha256, ∃ service, openCalendar unicode sha256 = .ok service ∧
      service.browseCatalog sha256 ⟨"", [], 1, 39, ""⟩ = .ok page :=
  ⟨⟨[⟨"calendar", 1, "A topic", "What is below it"⟩], "", .replicate 32 1⟩, by decide +kernel,
    fun _ _ => ⟨_, rfl, rfl⟩⟩

end TestVectors

end StoreCatalog
