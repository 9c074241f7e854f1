import Reframe.Lib.Forest
import Reframe.Package.CatalogValidation

/-! What a catalog satisfies once it is accepted, and that the walk up the parents ends on every
catalog that reaches it. -/
namespace Package
open Forest (Rooted)
open Run (Stop bind_ok forM_eq_ok)

@[simp] theorem ensure_eq_ok {condition : Prop} [Decidable condition] {error : CatalogError}
    {u : Unit} : ensure condition error = .ok u ↔ condition := by
  rw [ensure]
  split_ifs with h
  · exact iff_of_true rfl h
  · exact iff_of_false nofun h

@[simp] theorem refuse_ne_ok (error : CatalogError) : refuse error ≠ .ok () := nofun

/-- The topic above an entry. -/
def parentOf (entries : List CatalogEntry) (id : String) : Option String :=
  (entries.find? (·.id = id)).bind fun entry =>
    if entry.parentTopicId = "" then none else some entry.parentTopicId

section

variable {catalog : Catalog} {entries : EntryMap}

theorem mem_values {entry : CatalogEntry} :
    entry ∈ entries.values ↔ ∃ id, entries.get? id = some entry := by
  simp only [EntryMap.values, List.mem_map, Prod.exists, exists_eq_right, FiniteMap.mem_toList]

theorem insertEntry_eq_ok {entry : CatalogEntry} {entries' : EntryMap} :
    insertEntry entries entry = .ok entries' ↔
      validateEntry entry = .ok () ∧ entries.get? entry.id = none ∧
        entries' = entries.insert entry.id entry := by
  simp only [insertEntry, bind_ok, ensure_eq_ok, FiniteMap.contains_eq_false, exists_const,
    Except.ok.injEq, eq_comm (a := entries')]
  constructor
  · rintro ⟨_, h⟩
    exact h
  · exact fun h => ⟨(), h⟩

/-- The map of an accepted catalog holds its entries under their ids. -/
theorem entryMap_ok (h : entryMap catalog = .ok entries) :
    (∀ entry ∈ catalog.entries, validateEntry entry = .ok ()) ∧
      (catalog.entries.map CatalogEntry.id).Nodup ∧
      ∀ id entry, entries.get? id = some entry ↔ entry ∈ catalog.entries ∧ entry.id = id := by
  obtain ⟨hpass, hnodup, rfl⟩ :=
    (FiniteMap.foldlM_insert (fun entry => validateEntry entry = .ok ()) CatalogEntry.id (fun entry => entry)
      (fun _ _ _ => insertEntry_eq_ok) catalog.entries ∅ entries).mp h
  refine ⟨fun entry hentry => (hpass entry hentry).1, hnodup, fun id entry => ?_⟩
  have hkeys : ((catalog.entries.map fun entry => (entry.id, entry)).map Prod.fst).Nodup := by
    rwa [List.map_map]
  rw [← FiniteMap.ofList, FiniteMap.get?_ofList hkeys, List.mem_map]
  simp only [Prod.mk.injEq]
  constructor
  · rintro ⟨_, hmem, hid, rfl⟩
    exact ⟨hmem, hid⟩
  · rintro ⟨hmem, hid⟩
    exact ⟨entry, hmem, hid, rfl⟩

theorem find?_id_eq_some (hnodup : (catalog.entries.map CatalogEntry.id).Nodup) {id : String}
    {entry : CatalogEntry} :
    catalog.entries.find? (·.id = id) = some entry ↔ entry ∈ catalog.entries ∧ entry.id = id := by
  constructor
  · intro h
    exact ⟨List.mem_of_find?_eq_some h, by simpa using List.find?_some h⟩
  · rintro ⟨hmem, rfl⟩
    cases hfind : catalog.entries.find? (·.id = entry.id) with
    | none => exact absurd (List.find?_eq_none.mp hfind entry hmem) (by simp)
    | some other =>
      have hid : other.id = entry.id := by simpa using List.find?_some hfind
      rw [List.inj_on_of_nodup_map hnodup (List.mem_of_find?_eq_some hfind) hmem hid]

theorem get?_eq_find? (h : entryMap catalog = .ok entries) (id : String) :
    entries.get? id = catalog.entries.find? (·.id = id) := by
  obtain ⟨-, hnodup, hget⟩ := entryMap_ok h
  ext entry
  rw [hget, find?_id_eq_some hnodup]

/-! The walk. -/

/-- What the checks before the walk leave: entries under their ids, with parents that are there. -/
structure EntryMap.Linked (entries : EntryMap) : Prop where
  keyed : ∀ id entry, entries.get? id = some entry → entry.id = id
  parent : ∀ id entry, entries.get? id = some entry → entry.parentTopicId ≠ "" →
    ∃ parent, entries.get? entry.parentTopicId = some parent ∧ parent.isTopic = true

theorem validateParentLink_ok {entry : CatalogEntry} (h : validateParentLink entries entry = .ok ())
    (hparent : entry.parentTopicId ≠ "") :
    ∃ parent, entries.get? entry.parentTopicId = some parent ∧ parent.isTopic = true := by
  rw [validateParentLink, if_neg hparent] at h
  cases hget : entries.get? entry.parentTopicId with
  | none =>
    rw [hget] at h
    exact absurd h (refuse_ne_ok _)
  | some parent =>
    rw [hget] at h
    exact ⟨parent, rfl, ensure_eq_ok.mp h⟩

theorem linked_of_ok (hentries : entryMap catalog = .ok entries)
    (hlinks : validateLinks entries = .ok ()) : entries.Linked := by
  obtain ⟨-, -, hget⟩ := entryMap_ok hentries
  refine ⟨fun id entry hentry => ((hget id entry).mp hentry).2, fun id entry hentry hparent => ?_⟩
  have hentryLinks := forM_eq_ok.mp hlinks entry (mem_values.mpr ⟨id, hentry⟩)
  obtain ⟨_, hlink, -⟩ := bind_ok.mp hentryLinks
  exact validateParentLink_ok hlink hparent

/-- The walk never looks up an id that is missing, and sees a repeated id before its fuel is used
up: the ids it has seen are distinct keys. -/
theorem walkParents_total (hlinked : entries.Linked) :
    ∀ (fuel : ℕ) (seen : List String) (current : CatalogEntry), seen.Nodup →
      (∀ id ∈ seen, id ∈ entries.keys) → entries.get? current.id = some current →
      entries.size + 1 ≤ fuel + seen.length →
      walkParents entries fuel seen current = .ok () ∨
        ∃ id, walkParents entries fuel seen current = .error (.error (.parentCycle id)) := by
  intro fuel
  induction fuel with
  | zero =>
    intro seen current hnodup hseen _ hfuel
    have hsub : seen.toFinset ⊆ entries.keys := fun id hid => hseen id (List.mem_toFinset.mp hid)
    have hcard := Finset.card_le_card hsub
    rw [List.toFinset_card_of_nodup hnodup, FiniteMap.card_keys] at hcard
    omega
  | succ fuel ih =>
    intro seen current hnodup hseen hcurrent hfuel
    rw [walkParents]
    split_ifs with hroot hmem
    · exact .inl rfl
    · exact .inr ⟨_, rfl⟩
    · obtain ⟨parent, hparent, -⟩ := hlinked.parent _ _ hcurrent hroot
      have hkey := hlinked.keyed _ _ hparent
      simp only [hparent]
      refine ih (current.id :: seen) parent (List.nodup_cons.mpr ⟨hmem, hnodup⟩) ?_
        (hkey ▸ hparent) (by rw [List.length_cons]; omega)
      intro id hid
      rcases List.mem_cons.mp hid with rfl | hid
      · exact FiniteMap.mem_keys_iff.mpr ⟨current, hcurrent⟩
      · exact hseen id hid

/-- A walk that accepts an entry has reached a root above it. -/
theorem rooted_of_walkParents (hentries : entryMap catalog = .ok entries) :
    ∀ (fuel : ℕ) (seen : List String) (current : CatalogEntry),
      entries.get? current.id = some current → walkParents entries fuel seen current = .ok () →
      Rooted (parentOf catalog.entries) current.id := by
  obtain ⟨-, -, hget⟩ := entryMap_ok hentries
  intro fuel
  induction fuel with
  | zero => intro seen current _ hwalk; cases hwalk
  | succ fuel ih =>
    intro seen current hcurrent hwalk
    have hfind := (get?_eq_find? hentries current.id).symm.trans hcurrent
    rw [walkParents] at hwalk
    split_ifs at hwalk with hroot hmem
    · exact .root (by rw [parentOf, hfind, Option.bind_some, if_pos hroot])
    · exact absurd hwalk (refuse_ne_ok _)
    · cases hparent : entries.get? current.parentTopicId with
      | none =>
        rw [hparent] at hwalk
        cases hwalk
      | some parent =>
        rw [hparent] at hwalk
        have hkey := ((hget _ _).mp hparent).2
        have habove := ih _ parent (hkey ▸ hparent) hwalk
        rw [hkey] at habove
        exact .child (by rw [parentOf, hfind, Option.bind_some, if_neg hroot]) habove

/-- The check for cycles ends on linked entries: it accepts them or names an entry on a cycle. -/
theorem validateParentCycles_total (hlinked : entries.Linked) {fuel : ℕ}
    (hfuel : entries.size + 1 ≤ fuel) :
    validateParentCycles fuel entries = .ok () ∨
      ∃ id, validateParentCycles fuel entries = .error (.error (.parentCycle id)) := by
  have hvalues : ∀ entry ∈ entries.values, entries.get? entry.id = some entry := by
    intro entry hentry
    obtain ⟨id, hget⟩ := mem_values.mp hentry
    rwa [hlinked.keyed id entry hget]
  rw [validateParentCycles]
  generalize entries.values = values at hvalues
  induction values with
  | nil => exact .inl rfl
  | cons entry values ih =>
    rw [List.forall_mem_cons] at hvalues
    rcases walkParents_total hlinked fuel [] entry List.nodup_nil nofun hvalues.1 (by simpa)
      with hok | ⟨id, herror⟩
    · rcases ih hvalues.2 with hrest | ⟨id, hrest⟩
      · exact .inl (bind_ok.mpr ⟨(), hok, hrest⟩)
      · refine .inr ⟨id, ?_⟩
        change (walkParents entries fuel [] entry >>= fun _ => _) = _
        rw [hok]
        exact hrest
    · refine .inr ⟨id, ?_⟩
      change (walkParents entries fuel [] entry >>= fun _ => _) = _
      rw [herror]
      rfl

end

/-! Accepted catalogs. -/

/-- The entries of a catalog form a forest below its top-level topics. -/
structure Catalog.WellLinked (catalog : Catalog) : Prop where
  bounded : catalog.entries.length ≤ maxEntries
  entry : ∀ entry ∈ catalog.entries, validateEntry entry = .ok ()
  unique : (catalog.entries.map CatalogEntry.id).Nodup
  parent : ∀ entry ∈ catalog.entries, entry.parentTopicId ≠ "" →
    ∃ parent ∈ catalog.entries, parent.id = entry.parentTopicId ∧ parent.isTopic = true
  rooted : ∀ entry ∈ catalog.entries, Rooted (parentOf catalog.entries) entry.id
  topLevel : ∀ id ∈ catalog.topLevelTopicIds, ∃ entry ∈ catalog.entries,
    entry.id = id ∧ entry.parentTopicId = "" ∧ entry.isTopic = true

theorem validateTopLevelTopics_ok {entries : EntryMap} :
    ∀ (ids declared declared' : List String),
      ids.foldlM (validateTopLevelTopic entries) declared = .ok declared' → ∀ id ∈ ids,
      ∃ entry, entries.get? id = some entry ∧ entry.parentTopicId = "" ∧ entry.isTopic = true := by
  intro ids
  induction ids with
  | nil => exact fun _ _ _ _ h => nomatch h
  | cons first ids ih =>
    intro declared declared' h
    rw [List.foldlM_cons] at h
    obtain ⟨declared₁, hfirst, hrest⟩ := bind_ok.mp h
    rw [List.forall_mem_cons]
    refine ⟨?_, ih declared₁ declared' hrest⟩
    rw [validateTopLevelTopic] at hfirst
    cases hget : entries.get? first with
    | none =>
      rw [hget] at hfirst
      cases hfirst
    | some entry =>
      simp only [hget] at hfirst
      split_ifs at hfirst with hinvalid
      push Not at hinvalid
      exact ⟨entry, rfl, hinvalid.1, by simpa using hinvalid.2.1⟩

theorem validateHeader_ok {catalog : Catalog} {manifestStoreId : String}
    {manifestInterface : InterfaceVersion}
    (h : validateHeader catalog manifestStoreId manifestInterface = .ok ()) :
    catalog.entries.length ≤ maxEntries := by
  simp only [validateHeader, validateStoreCard, bind_ok, ensure_eq_ok] at h
  obtain ⟨_, -, _, -, _, -, hcard⟩ := h
  exact hcard.2.2.2.2.1

/-- An accepted catalog is a forest. -/
theorem wellLinked_of_ok {μ : Type} {pool : DescriptorPool μ} {catalog : Catalog}
    {manifestStoreId : String} {manifestInterface : InterfaceVersion}
    (h : validateCatalog pool catalog manifestStoreId manifestInterface = .ok ()) :
    catalog.WellLinked := by
  obtain ⟨_, hheader, h⟩ := bind_ok.mp h
  obtain ⟨_, hvalidate, -⟩ := bind_ok.mp h
  obtain ⟨entries, hentries, hvalidate⟩ := bind_ok.mp hvalidate
  obtain ⟨_, hrelations, -⟩ := bind_ok.mp hvalidate
  obtain ⟨_, htop, hrelations⟩ := bind_ok.mp hrelations
  obtain ⟨_, hlinks, hcycles⟩ := bind_ok.mp hrelations
  obtain ⟨declared, hdeclared, -⟩ := bind_ok.mp htop
  obtain ⟨hentry, hnodup, hget⟩ := entryMap_ok hentries
  have hlinked := linked_of_ok hentries hlinks
  have hmem : ∀ entry ∈ catalog.entries, entries.get? entry.id = some entry :=
    fun entry hin => (hget _ _).mpr ⟨hin, rfl⟩
  constructor
  · exact validateHeader_ok hheader
  · exact hentry
  · exact hnodup
  · intro entry hin hparent
    obtain ⟨parent, hgetParent, htopic⟩ := hlinked.parent _ _ (hmem entry hin) hparent
    obtain ⟨hparentIn, hid⟩ := (hget _ _).mp hgetParent
    exact ⟨parent, hparentIn, hid, htopic⟩
  · intro entry hin
    exact rooted_of_walkParents hentries _ [] entry (hmem entry hin)
      (forM_eq_ok.mp hcycles entry (mem_values.mpr ⟨_, hmem entry hin⟩))
  · intro id hid
    obtain ⟨entry, hentryGet, hroot, htopic⟩ := validateTopLevelTopics_ok _ _ _ hdeclared id hid
    obtain ⟨hin, hkey⟩ := (hget _ _).mp hentryGet
    exact ⟨entry, hin, hkey, hroot, htopic⟩

theorem validateEntry_ok {entry : CatalogEntry} (h : validateEntry entry = .ok ()) :
    entry.id ≠ "" ∧ entry.kind.isSome = true := by
  simp only [validateEntry, bind_ok, ensure_eq_ok] at h
  obtain ⟨_, hid, _, -, _, hkind, -⟩ := h
  refine ⟨fun hempty => ?_, hkind⟩
  rw [validEntryId, hempty] at hid
  simp at hid

end Package
