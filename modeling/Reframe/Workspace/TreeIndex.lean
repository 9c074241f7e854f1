import Reframe.Workspace.ChildIndex
import Reframe.Workspace.Journal

/-! The child index of a resident tree: which entries and listings it should have, that a rebuild
has them, and that the piecemeal updates of each mutation keep them. -/
namespace Workspace
open NormalizedPath

namespace NormalizedPath

theorem IsBelow.trans_within {p q r : NormalizedPath} (h : p.IsBelow q) (hq : q.IsWithin r) :
    p.IsBelow r := by
  refine ⟨h.1.trans hq, ?_⟩
  rintro rfl
  have := h.length_lt
  have := hq.length_le
  omega

theorem IsWithin.trans_below {p q r : NormalizedPath} (h : p.IsWithin q) (hq : q.IsBelow r) :
    p.IsBelow r := by
  refine ⟨h.trans hq.1, ?_⟩
  rintro rfl
  have := hq.length_lt
  have := h.length_le
  omega

theorem not_isBelow_self (p : NormalizedPath) : ¬p.IsBelow p := fun h => h.2 rfl

/-- Two paths above one path lie one within the other. -/
theorem IsWithin.total {p q r : NormalizedPath} (hq : p.IsWithin q) (hr : p.IsWithin r) :
    r.IsBelow q ∨ q.IsWithin r := by
  rcases List.prefix_or_prefix_of_prefix hq hr with h | h
  · rcases isWithin_iff.mp h with rfl | hbelow
    · exact .inr (.refl r)
    · exact .inl hbelow
  · exact .inr h

/-- A path above a moved path is above the destination, or has moved along. -/
theorem above_rewritten {p q d source destination : NormalizedPath}
    (h : q.rewritten source destination = some p) (hd : p.IsBelow d) :
    destination.IsBelow d ∨ ∃ q', q.IsBelow q' ∧ q'.rewritten source destination = some d := by
  rcases hd.1.total (rewritten_within h) with hout | hin
  · exact .inl hout
  · right
    obtain ⟨rest, hrest⟩ := hin
    have hlt := hd.length_lt
    unfold rewritten at h
    split at h
    · rename_i hsource
      cases h
      obtain ⟨tail, htail⟩ := hd.1
      have hdrop : q.parts.drop source.parts.length = rest ++ tail := by
        rw [← hrest, List.append_assoc] at htail
        exact (List.append_cancel_left htail).symm
      have hq : q.parts = source.parts ++ rest ++ tail := by
        rw [List.append_assoc, ← hdrop]
        exact List.prefix_append_drop hsource
      have hne : tail ≠ [] := by
        rintro rfl
        rw [List.append_nil] at htail
        exact hd.2 (ext_parts htail)
      refine ⟨⟨source.parts ++ rest, fun hnil => source.nonempty (List.append_eq_nil_iff.mp hnil).1⟩,
        ⟨⟨tail, hq.symm⟩, fun heq => hne ?_⟩, ?_⟩
      · have hparts := congrArg parts heq
        rw [hq] at hparts
        simpa using hparts
      · simp only [rewritten, List.prefix_append, if_true, List.drop_left, Option.some.injEq]
        exact ext_parts hrest
    · cases h

end NormalizedPath

namespace ResidentState

variable [Blake3]

/-- A file or a directory is at the path. -/
def Resident (s : ResidentState) (p : NormalizedPath) : Prop :=
  (s.files.get? p).isSome = true ∨ p ∈ s.directories

instance (s : ResidentState) (p : NormalizedPath) : Decidable (s.Resident p) :=
  inferInstanceAs (Decidable ((s.files.get? p).isSome = true ∨ _))

/-- Whatever is resident lies in resident directories. -/
def Closed (s : ResidentState) : Prop :=
  ∀ p q, s.Resident p → p.IsBelow q → q ∈ s.directories

/-- No resident file is above the path. -/
def ClearAbove (s : ResidentState) (p : NormalizedPath) : Prop :=
  ∀ q ∈ p.parents, s.files.get? q = none

instance (s : ResidentState) (p : NormalizedPath) : Decidable (s.ClearAbove p) :=
  inferInstanceAs (Decidable (∀ q ∈ p.parents, _))

/-- No file is where a directory above the path is missing. -/
def ParentsFree (s : ResidentState) (p : NormalizedPath) : Prop :=
  ∀ q ∈ p.parents, q ∉ s.directories → s.files.get? q = none

instance (s : ResidentState) (p : NormalizedPath) : Decidable (s.ParentsFree p) :=
  inferInstanceAs (Decidable (∀ q ∈ p.parents, _ → _))

theorem ClearAbove.parentsFree {s : ResidentState} {p : NormalizedPath} (h : s.ClearAbove p) :
    s.ParentsFree p := fun q hq _ => h q hq

theorem mem_directories_ensureParentDirectories {s : ResidentState} {path p : NormalizedPath} :
    p ∈ (s.ensureParentDirectories path).1.directories ↔ p ∈ s.directories ∨ path.IsBelow p := by
  simp only [ensureParentDirectories, Finset.mem_union, List.mem_toFinset, List.mem_filter,
    mem_parents, decide_eq_true_eq]
  tauto

theorem mem_directories_renameFile {s : ResidentState} {source destination p : NormalizedPath}
    {id : FileId} : p ∈ (s.renameFile source destination id).1.directories ↔
      p ∈ s.directories ∨ destination.IsBelow p := by
  have hdirectories : (s.renameFile source destination id).1.directories =
      (s.ensureParentDirectories destination).1.directories := rfl
  rw [hdirectories]
  exact mem_directories_ensureParentDirectories

/-- Making one path resident together with everything above it. -/
theorem Closed.grow {s s' : ResidentState} (h : s.Closed) (path : NormalizedPath)
    (hdirectories : ∀ q ∈ s.directories, q ∈ s'.directories)
    (hparents : ∀ q, path.IsBelow q → q ∈ s'.directories)
    (hresident : ∀ p, s'.Resident p → s.Resident p ∨ path.IsWithin p) : s'.Closed := by
  intro p q hp hbelow
  rcases hresident p hp with hold | hpath
  · exact hdirectories q (h p q hold hbelow)
  · exact hparents q (hpath.trans_below hbelow)

/-- Dropping files leaves what is above them. -/
theorem Closed.shrink {s s' : ResidentState} (h : s.Closed)
    (hdirectories : s'.directories = s.directories)
    (hfiles : ∀ p, (s'.files.get? p).isSome = true → (s.files.get? p).isSome = true) :
    s'.Closed := by
  intro p q hp hbelow
  rw [hdirectories]
  refine h p q ?_ hbelow
  rcases hp with hfile | hdirectory
  · exact .inl (hfiles p hfile)
  · exact .inr (hdirectories ▸ hdirectory)

/-- Dropping a whole subtree. -/
theorem Closed.removeSubtree {s s' : ResidentState} (h : s.Closed) (path : NormalizedPath)
    (hdirectories : ∀ p, p ∈ s'.directories ↔ p ∈ s.directories ∧ ¬p.IsWithin path)
    (hfiles : ∀ p, (s'.files.get? p).isSome = true → (s.files.get? p).isSome = true ∧
      ¬p.IsWithin path) : s'.Closed := by
  intro p q hp hbelow
  have hold : s.Resident p ∧ ¬p.IsWithin path := by
    rcases hp with hfile | hdirectory
    · exact ⟨.inl (hfiles p hfile).1, (hfiles p hfile).2⟩
    · exact ⟨.inr ((hdirectories p).mp hdirectory).1, ((hdirectories p).mp hdirectory).2⟩
  exact (hdirectories q).mpr
    ⟨h p q hold.1 hbelow, fun hwithin => hold.2 (hbelow.1.trans hwithin)⟩

theorem Closed.renameSubtree {s : ResidentState} (h : s.Closed)
    (source destination : NormalizedPath) : (s.renameSubtree source destination).Closed := by
  intro p q hp hbelow
  -- where the path was before the move, if it was resident
  have hcases : (∃ p', s.Resident p' ∧ p'.rewritten source destination = some p) ∨
      (s.Resident p ∧ ¬p.IsWithin destination ∧ ¬p.IsWithin source) ∨ destination.IsBelow p := by
    rcases hp with hfile | hdirectory
    · obtain ⟨id, hid⟩ := Option.isSome_iff_exists.mp hfile
      rcases get?_renameSubtree.mp hid with ⟨p', hp', hmoved⟩ | ⟨hp', hout⟩
      · exact .inl ⟨p', .inl (by rw [hp']; rfl), hmoved⟩
      · exact .inr (.inl ⟨.inl (by rw [hp']; rfl), hout⟩)
    · rcases mem_directories_renameSubtree.mp hdirectory with ⟨hp', hout⟩ | ⟨p', hp', hmoved⟩ | habove
      · exact .inr (.inl ⟨.inr hp', hout⟩)
      · exact .inl ⟨p', .inr hp', hmoved⟩
      · exact .inr (.inr habove)
  rw [mem_directories_renameSubtree]
  rcases hcases with ⟨p', hres, hmoved⟩ | ⟨hres, hdest, hsource⟩ | habove
  · rcases above_rewritten hmoved hbelow with hq | ⟨q', hq', hmovedq⟩
    · exact .inr (.inr hq)
    · exact .inr (.inl ⟨q', h p' q' hres hq', hmovedq⟩)
  · exact .inl ⟨h p q hres hbelow, fun hin => hdest (hbelow.1.trans hin),
      fun hin => hsource (hbelow.1.trans hin)⟩
  · exact .inr (.inr (habove.trans_within hbelow.1))

theorem Closed.ensureParentDirectories {s : ResidentState} (h : s.Closed) (path : NormalizedPath) :
    (s.ensureParentDirectories path).1.Closed := by
  refine h.grow path (fun q hq => ?_) (fun q hq => ?_) fun p hp => ?_
  · exact mem_directories_ensureParentDirectories.mpr (.inl hq)
  · exact mem_directories_ensureParentDirectories.mpr (.inr hq)
  · rcases hp with hfile | hdirectory
    · exact .inl (.inl hfile)
    · exact (mem_directories_ensureParentDirectories.mp hdirectory).imp .inr (·.1)

theorem Closed.insertDirectory {s s' : ResidentState} (h : s.Closed) {path : NormalizedPath}
    (habove : ∀ q, path.IsBelow q → q ∈ s.directories) (hfiles : s'.files = s.files)
    (hdirectories : s'.directories = insert path s.directories) : s'.Closed := by
  refine h.grow path (fun q hq => ?_) (fun q hq => ?_) fun p hp => ?_
  · exact hdirectories ▸ Finset.mem_insert_of_mem hq
  · exact hdirectories ▸ Finset.mem_insert_of_mem (habove q hq)
  · rcases hp with hfile | hdirectory
    · exact .inl (.inl (hfiles ▸ hfile))
    · rcases Finset.mem_insert.mp (hdirectories ▸ hdirectory) with rfl | hold
      · exact .inr (.refl p)
      · exact .inl (.inr hold)

/-- Linking a file at a path, with its parents. -/
theorem Closed.linkFile {s s' : ResidentState} (h : s.Closed) (path : NormalizedPath)
    (hresident : ∀ p, p ≠ path → (s'.files.get? p).isSome = true → s.Resident p)
    (hdirectories : s'.directories = (s.ensureParentDirectories path).1.directories) :
    s'.Closed := by
  have hmem : ∀ q, q ∈ s'.directories ↔ q ∈ s.directories ∨ path.IsBelow q := fun q => by
    rw [hdirectories, mem_directories_ensureParentDirectories]
  refine h.grow path (fun q hq => (hmem q).mpr (.inl hq)) (fun q hq => (hmem q).mpr (.inr hq))
    fun p hp => ?_
  rcases hp with hp | hp
  · by_cases hpath : p = path
    · exact .inr (hpath ▸ .refl p)
    · exact .inl (hresident p hpath hp)
  · exact ((hmem p).mp hp).imp .inr (·.1)

/-- The links and directories after a replacement, away from the journal. -/
theorem replaceFile_links {s : ResidentState} {path : NormalizedPath}
    (hdirectory : path ∉ s.directories) (bytes : List UInt8) :
    (∀ p, p ≠ path → (s.replaceFile path bytes).1.files.get? p = s.files.get? p) ∧
      ∃ id, (s.replaceFile path bytes).1.files.get? path = some id ∧
        (s.replaceFile path bytes).1.directories =
          (s.ensureParentDirectories path).1.directories ∧
        (s.replaceFile path bytes).1.children = ChildIndex.insertFile
          (((s.ensureParentDirectories path).2.foldl ChildIndex.insertDirectory s.children).erase
            path.asStr) path id := by
  have herased : s.directories.erase path = s.directories := Finset.erase_eq_of_notMem hdirectory
  cases hf : s.files.get? path with
  | some id =>
    refine ⟨fun p _ => ?_, id, ?_, ?_, ?_⟩
    · simp only [ResidentState.replaceFile, hf]
      rfl
    all_goals simp only [ResidentState.replaceFile, hf, ResidentState.ensureParentDirectories,
      setFile, herased]
  | none =>
    refine ⟨fun p hp => ?_, s.nextFile, ?_, ?_, ?_⟩
    · simp only [ResidentState.replaceFile, hf, linkNew, ResidentState.ensureParentDirectories]
      exact FiniteMap.get?_insert_ne _ hp _
    all_goals simp only [ResidentState.replaceFile, hf, ResidentState.ensureParentDirectories,
      linkNew, herased, FiniteMap.get?_insert_self]

theorem Closed.replaceFile {s : ResidentState} (h : s.Closed) {path : NormalizedPath}
    (hdirectory : path ∉ s.directories) (bytes : List UInt8) :
    (s.replaceFile path bytes).1.Closed := by
  obtain ⟨hfiles, id, -, hdirectories, -⟩ := replaceFile_links hdirectory bytes
  refine h.linkFile path (fun p hp hsome => ?_) hdirectories
  rw [hfiles p hp] at hsome
  exact .inl hsome

theorem Closed.removePath {s : ResidentState} (h : s.Closed) (path : NormalizedPath) :
    (s.removePath path).1.Closed := by
  cases hf : s.files.get? path with
  | some id =>
    simp only [ResidentState.removePath, hf, journalRemoval]
    refine h.shrink rfl fun p hp => ?_
    rw [FiniteMap.get?_erase] at hp
    split at hp
    · cases hp
    · exact hp
  | none =>
    simp only [ResidentState.removePath, hf]
    split
    · exact h.shrink rfl fun _ hp => hp
    · refine h.removeSubtree path (fun p => ?_) fun p hp => ?_
      · simp only [markSubtreeDirty, Finset.mem_filter, sameOrDescendant_iff]
      · simp only [markSubtreeDirty, FiniteMap.get?_retain] at hp
        obtain ⟨id, hid⟩ := Option.isSome_iff_exists.mp hp
        obtain ⟨hget, hkeep⟩ := Option.filter_eq_some_iff.mp hid
        refine ⟨by rw [hget]; rfl, fun hwithin => ?_⟩
        rw [sameOrDescendant_iff.mpr hwithin] at hkeep
        cases hkeep

theorem Closed.renameFile {s : ResidentState} (h : s.Closed) (source destination : NormalizedPath)
    (id : FileId) : (s.renameFile source destination id).1.Closed := by
  refine h.linkFile destination (fun p hp hsome => ?_) rfl
  rw [get?_renameFile, if_neg hp] at hsome
  split at hsome
  · cases hsome
  · exact .inl hsome

theorem Closed.renamePath {s s' : ResidentState} (h : s.Closed)
    {source destination : NormalizedPath} {stats : Option (ℕ × ℕ)}
    (hr : s.renamePath source destination = .ok (s', stats)) : s'.Closed := by
  rcases renamePath_cases hr with ⟨-, rfl, -⟩ | ⟨-, -, ⟨id, -, -, rfl, -⟩ | ⟨-, rfl, -⟩⟩
  · exact h
  · exact h.renameFile source destination id
  · exact h.renameSubtree source destination

/-- The entry a tree has at a path: a file hides a directory of the same path. -/
def entryOf (files : FiniteMap NormalizedPath FileId) (directories : Finset NormalizedPath)
    (p : NormalizedPath) : Option ChildEntry :=
  match files.get? p with
  | some id => some (.file id)
  | none => if p ∈ directories then some .directory else none

/-- The directories with a listing: the top and the resident ones. -/
def listingsOf (directories : Finset NormalizedPath) : Set String :=
  {text | text = "" ∨ ∃ d ∈ directories, text = d.asStr}

end ResidentState

namespace ChildIndex
open ResidentState

theorem Lists.insertDirectories {keys : Set String} (added : List NormalizedPath) :
    ∀ {entries : NormalizedPath → Option ChildEntry} {children : ChildIndex},
      Lists entries keys children →
      ∃ keys', Lists (fun p => if p ∈ added then some .directory else entries p) keys'
          (added.foldl ChildIndex.insertDirectory children) ∧
        ∀ text, text ∈ keys' ↔ text ∈ keys ∨
          ∃ d ∈ added, text = d.asStr ∨ text = (parentAndName d).1 := by
  induction added generalizing keys with
  | nil =>
    intro entries children h
    exact ⟨keys, by simpa using h, by simp⟩
  | cons d rest ih =>
    intro entries children h
    obtain ⟨keys', hlists, hkeys⟩ := ih (h.insertDirectory d)
    have hentries : (fun p => if p ∈ d :: rest then some ChildEntry.directory else entries p) =
        fun p => if p ∈ rest then some .directory
          else Function.update entries d (some .directory) p := by
      funext p
      by_cases hp : p = d
      · subst hp
        simp
      · simp [hp]
    refine ⟨keys', hentries ▸ hlists, fun text => ?_⟩
    rw [hkeys]
    simp only [Set.mem_insert_iff, List.mem_cons, exists_eq_or_imp]
    generalize (∃ d ∈ rest, text = d.asStr ∨ text = (parentAndName d).1) = inRest
    tauto

theorem Lists.insertFiles {keys : Set String} :
    ∀ (added : List (NormalizedPath × FileId)) {entries : NormalizedPath → Option ChildEntry}
      {children : ChildIndex}, Lists entries keys children →
      (∀ e ∈ added, (parentAndName e.1).1 ∈ keys) →
      Lists (added.foldl (fun entries e => Function.update entries e.1 (some (.file e.2))) entries)
        keys (added.foldl (fun children e => ChildIndex.insertFile children e.1 e.2) children) := by
  intro added
  induction added with
  | nil =>
    intro entries children h _
    exact h
  | cons e rest ih =>
    intro entries children h hparents
    exact ih (h.insertFile e.1 e.2 (hparents e List.mem_cons_self))
      fun e' he' => hparents e' (List.mem_cons_of_mem _ he')

/-- Updates by pairs that agree on each key: the pair of a key decides, in whatever order. -/
theorem foldl_update_apply (p : NormalizedPath) (added : List (NormalizedPath × FileId))
    (huniq : ∀ p a b, (p, a) ∈ added → (p, b) ∈ added → a = b) :
    ∀ entries : NormalizedPath → Option ChildEntry,
      (∀ id, (p, id) ∈ added → added.foldl (fun (entries : NormalizedPath → Option ChildEntry) e =>
        Function.update entries e.1 (some (.file e.2))) entries p = some (.file id)) ∧
      ((∀ id, (p, id) ∉ added) →
        added.foldl (fun (entries : NormalizedPath → Option ChildEntry) e =>
          Function.update entries e.1 (some (.file e.2))) entries p = entries p) := by
  induction added with
  | nil =>
    intro entries
    exact ⟨fun id h => absurd h (List.not_mem_nil), fun _ => rfl⟩
  | cons e rest ih =>
    intro entries
    have hrest := ih (fun p a b ha hb =>
      huniq p a b (List.mem_cons_of_mem _ ha) (List.mem_cons_of_mem _ hb))
      (Function.update entries e.1 (some (.file e.2)))
    refine ⟨fun id hid => ?_, fun hnone => ?_⟩
    · by_cases hlater : ∃ id', (p, id') ∈ rest
      · obtain ⟨id', hid'⟩ := hlater
        rw [huniq p id id' hid (List.mem_cons_of_mem _ hid')]
        exact hrest.1 id' hid'
      · rw [not_exists] at hlater
        rw [List.foldl_cons, hrest.2 hlater]
        rcases List.mem_cons.mp hid with heq | hin
        · rw [← heq, Function.update_self]
        · exact absurd hin (hlater id)
    · rw [List.foldl_cons, hrest.2 fun id hin => hnone id (List.mem_cons_of_mem _ hin)]
      apply Function.update_of_ne
      rintro rfl
      exact hnone e.2 List.mem_cons_self

theorem lists_empty : Lists (fun _ => none) {""} ((∅ : ChildIndex).insert "" ∅) where
  look p := by
    simp only [ChildIndex.look, FiniteMap.get?_insert]
    split <;> rfl
  named directory name h := by
    simp only [ChildIndex.look, FiniteMap.get?_insert] at h
    split at h <;> cases h
  keys directory := by
    rw [FiniteMap.get?_insert]
    split <;> simp [*]

/-- A path with everything above it in `directories` has a listing to be in. -/
theorem parent_mem_listings {directories : Finset NormalizedPath} {p : NormalizedPath}
    (h : ∀ q, p.IsBelow q → q ∈ directories) : (parentAndName p).1 ∈ listingsOf directories := by
  rcases parent_cases p with htop | ⟨d, hbelow, htext⟩
  · exact .inl htop
  · exact .inr ⟨d, h d hbelow, htext⟩

/-- What `build_children` computes for a tree whose ancestors are all there. -/
theorem lists_buildChildren {files : FiniteMap NormalizedPath FileId}
    {directories : Finset NormalizedPath}
    (hclosed : ∀ p q, (files.get? p).isSome = true ∨ p ∈ directories → p.IsBelow q →
      q ∈ directories) :
    Lists (entryOf files directories) (listingsOf directories)
      (buildChildren files directories) := by
  obtain ⟨keys, hlists, hkeys⟩ := lists_empty.insertDirectories (SortedSet.toSorted directories)
  have hlistings : keys = listingsOf directories := by
    ext text
    rw [hkeys]
    constructor
    · rintro (htop | ⟨d, hd, rfl | rfl⟩)
      · exact .inl htop
      · exact .inr ⟨d, SortedSet.mem_toSorted.mp hd, rfl⟩
      · exact parent_mem_listings fun q hq => hclosed d q (.inr (SortedSet.mem_toSorted.mp hd)) hq
    · rintro (htop | ⟨d, hd, rfl⟩)
      · exact .inl htop
      · exact .inr ⟨d, SortedSet.mem_toSorted.mpr hd, .inl rfl⟩
  rw [hlistings] at hlists
  have hfiles := hlists.insertFiles files.toList fun e he =>
    parent_mem_listings fun q hq => hclosed e.1 q
      (.inl (by rw [FiniteMap.mem_toList.mp (show (e.1, e.2) ∈ files.toList from he)]; rfl)) hq
  have hentries : entryOf files directories = files.toList.foldl
      (fun (entries : NormalizedPath → Option ChildEntry) e =>
        Function.update entries e.1 (some (.file e.2)))
      (fun p => if p ∈ SortedSet.toSorted directories then some .directory else none) := by
    funext p
    have hfold := foldl_update_apply p files.toList
      (fun p a b ha hb => by
        rw [FiniteMap.mem_toList] at ha hb
        exact Option.some.inj (ha.symm.trans hb))
      (fun p => if p ∈ SortedSet.toSorted directories then some .directory else none)
    unfold entryOf
    cases hp : files.get? p with
    | some id => exact (hfold.1 id (FiniteMap.mem_toList.mpr hp)).symm
    | none =>
      rw [hfold.2 fun id hid => by rw [FiniteMap.mem_toList, hp] at hid; cases hid]
      simp only [SortedSet.mem_toSorted]
  rw [hentries]
  exact hfiles

end ChildIndex

namespace ResidentState
open ChildIndex

variable [Blake3]

/-- Ancestors are resident directories, and the child index lists what is resident. -/
structure Indexed (s : ResidentState) : Prop where
  closed : s.Closed
  lists : Lists (entryOf s.files s.directories) (listingsOf s.directories) s.children

/-- The maintained index is the one a rebuild would compute. -/
theorem Indexed.same {s : ResidentState} (h : s.Indexed) :
    Same s.children (buildChildren s.files s.directories) :=
  h.lists.same (lists_buildChildren h.closed)

theorem Indexed.rebuilt {s : ResidentState} (h : s.Closed)
    (hchildren : s.children = buildChildren s.files s.directories) : s.Indexed :=
  ⟨h, hchildren ▸ lists_buildChildren h⟩

theorem Indexed.congr {s s' : ResidentState} (h : s.Indexed) (hfiles : s'.files = s.files)
    (hdirectories : s'.directories = s.directories) (hchildren : s'.children = s.children) :
    s'.Indexed := by
  refine ⟨h.closed.shrink hdirectories fun p hp => hfiles ▸ hp, ?_⟩
  rw [hfiles, hdirectories, hchildren]
  exact h.lists

/-- New parents get a listing and an entry, in an index for any files. -/
theorem lists_ensureParentDirectories {s : ResidentState} (path : NormalizedPath)
    {entries : NormalizedPath → Option ChildEntry} {children : ChildIndex}
    (h : Lists entries (listingsOf s.directories) children) :
    Lists (fun p => if path.IsBelow p ∧ p ∉ s.directories then some .directory else entries p)
      (listingsOf (s.ensureParentDirectories path).1.directories)
      ((s.ensureParentDirectories path).2.foldl ChildIndex.insertDirectory children) := by
  have hmem : ∀ p, p ∈ (s.ensureParentDirectories path).2 ↔ path.IsBelow p ∧ p ∉ s.directories := by
    intro p
    simp only [ensureParentDirectories, List.mem_filter, mem_parents, decide_eq_true_eq]
  obtain ⟨keys, hlists, hkeys⟩ := h.insertDirectories (s.ensureParentDirectories path).2
  have hlistings : keys = listingsOf (s.ensureParentDirectories path).1.directories := by
    ext text
    rw [hkeys]
    constructor
    · rintro (htop | ⟨d, hd, rfl | rfl⟩)
      · rcases htop with htop | ⟨d, hd, htext⟩
        · exact .inl htop
        · exact .inr ⟨d, mem_directories_ensureParentDirectories.mpr (.inl hd), htext⟩
      · exact .inr ⟨d, mem_directories_ensureParentDirectories.mpr (.inr ((hmem d).mp hd).1), rfl⟩
      · refine parent_mem_listings fun q hq => mem_directories_ensureParentDirectories.mpr (.inr ?_)
        exact ((hmem d).mp hd).1.trans_within hq.1
    · rintro (htop | ⟨d, hd, rfl⟩)
      · exact .inl (.inl htop)
      · by_cases hold : d ∈ s.directories
        · exact .inl (.inr ⟨d, hold, rfl⟩)
        · have hbelow := (mem_directories_ensureParentDirectories.mp hd).resolve_left hold
          exact .inr ⟨d, (hmem d).mpr ⟨hbelow, hold⟩, .inl rfl⟩
  have hentries : (fun p => if p ∈ (s.ensureParentDirectories path).2 then some .directory
      else entries p) = fun p => if path.IsBelow p ∧ p ∉ s.directories then some .directory
        else entries p := by
    funext p
    simp only [hmem]
  rwa [hlistings, hentries] at hlists

theorem Indexed.ensureParentDirectories {s : ResidentState} (h : s.Indexed) {path : NormalizedPath}
    (hclear : s.ClearAbove path) : (s.ensureParentDirectories path).1.Indexed := by
  refine ⟨h.closed.ensureParentDirectories path, ?_⟩
  have hlists := lists_ensureParentDirectories path h.lists
  have hentries : (fun p => if path.IsBelow p ∧ p ∉ s.directories then some ChildEntry.directory
      else entryOf s.files s.directories p) =
        entryOf s.files (s.ensureParentDirectories path).1.directories := by
    funext p
    simp only [entryOf, mem_directories_ensureParentDirectories]
    by_cases hbelow : path.IsBelow p
    · simp only [hclear p (mem_parents.mpr hbelow), hbelow, true_and, or_true, if_true]
      split <;> simp_all
    · simp only [hbelow, false_and, or_false, if_false]
  rwa [hentries] at hlists

theorem Indexed.insertDirectory {s : ResidentState} (h : s.Indexed) {path : NormalizedPath}
    (hfile : s.files.get? path = none) (habove : ∀ q, path.IsBelow q → q ∈ s.directories)
    (dirty : Finset NormalizedPath) :
    { s with
      directories := insert path s.directories
      children := ChildIndex.insertDirectory s.children path
      dirty }.Indexed := by
  refine ⟨h.closed.insertDirectory habove rfl rfl, ?_⟩
  have hlists := h.lists.insertDirectory path
  have hentries : Function.update (entryOf s.files s.directories) path (some .directory) =
      entryOf s.files (insert path s.directories) := by
    funext p
    by_cases hp : p = path
    · subst hp
      simp [entryOf, hfile]
    · simp [entryOf, hp]
  have hlistings : insert path.asStr (insert (parentAndName path).1 (listingsOf s.directories)) =
      listingsOf (insert path s.directories) := by
    rw [Set.insert_eq_of_mem (parent_mem_listings habove)]
    ext text
    simp only [listingsOf, Set.mem_insert_iff, Set.mem_ofPred_eq, Finset.mem_insert,
      exists_eq_or_imp]
    tauto
  rwa [hentries, hlistings] at hlists

/-- Linking `id` at a path that is no directory, with its parents. -/
theorem Indexed.linkFile {s s' : ResidentState} {path : NormalizedPath} {id : FileId}
    {entries : NormalizedPath → Option ChildEntry} {children : ChildIndex} (hclosed : s'.Closed)
    (hlists : Lists (fun p => if path.IsBelow p ∧ p ∉ s.directories then some .directory
      else entries p) (listingsOf (s.ensureParentDirectories path).1.directories) children)
    (hother : ∀ p, p ≠ path → (path.IsBelow p → p ∉ s.directories → s'.files.get? p = none) ∧
      entries p = entryOf s'.files s.directories p)
    (hfile : s'.files.get? path = some id)
    (hdirectories : s'.directories = (s.ensureParentDirectories path).1.directories)
    (hchildren : s'.children = ChildIndex.insertFile children path id) : s'.Indexed := by
  refine ⟨hclosed, ?_⟩
  have hinsert := hlists.insertFile path id
    (parent_mem_listings fun q hq => mem_directories_ensureParentDirectories.mpr (.inr hq))
  rw [hdirectories, hchildren]
  have hentries : Function.update (fun p => if path.IsBelow p ∧ p ∉ s.directories then
      some ChildEntry.directory else entries p) path (some (.file id)) =
        entryOf s'.files (s.ensureParentDirectories path).1.directories := by
    funext p
    by_cases hp : p = path
    · subst hp
      rw [Function.update_self, entryOf, hfile]
    · rw [Function.update_of_ne hp, (hother p hp).2]
      simp only [entryOf, mem_directories_ensureParentDirectories]
      by_cases hnew : path.IsBelow p ∧ p ∉ s.directories
      · rw [if_pos hnew, (hother p hp).1 hnew.1 hnew.2]
        exact (if_pos (.inr hnew.1)).symm
      · have hmem : p ∈ s.directories ∨ path.IsBelow p ↔ p ∈ s.directories := by
          tauto
        simp only [if_neg hnew, hmem]
  rwa [hentries] at hinsert

theorem Indexed.replaceFile {s : ResidentState} (h : s.Indexed) {path : NormalizedPath}
    (hclear : s.ClearAbove path) (hdirectory : path ∉ s.directories) (bytes : List UInt8) :
    (s.replaceFile path bytes).1.Indexed := by
  -- the listing of the path itself is dropped, but there is none
  have hkey : path.asStr ∉ listingsOf (s.ensureParentDirectories path).1.directories := by
    rintro (htop | ⟨d, hd, htext⟩)
    · exact asStr_ne_empty path htop
    · rw [← asStr_injective htext, mem_directories_ensureParentDirectories] at hd
      exact hd.elim hdirectory (not_isBelow_self path)
  have hparents := (lists_ensureParentDirectories path h.lists).erase hkey
  obtain ⟨hfiles, id, hfile, hdirectories, hchildren⟩ := replaceFile_links hdirectory bytes
  refine .linkFile (h.closed.replaceFile hdirectory bytes) hparents (fun p hp => ?_) hfile
    hdirectories hchildren
  refine ⟨fun hbelow _ => ?_, ?_⟩
  · rw [hfiles p hp]
    exact hclear p (mem_parents.mpr hbelow)
  · rw [entryOf, entryOf, hfiles p hp]

theorem Indexed.removePath {s : ResidentState} (h : s.Indexed) {path : NormalizedPath}
    (hone : (s.files.get? path).isSome = true → path ∉ s.directories) :
    (s.removePath path).1.Indexed := by
  have hclosed := h.closed.removePath path
  cases hf : s.files.get? path with
  | some id =>
    have hnot := hone (by rw [hf]; rfl)
    simp only [ResidentState.removePath, hf, journalRemoval] at hclosed ⊢
    refine ⟨hclosed, ?_⟩
    have hlists := h.lists.removeFile path
    have hentries : Function.update (entryOf s.files s.directories) path none =
        entryOf (s.files.erase path) s.directories := by
      funext p
      by_cases hp : p = path
      · subst hp
        simp [entryOf, FiniteMap.get?_erase, hnot]
      · simp [entryOf, FiniteMap.get?_erase, hp]
    rwa [hentries] at hlists
  | none =>
    simp only [ResidentState.removePath, hf] at hclosed ⊢
    split
    · exact h.congr rfl rfl rfl
    · rename_i hdirectory
      rw [if_neg hdirectory] at hclosed
      exact .rebuilt hclosed rfl

/-- What the index lists after the single-file rename: the entries of both paths are dropped, new
parents become directories, and the destination gets the file. -/
theorem Indexed.lists_renameFile {s : ResidentState} (h : s.Indexed)
    (source destination : NormalizedPath) (id : FileId) :
    Lists (fun p => if p = destination then some (.file id)
        else if destination.IsBelow p ∧ p ∉ s.directories then some .directory
        else if p = source then none else entryOf s.files s.directories p)
      (listingsOf (s.renameFile source destination id).1.directories)
      (s.renameFile source destination id).1.children := by
  have hremoved : ∃ entries, Lists entries (listingsOf s.directories)
      (if ((s.files.erase source).get? destination).isSome = true then
        ChildIndex.removeFile (ChildIndex.removeFile s.children source) destination
        else ChildIndex.removeFile s.children source) ∧
      ∀ p, p ≠ destination → entries p =
        Function.update (entryOf s.files s.directories) source none p := by
    split
    · exact ⟨_, (h.lists.removeFile source).removeFile destination,
        fun p hp => Function.update_of_ne hp _ _⟩
    · exact ⟨_, h.lists.removeFile source, fun _ _ => rfl⟩
  obtain ⟨entries, hlists, hentries⟩ := hremoved
  have hinsert := (lists_ensureParentDirectories destination hlists).insertFile destination id
    (parent_mem_listings fun q hq => mem_directories_ensureParentDirectories.mpr (.inr hq))
  have hupdate : Function.update (fun p => if destination.IsBelow p ∧ p ∉ s.directories then
      some ChildEntry.directory else entries p) destination (some (.file id)) =
        fun p => if p = destination then some (.file id)
          else if destination.IsBelow p ∧ p ∉ s.directories then some .directory
          else if p = source then none else entryOf s.files s.directories p := by
    funext p
    by_cases hp : p = destination
    · subst hp
      rw [Function.update_self, if_pos rfl]
    · rw [Function.update_of_ne hp, if_neg hp, hentries p hp]
      simp only [Function.update_apply]
  rw [hupdate] at hinsert
  exact hinsert

theorem Indexed.renameFile {s : ResidentState} (h : s.Indexed)
    {source destination : NormalizedPath} {id : FileId} (hfree : s.ParentsFree destination)
    (hone : source ∉ s.directories) (hbelow : ¬destination.IsBelow source) :
    (s.renameFile source destination id).1.Indexed := by
  refine ⟨h.closed.renameFile source destination id, ?_⟩
  have hentries : (fun p => if p = destination then some (ChildEntry.file id)
      else if destination.IsBelow p ∧ p ∉ s.directories then some .directory
      else if p = source then none else entryOf s.files s.directories p) =
        entryOf (s.renameFile source destination id).1.files
          (s.renameFile source destination id).1.directories := by
    funext p
    simp only [entryOf, get?_renameFile, mem_directories_renameFile]
    by_cases hp : p = destination
    · rw [if_pos hp, if_pos hp]
    · rw [if_neg hp, if_neg hp]
      by_cases hsource : p = source
      · subst hsource
        rw [if_neg (not_and_of_not_left _ hbelow), if_pos rfl, if_pos rfl,
          if_neg (not_or.mpr ⟨hone, hbelow⟩)]
      · rw [if_neg hsource, if_neg hsource]
        by_cases hnew : destination.IsBelow p ∧ p ∉ s.directories
        · rw [if_pos hnew, hfree p (mem_parents.mpr hnew.1) hnew.2]
          exact (if_pos (.inr hnew.1)).symm
        · have hold : p ∈ s.directories ∨ destination.IsBelow p ↔ p ∈ s.directories := by
            tauto
          simp only [if_neg hnew, hold]
  rw [← hentries]
  exact h.lists_renameFile source destination id

theorem Indexed.renamePath {s s' : ResidentState} (h : s.Indexed)
    {source destination : NormalizedPath} {stats : Option (ℕ × ℕ)}
    (hclear : s.ClearAbove destination)
    (hone : (s.files.get? source).isSome = true → source ∉ s.directories)
    (hr : s.renamePath source destination = .ok (s', stats)) : s'.Indexed := by
  rcases renamePath_cases hr with ⟨-, rfl, -⟩ | ⟨-, hbelow, ⟨id, hf, -, rfl, -⟩ | ⟨-, rfl, -⟩⟩
  · exact h
  · exact h.renameFile hclear.parentsFree (hone (by rw [hf]; rfl)) hbelow
  · exact .rebuilt (h.closed.renameSubtree source destination) rfl

end ResidentState
end Workspace
