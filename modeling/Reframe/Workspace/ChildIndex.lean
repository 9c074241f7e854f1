import Reframe.Workspace.ResidentState

/-! What a child index lists: an entry for each path, found under its parent and its name, and the
directories that have a listing at all. Insertion and removal are updates of these, in any order, so
that an index kept step by step can be compared with one built at once. -/
namespace Workspace
open NormalizedPath

namespace NormalizedPath

theorem asStr_ne_empty (p : NormalizedPath) : p.asStr ≠ "" := by
  intro h
  have hparse := parseStr_asStr p
  rw [h] at hparse
  simp [parseStr] at hparse

/-- The text of the components above a path, empty at the top. -/
theorem text_injective {a b : List Component}
    (h : "/".intercalate (a.map Subtype.val) = "/".intercalate (b.map Subtype.val)) : a = b := by
  by_cases ha : a = []
  · by_cases hb : b = []
    · rw [ha, hb]
    · rw [ha] at h
      exact absurd h.symm (asStr_ne_empty ⟨b, hb⟩)
  · by_cases hb : b = []
    · rw [hb] at h
      exact absurd h (asStr_ne_empty ⟨a, ha⟩)
    · exact congrArg parts (@asStr_injective ⟨a, ha⟩ ⟨b, hb⟩ h)

end NormalizedPath

namespace ChildIndex

theorem parentAndName_injective : Function.Injective parentAndName := by
  intro p q h
  simp only [parentAndName, Prod.mk.injEq] at h
  obtain ⟨hparent, hname⟩ := h
  apply ext_parts
  rw [← List.dropLast_append_getLast p.nonempty, ← List.dropLast_append_getLast q.nonempty,
    text_injective hparent, Subtype.ext hname]

/-- The parent's text is empty, or that of a path above. -/
theorem parent_cases (p : NormalizedPath) :
    (parentAndName p).1 = "" ∨ ∃ d, p.IsBelow d ∧ (parentAndName p).1 = d.asStr := by
  by_cases h : p.parts.dropLast = []
  · left
    simp [parentAndName, h]
  · right
    refine ⟨⟨p.parts.dropLast, h⟩, ⟨List.dropLast_prefix _, fun heq => ?_⟩, rfl⟩
    have hlength := congrArg (fun q : NormalizedPath => q.parts.length) heq
    have hpos := List.length_pos_of_ne_nil p.nonempty
    simp only [List.length_dropLast] at hlength
    omega

/-- The entry under a directory and a name. -/
def look (children : ChildIndex) (directory name : String) : Option ChildEntry :=
  (children.get? directory).bind fun entries => entries.get? name

/-- The index has these entries, and listings for these directories. -/
structure Lists (entries : NormalizedPath → Option ChildEntry) (keys : Set String)
    (children : ChildIndex) : Prop where
  look : ∀ p, look children (parentAndName p).1 (parentAndName p).2 = entries p
  named : ∀ directory name, (ChildIndex.look children directory name).isSome = true →
    ∃ p, parentAndName p = (directory, name)
  keys : ∀ directory, (children.get? directory).isSome = true ↔ directory ∈ keys

/-- The same listings with the same entries, in whatever order. -/
def Same (a b : ChildIndex) : Prop :=
  ∀ directory, (a.get? directory).map FiniteMap.get? = (b.get? directory).map FiniteMap.get?

theorem Same.look {a b : ChildIndex} (h : Same a b) (directory name : String) :
    ChildIndex.look a directory name = ChildIndex.look b directory name := by
  have hbind := congrArg (fun listing => listing.bind fun entries => entries name) (h directory)
  simpa [ChildIndex.look, Option.bind_map, Function.comp_def] using hbind

theorem Lists.same {entries : NormalizedPath → Option ChildEntry} {keys : Set String}
    {a b : ChildIndex} (ha : Lists entries keys a) (hb : Lists entries keys b) : Same a b := by
  have hlook : ∀ directory name, ChildIndex.look a directory name =
      ChildIndex.look b directory name := by
    have hone : ∀ {a b : ChildIndex}, Lists entries keys a → Lists entries keys b →
        ∀ directory name entry, ChildIndex.look a directory name = some entry →
          ChildIndex.look b directory name = some entry := by
      intro a b ha hb directory name entry hentry
      obtain ⟨p, hp⟩ := ha.named directory name (by rw [hentry]; rfl)
      have hleft := ha.look p
      have hright := hb.look p
      rw [hp] at hleft hright
      rw [hright, ← hleft, hentry]
    intro directory name
    exact Option.ext fun entry => ⟨hone ha hb directory name entry, hone hb ha directory name entry⟩
  intro directory
  have hkey : (a.get? directory).isSome = (b.get? directory).isSome := by
    rw [Bool.eq_iff_iff, ha.keys, hb.keys]
  have hnames := hlook directory
  cases hget : a.get? directory with
  | none =>
    rw [hget] at hkey
    rw [Option.isSome_eq_false_iff.mp hkey.symm |> Option.isNone_iff_eq_none.mp]
  | some entriesA =>
    rw [hget] at hkey
    obtain ⟨entriesB, hgetB⟩ := Option.isSome_iff_exists.mp hkey.symm
    rw [hgetB]
    simp only [ChildIndex.look, hget, hgetB, Option.bind_some] at hnames
    exact congrArg some (funext hnames)

theorem look_insertChild (children : ChildIndex) (p : NormalizedPath) (entry : ChildEntry)
    (directory name : String) :
    look (insertChild children p entry) directory name =
      if (directory, name) = parentAndName p then some entry else look children directory name := by
  simp only [look, insertChild, FiniteMap.get?_insert]
  by_cases hdirectory : directory = (parentAndName p).1
  · subst hdirectory
    rw [if_pos rfl, Option.bind_some, FiniteMap.get?_insert]
    by_cases hname : name = (parentAndName p).2
    · have hpair : ((parentAndName p).1, name) = parentAndName p := by rw [hname]
      rw [if_pos hname, if_pos hpair]
    · rw [if_neg hname, if_neg fun heq => hname (congrArg Prod.snd heq)]
      cases children.get? (parentAndName p).1 <;> rfl
  · rw [if_neg hdirectory, if_neg fun heq => hdirectory (congrArg Prod.fst heq)]

variable {entries : NormalizedPath → Option ChildEntry} {keys : Set String} {children : ChildIndex}

theorem Lists.insertChild (h : Lists entries keys children) (p : NormalizedPath)
    (entry : ChildEntry) :
    Lists (Function.update entries p (some entry)) (insert (parentAndName p).1 keys)
      (ChildIndex.insertChild children p entry) where
  look q := by
    rw [look_insertChild]
    by_cases heq : q = p
    · subst heq
      rw [if_pos rfl, Function.update_self]
    · rw [if_neg fun hpair => heq (parentAndName_injective hpair), Function.update_of_ne heq, h.look]
  named directory name hsome := by
    rw [look_insertChild] at hsome
    split at hsome
    · exact ⟨p, (‹_› : _ = _).symm⟩
    · exact h.named directory name hsome
  keys directory := by
    simp only [ChildIndex.insertChild, FiniteMap.get?_insert, Set.mem_insert_iff]
    split
    · simp [*]
    · simp [*, h.keys]

theorem Lists.insertFile (h : Lists entries keys children) (p : NormalizedPath) (id : FileId)
    (hparent : (parentAndName p).1 ∈ keys) :
    Lists (Function.update entries p (some (.file id))) keys
      (ChildIndex.insertFile children p id) := by
  have hinsert := h.insertChild p (.file id)
  rwa [Set.insert_eq_of_mem hparent] at hinsert

theorem Lists.insertDirectory (h : Lists entries keys children) (p : NormalizedPath) :
    Lists (Function.update entries p (some .directory))
      (insert p.asStr (insert (parentAndName p).1 keys))
      (ChildIndex.insertDirectory children p) := by
  have hinsert := h.insertChild p .directory
  unfold ChildIndex.insertDirectory
  simp only
  split
  · rename_i hkey
    rwa [Set.insert_eq_of_mem ((hinsert.keys p.asStr).mp hkey)]
  · rename_i hkey
    rw [Bool.not_eq_true, FiniteMap.contains_eq_false] at hkey
    -- the new listing is empty, as the missing one was
    have hlook : ∀ directory name, ChildIndex.look
        ((ChildIndex.insertChild children p .directory).insert p.asStr ∅) directory name =
          ChildIndex.look (ChildIndex.insertChild children p .directory) directory name := by
      intro directory name
      simp only [ChildIndex.look, FiniteMap.get?_insert]
      split
      · rename_i heq
        rw [heq, hkey]
        rfl
      · rfl
    refine ⟨fun q => (hlook _ _).trans (hinsert.look q), fun directory name hsome => ?_,
      fun directory => ?_⟩
    · rw [hlook] at hsome
      exact hinsert.named directory name hsome
    · rw [FiniteMap.get?_insert, Set.mem_insert_iff]
      split
      · simp [*]
      · simp [*, hinsert.keys]

theorem Lists.removeFile (h : Lists entries keys children) (p : NormalizedPath) :
    Lists (Function.update entries p none) keys (ChildIndex.removeFile children p) := by
  unfold ChildIndex.removeFile
  simp only
  cases hget : children.get? (parentAndName p).1 with
  | none =>
    have hnone : entries p = none := by
      rw [← h.look p, ChildIndex.look, hget]
      rfl
    rwa [← hnone, Function.update_eq_self]
  | some listing =>
    have hlook : ∀ directory name, ChildIndex.look
        (children.insert (parentAndName p).1 (listing.erase (parentAndName p).2)) directory name =
          if (directory, name) = parentAndName p then none
          else ChildIndex.look children directory name := by
      intro directory name
      simp only [ChildIndex.look, FiniteMap.get?_insert]
      by_cases hdirectory : directory = (parentAndName p).1
      · subst hdirectory
        rw [if_pos rfl, Option.bind_some, FiniteMap.get?_erase, hget, Option.bind_some]
        by_cases hname : name = (parentAndName p).2
        · have hpair : ((parentAndName p).1, name) = parentAndName p := by rw [hname]
          rw [if_pos hname, if_pos hpair]
        · rw [if_neg hname, if_neg fun heq => hname (congrArg Prod.snd heq)]
      · rw [if_neg hdirectory, if_neg fun heq => hdirectory (congrArg Prod.fst heq)]
    refine ⟨fun q => ?_, fun directory name hsome => ?_, fun directory => ?_⟩
    · rw [hlook]
      by_cases heq : q = p
      · subst heq
        rw [if_pos rfl, Function.update_self]
      · rw [if_neg fun hpair => heq (parentAndName_injective hpair), Function.update_of_ne heq,
          h.look]
    · rw [hlook] at hsome
      split at hsome
      · cases hsome
      · exact h.named directory name hsome
    · rw [FiniteMap.get?_insert]
      split
      · rename_i heq
        rw [heq, ← h.keys, hget]
        simp
      · exact h.keys directory

/-- A listing that is not there cannot be lost. -/
theorem Lists.erase (h : Lists entries keys children) {directory : String}
    (hkey : directory ∉ keys) : Lists entries keys (children.erase directory) := by
  have hnone : children.get? directory = none := by
    rw [← Option.not_isSome_iff_eq_none, h.keys]
    exact hkey
  have hget : ∀ other, (children.erase directory).get? other = children.get? other := by
    intro other
    rw [FiniteMap.get?_erase]
    split
    · rename_i heq
      rw [heq, hnone]
    · rfl
  exact ⟨fun p => by rw [← h.look p, ChildIndex.look, ChildIndex.look, hget],
    fun other name hsome => h.named other name (by rwa [ChildIndex.look, hget] at hsome),
    fun other => by rw [hget, h.keys]⟩

end ChildIndex
end Workspace
