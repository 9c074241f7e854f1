import Mathlib.Data.String.Basic
import Reframe.Lib.SortedMap
import Reframe.Workspace.RenameMutation

/-! The textual tests of the Unix file system on paths: what is below a path, and what its name is
once that path is renamed. -/
namespace UnixVfs
open Workspace.NormalizedPath (stripPrefix stripPrefix_append stripPrefix_eq_some)

def sameOrDescendant (candidate path : String) : Bool :=
  candidate == path || (stripPrefix candidate path).any fun suffix => suffix.toList.head? == some '/'

def renamedPath (path source destination : String) : Option String :=
  if path = source then some destination
  else ((stripPrefix path source).bind fun suffix => stripPrefix suffix "/").map fun relative =>
    destination ++ "/" ++ relative

/-- What comes after a path in the text of a path below it. -/
def Continues (path candidate suffix : String) : Prop :=
  candidate = path ++ suffix ∧ (suffix = "" ∨ ∃ relative, suffix = "/" ++ relative)

variable {path candidate source destination : String}

theorem stripPrefix_iff {text start rest : String} :
    stripPrefix text start = some rest ↔ text = start ++ rest := by
  constructor
  · intro h
    apply String.toList_injective
    rw [stripPrefix_eq_some h, String.toList_append]
  · rintro rfl
    exact stripPrefix_append start rest

theorem head_slash_iff {text : String} :
    text.toList.head? = some '/' ↔ ∃ relative, text = "/" ++ relative := by
  constructor
  · intro h
    obtain ⟨rest, hrest⟩ := List.head?_eq_some_iff.mp h
    refine ⟨.ofList rest, String.toList_injective ?_⟩
    simp [hrest]
  · rintro ⟨relative, rfl⟩
    rw [String.toList_append]
    rfl

theorem sameOrDescendant_iff :
    sameOrDescendant candidate path = true ↔ ∃ suffix, Continues path candidate suffix := by
  rw [sameOrDescendant, Bool.or_eq_true, beq_iff_eq]
  constructor
  · rintro (rfl | h)
    · exact ⟨"", String.append_empty.symm, .inl rfl⟩
    · obtain ⟨suffix, hsuffix, hslash⟩ := (Option.any_eq_true _ _).mp h
      exact ⟨suffix, stripPrefix_iff.mp hsuffix, .inr (head_slash_iff.mp (beq_iff_eq.mp hslash))⟩
  · rintro ⟨suffix, rfl, rfl | hrelative⟩
    · exact .inl String.append_empty
    · refine .inr ((Option.any_eq_true _ _).mpr ⟨suffix, stripPrefix_append path suffix, ?_⟩)
      exact beq_iff_eq.mpr (head_slash_iff.mpr hrelative)

theorem append_ne_self {relative : String} : path ++ ("/" ++ relative) ≠ path := by
  intro h
  have hlength := congrArg (fun s : String => s.toList.length) h
  simp only [String.toList_append, List.length_append] at hlength
  have : ("/" : String).toList.length = 1 := rfl
  omega

theorem renamedPath_eq_some {replacement : String} :
    renamedPath path source destination = some replacement ↔
      ∃ suffix, Continues source path suffix ∧ replacement = destination ++ suffix := by
  rw [renamedPath]
  constructor
  · intro h
    split_ifs at h with hsame
    · cases h
      exact ⟨"", ⟨hsame.trans String.append_empty.symm, .inl rfl⟩, String.append_empty.symm⟩
    · obtain ⟨relative, hbind, rfl⟩ := Option.map_eq_some_iff.mp h
      obtain ⟨suffix, hsuffix, hrelative⟩ := Option.bind_eq_some_iff.mp hbind
      obtain rfl := stripPrefix_iff.mp hrelative
      exact ⟨_, ⟨stripPrefix_iff.mp hsuffix, .inr ⟨relative, rfl⟩⟩, String.append_assoc⟩
  · rintro ⟨suffix, ⟨rfl, rfl | ⟨relative, rfl⟩⟩, rfl⟩
    · rw [if_pos String.append_empty, String.append_empty]
    · rw [if_neg append_ne_self, stripPrefix_append, Option.bind_some, stripPrefix_append,
        Option.map_some, String.append_assoc]

theorem renamedPath_isSome :
    (renamedPath path source destination).isSome = sameOrDescendant path source := by
  rw [Bool.eq_iff_iff, Option.isSome_iff_exists, sameOrDescendant_iff]
  constructor
  · rintro ⟨replacement, h⟩
    obtain ⟨suffix, hsuffix, -⟩ := renamedPath_eq_some.mp h
    exact ⟨suffix, hsuffix⟩
  · rintro ⟨suffix, hsuffix⟩
    exact ⟨destination ++ suffix, renamedPath_eq_some.mpr ⟨suffix, hsuffix, rfl⟩⟩

/-- A renamed path is below the destination. -/
theorem renamedPath_below {replacement : String}
    (h : renamedPath path source destination = some replacement) :
    sameOrDescendant replacement destination = true := by
  obtain ⟨suffix, hsuffix, rfl⟩ := renamedPath_eq_some.mp h
  exact sameOrDescendant_iff.mpr ⟨suffix, rfl, hsuffix.2⟩

/-- Different paths get different names. -/
theorem renamedPath_injective {path' replacement : String}
    (h : renamedPath path source destination = some replacement)
    (h' : renamedPath path' source destination = some replacement) : path = path' := by
  obtain ⟨suffix, ⟨rfl, -⟩, rfl⟩ := renamedPath_eq_some.mp h
  obtain ⟨suffix', ⟨rfl, -⟩, heq⟩ := renamedPath_eq_some.mp h'
  have hsuffix : suffix = suffix' := by
    have hlist := congrArg String.toList heq
    rw [String.toList_append, String.toList_append] at hlist
    exact String.toList_injective (List.append_cancel_left hlist)
  rw [hsuffix]

theorem sameOrDescendant_self (path : String) : sameOrDescendant path path = true := by
  rw [sameOrDescendant, beq_self_eq_true, Bool.true_or]

/-- Of two paths above a third, one is above the other. -/
theorem sameOrDescendant_total {other : String} (h : sameOrDescendant candidate path = true)
    (h' : sameOrDescendant candidate other = true) :
    sameOrDescendant path other = true ∨ sameOrDescendant other path = true := by
  obtain ⟨suffix, rfl, hsuffix⟩ := sameOrDescendant_iff.mp h
  obtain ⟨suffix', heq, hsuffix'⟩ := sameOrDescendant_iff.mp h'
  have hlist := congrArg String.toList heq
  rw [String.toList_append, String.toList_append] at hlist
  -- the shorter of the two is a prefix, and what follows it starts where its continuation does
  have hshorter : ∀ {short long rest rest' : String},
      long.toList ++ rest.toList = short.toList ++ rest'.toList →
      (rest' = "" ∨ ∃ relative, rest' = "/" ++ relative) →
      (∃ tail, long.toList = short.toList ++ tail) → sameOrDescendant long short = true := by
    intro short long rest rest' heq hrest ⟨tail, htail⟩
    rw [htail, List.append_assoc] at heq
    have hrest' := List.append_cancel_left heq
    refine sameOrDescendant_iff.mpr ⟨.ofList tail, String.toList_injective ?_, ?_⟩
    · rw [htail, String.toList_append, String.toList_ofList]
    · cases tail with
      | nil => exact .inl rfl
      | cons c tail =>
        refine .inr (head_slash_iff.mp ?_)
        rw [String.toList_ofList, List.head?_cons]
        rcases hrest with rfl | hrelative
        · cases hrest'
        · rw [← head_slash_iff, ← hrest', List.cons_append, List.head?_cons] at hrelative
          exact hrelative
  rcases List.append_eq_append_iff.mp hlist with ⟨tail, htail, -⟩ | ⟨tail, htail, -⟩
  · exact .inr (hshorter hlist.symm hsuffix ⟨tail, htail⟩)
  · exact .inl (hshorter hlist hsuffix' ⟨tail, htail⟩)

end UnixVfs
