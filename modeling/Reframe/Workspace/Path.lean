import Mathlib.Data.String.Basic
import Mathlib.Order.Basic
import Mathlib.Tactic

/-! Normalized workspace paths. A path is kept as its components; `asStr` is the text the
program stores, and every string test of the program is also read here on components. -/
namespace Workspace

/-- A path component that normalization leaves alone. -/
def isComponent (part : String) : Bool :=
  part ≠ "" && part ≠ "." && part ≠ ".." && !part.toList.contains '/' &&
    !part.toList.contains '\\'

abbrev Component := {part : String // isComponent part = true}

structure NormalizedPath where
  parts : List Component
  nonempty : parts ≠ []
  deriving DecidableEq

inductive PathError where
  | notRelative
  | invalidComponent (part : String)
  | parentComponent
  | root
  deriving DecidableEq

/-- The loop of `normalize_relative` over the components of a Unix path: separators may repeat
and `.` components are dropped. -/
def collectParts : List String → Except PathError (List Component)
  | [] => .ok []
  | part :: rest =>
    if part = "" ∨ part = "." then collectParts rest
    else if part = ".." then .error .parentComponent
    else if h : isComponent part = true then do
      let parts ← collectParts rest
      .ok (⟨part, h⟩ :: parts)
    else .error (.invalidComponent part)

def splitPath (value : String) : List String :=
  (value.toList.splitOn '/').map String.ofList

namespace NormalizedPath

def parseStr (value : String) : Except PathError NormalizedPath :=
  if value = "" ∨ value.toList.head? = some '/' then .error .notRelative
  else do
    let parts ← collectParts (splitPath value)
    if h : parts = [] then .error .root else .ok ⟨parts, h⟩

def asStr (p : NormalizedPath) : String := "/".intercalate (p.parts.map Subtype.val)

theorem ext_parts {p q : NormalizedPath} (h : p.parts = q.parts) : p = q := by
  cases p
  cases q
  simpa using h

end NormalizedPath

theorem isComponent_iff {part : String} : isComponent part = true ↔
    part ≠ "" ∧ part ≠ "." ∧ part ≠ ".." ∧ '/' ∉ part.toList ∧ '\\' ∉ part.toList := by
  simp [isComponent, and_assoc]

theorem collectParts_val (parts : List Component) :
    collectParts (parts.map Subtype.val) = .ok parts := by
  induction parts with
  | nil => rfl
  | cons part rest ih =>
    obtain ⟨h₁, h₂, h₃, -⟩ := isComponent_iff.mp part.2
    simp only [List.map_cons, collectParts, h₁, h₂, h₃, or_self, if_false, part.2, ih]
    rfl

namespace NormalizedPath

theorem toList_asStr (p : NormalizedPath) :
    p.asStr.toList = ['/'].intercalate (p.parts.map fun part => part.1.toList) := by
  simp [asStr, String.toList_intercalate]

theorem slash_notMem_parts (parts : List Component) :
    ∀ l ∈ parts.map (fun part => part.1.toList), '/' ∉ l := by
  intro l hl
  obtain ⟨part, -, rfl⟩ := List.mem_map.mp hl
  exact (isComponent_iff.mp part.2).2.2.2.1

/-- Splitting the text of a path gives back its components. -/
theorem splitPath_asStr (p : NormalizedPath) : splitPath p.asStr = p.parts.map Subtype.val := by
  rw [splitPath, toList_asStr, List.splitOn_intercalate '/' (slash_notMem_parts p.parts)
    (by rw [Ne, List.map_eq_nil_iff]; exact p.nonempty)]
  simp [Function.comp_def]

theorem asStr_injective : Function.Injective asStr := by
  intro p q h
  have hs := congrArg splitPath h
  rw [splitPath_asStr, splitPath_asStr] at hs
  exact ext_parts (List.map_injective_iff.mpr Subtype.val_injective hs)

/-- The text of a path parses back to it, so reported paths can be passed on as strings. -/
theorem parseStr_asStr (p : NormalizedPath) : parseStr p.asStr = .ok p := by
  obtain ⟨parts, hne⟩ := p
  obtain ⟨part, rest, rfl⟩ := List.exists_cons_of_ne_nil hne
  obtain ⟨hempty, -, -, hslash, -⟩ := isComponent_iff.mp part.2
  obtain ⟨c, cs, hc⟩ := List.exists_cons_of_ne_nil (show part.1.toList ≠ [] by simpa using hempty)
  have hhead : (asStr ⟨part :: rest, hne⟩).toList.head? = some c := by
    rw [toList_asStr]
    cases rest <;> simp [List.intercalate_cons_cons, hc]
  have htext : ¬(asStr ⟨part :: rest, hne⟩ = "" ∨
      (asStr ⟨part :: rest, hne⟩).toList.head? = some '/') := by
    rw [hhead]
    rintro (h | h)
    · rw [h] at hhead
      cases hhead
    · cases h
      exact hslash (hc ▸ List.mem_cons_self)
  rw [parseStr, if_neg htext, splitPath_asStr, collectParts_val]
  simp [bind, Except.bind]

instance : LinearOrder NormalizedPath := LinearOrder.lift' asStr asStr_injective

/-- `q` is `p` or lies below it. -/
def IsWithin (q p : NormalizedPath) : Prop := p.parts <+: q.parts

/-- `q` lies strictly below `p`. -/
def IsBelow (q p : NormalizedPath) : Prop := q.IsWithin p ∧ p ≠ q

instance (q p : NormalizedPath) : Decidable (q.IsWithin p) :=
  inferInstanceAs (Decidable (p.parts <+: q.parts))

instance (q p : NormalizedPath) : Decidable (q.IsBelow p) :=
  inferInstanceAs (Decidable (q.IsWithin p ∧ p ≠ q))

theorem IsWithin.refl (p : NormalizedPath) : p.IsWithin p := List.prefix_rfl

theorem IsWithin.trans {p q r : NormalizedPath} (h : r.IsWithin q) (h' : q.IsWithin p) :
    r.IsWithin p := List.IsPrefix.trans h' h

theorem isWithin_iff {q p : NormalizedPath} : q.IsWithin p ↔ q = p ∨ q.IsBelow p := by
  constructor
  · intro h
    by_cases he : p = q
    · exact .inl he.symm
    · exact .inr ⟨h, he⟩
  · rintro (rfl | h)
    · exact .refl q
    · exact h.1

/-- Keep the first `count` components; `none` for the root. -/
def takeParts (p : NormalizedPath) (count : ℕ) : Option NormalizedPath :=
  if h : p.parts.take count = [] then none else some ⟨p.parts.take count, h⟩

/-- The first `count` nonempty leading paths of `p`, shortest first. -/
def leading (p : NormalizedPath) (count : ℕ) : List NormalizedPath :=
  (List.range (count + 1)).filterMap p.takeParts

/-- `add_parent_directories`: every proper ancestor. -/
def parents (p : NormalizedPath) : List NormalizedPath := p.leading (p.parts.length - 1)

theorem mem_leading {p q : NormalizedPath} {count : ℕ} : q ∈ p.leading count ↔
    p.IsWithin q ∧ q.parts.length ≤ count := by
  simp only [leading, List.mem_filterMap, List.mem_range, takeParts]
  constructor
  · rintro ⟨k, hk, hq⟩
    split at hq
    · cases hq
    · cases hq
      refine ⟨List.take_prefix _ _, ?_⟩
      simp only [List.length_take]
      omega
  · rintro ⟨h, hc⟩
    refine ⟨q.parts.length, by omega, ?_⟩
    have htake : p.parts.take q.parts.length = q.parts := (List.prefix_iff_eq_take.mp h).symm
    rw [dif_neg (by rw [htake]; exact q.nonempty)]
    exact congrArg some (ext_parts htake)

theorem IsWithin.length_le {q p : NormalizedPath} (h : q.IsWithin p) :
    p.parts.length ≤ q.parts.length := List.IsPrefix.length_le h

theorem IsBelow.length_lt {q p : NormalizedPath} (h : q.IsBelow p) :
    p.parts.length < q.parts.length := by
  apply lt_of_le_of_ne h.1.length_le
  intro hl
  exact h.2 (ext_parts (h.1.eq_of_length hl))

theorem mem_parents {p q : NormalizedPath} : q ∈ p.parents ↔ p.IsBelow q := by
  have hp : 0 < p.parts.length := List.length_pos_of_ne_nil p.nonempty
  rw [parents, mem_leading]
  constructor
  · rintro ⟨h, hl⟩
    refine ⟨h, ?_⟩
    rintro rfl
    omega
  · intro h
    have := h.length_lt
    exact ⟨h.1, by omega⟩

/-- `path` below `source`, moved to the same place below `destination`. -/
def rewritten (path source destination : NormalizedPath) : Option NormalizedPath :=
  if source.parts <+: path.parts then
    some ⟨destination.parts ++ path.parts.drop source.parts.length,
      fun h => destination.nonempty (List.append_eq_nil_iff.mp h).1⟩
  else none

theorem rewritten_isSome {path source destination : NormalizedPath} :
    (path.rewritten source destination).isSome ↔ path.IsWithin source := by
  unfold rewritten IsWithin
  split <;> simp_all

theorem rewritten_within {path source destination q : NormalizedPath}
    (h : path.rewritten source destination = some q) : q.IsWithin destination := by
  unfold rewritten at h
  split at h
  · cases h
    exact List.prefix_append _ _
  · cases h

/-- What is moved is the source itself, or lies below it. -/
theorem rewritten_cases {path source destination q : NormalizedPath}
    (h : path.rewritten source destination = some q) : q = destination ∨ path.IsBelow source := by
  have hwithin : path.IsWithin source := by
    rw [← @rewritten_isSome path source destination, h]
    rfl
  rcases isWithin_iff.mp hwithin with rfl | hbelow
  · rw [rewritten, if_pos List.prefix_rfl, Option.some.injEq] at h
    have hparts : destination.parts ++ path.parts.drop path.parts.length = q.parts :=
      congrArg parts h
    rw [List.drop_length, List.append_nil] at hparts
    exact .inl (ext_parts hparts.symm)
  · exact .inr hbelow

theorem rewritten_inj {p p' source destination q : NormalizedPath}
    (h : p.rewritten source destination = some q)
    (h' : p'.rewritten source destination = some q) : p = p' := by
  unfold rewritten at h h'
  split at h
  next hp =>
    split at h'
    next hp' =>
      have hq := congrArg parts ((Option.some.inj h).trans (Option.some.inj h').symm)
      simp only [List.append_cancel_left_eq] at hq
      apply ext_parts
      rw [List.prefix_append_drop hp, List.prefix_append_drop hp', hq]
    next => cases h'
  next => cases h

end NormalizedPath

/-- `candidate` continues `start` with a separator. -/
def hasPrefix (candidate start : String) : Bool :=
  (start.toList ++ ['/']).isPrefixOf candidate.toList

def sameOrDescendant (candidate path : String) : Bool :=
  candidate == path || hasPrefix candidate path

namespace NormalizedPath

/-- The textual prefix test is the test on components. -/
theorem hasPrefix_iff {q p : NormalizedPath} :
    hasPrefix q.asStr p.asStr = true ↔ q.IsBelow p := by
  rw [hasPrefix, List.isPrefixOf_iff_prefix]
  constructor
  · rintro ⟨rest, h⟩
    have hsplit := congrArg (List.splitOn '/') h
    rw [List.append_assoc, List.singleton_append, List.splitOn_append_cons_self, toList_asStr,
      toList_asStr, List.splitOn_intercalate '/' (slash_notMem_parts p.parts)
        (by rw [Ne, List.map_eq_nil_iff]; exact p.nonempty),
      List.splitOn_intercalate '/' (slash_notMem_parts q.parts)
        (by rw [Ne, List.map_eq_nil_iff]; exact q.nonempty)] at hsplit
    have hpre : p.parts.map (fun part => part.1.toList) <+:
        q.parts.map (fun part => part.1.toList) := ⟨_, hsplit⟩
    have hinj : Function.Injective fun part : Component => part.1.toList :=
      fun a b hab => Subtype.ext (String.toList_injective hab)
    refine ⟨(List.prefix_map_iff_of_injective hinj).mp hpre, ?_⟩
    rintro rfl
    have := congrArg List.length hsplit
    simp only [List.length_append, List.length_map, Nat.add_eq_left, List.length_eq_zero_iff,
      List.splitOn_ne_nil] at this
  · rintro ⟨⟨tail, ht⟩, hne⟩
    have htail : tail ≠ [] := by
      rintro rfl
      rw [List.append_nil] at ht
      exact hne (ext_parts ht)
    refine ⟨['/'].intercalate (tail.map fun part => part.1.toList), ?_⟩
    rw [asStr, asStr, ← ht, List.map_append, String.intercalate_append_of_ne_nil
      (by rw [Ne, List.map_eq_nil_iff]; exact p.nonempty)
      (by rw [Ne, List.map_eq_nil_iff]; exact htail)]
    simp [String.toList_intercalate]

theorem sameOrDescendant_iff {q p : NormalizedPath} :
    sameOrDescendant q.asStr p.asStr = true ↔ q.IsWithin p := by
  rw [sameOrDescendant, Bool.or_eq_true, beq_iff_eq, hasPrefix_iff, isWithin_iff,
    asStr_injective.eq_iff]

end NormalizedPath
end Workspace
