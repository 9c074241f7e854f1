import Mathlib.Data.List.Basic
import Mathlib.Tactic

/-! Patterns without alternatives, matched from the start of a text by backtracking: greedy runs,
single characters, and tests of a position. The positions that a pattern reaches are listed in the
order they are tried. -/
namespace Backtrack

variable {α : Type}

inductive Item (α : Type) where
  | one (p : α → Bool)
  /-- As many as there are, then fewer. -/
  | many (p : α → Bool)
  | assert (test : Option α → List α → Bool)

/-- The last character that was consumed, and the text that is left. -/
abbrev Position (α : Type) := Option α × List α

/-- The positions after a greedy run, the longest run first. -/
def runs (p : α → Bool) : Option α → List α → List (Position α)
  | last, [] => [(last, [])]
  | last, c :: rest =>
    if p c then runs p (some c) rest ++ [(last, c :: rest)] else [(last, c :: rest)]

def Item.ends : Item α → Position α → List (Position α)
  | .one _, (_, []) => []
  | .one p, (_, c :: rest) => if p c then [(some c, rest)] else []
  | .many p, (last, rest) => runs p last rest
  | .assert test, (last, rest) => if test last rest then [(last, rest)] else []

def ends : List (Item α) → Position α → List (Position α)
  | [], x => [x]
  | item :: items, x => (item.ends x).flatMap (ends items)

/-- What the second of two patterns takes, in the first match of both. -/
def captures (first second : List (Item α)) (x : Position α) : List (List α) :=
  (ends first x).flatMap fun y => (ends second y).map fun z => y.2.take (y.2.length - z.2.length)

def capture (first second : List (Item α)) (text : List α) : Option (List α) :=
  (captures first second (none, text)).head?

@[simp] theorem ends_nil (x : Position α) : ends [] x = [x] := rfl

theorem ends_cons (item : Item α) (items : List (Item α)) (x : Position α) :
    ends (item :: items) x = (item.ends x).flatMap (ends items) := rfl

@[simp] theorem ends_one_nil (p : α → Bool) (items : List (Item α)) (last : Option α) :
    ends (.one p :: items) (last, []) = [] := rfl

@[simp] theorem ends_one_cons (p : α → Bool) (items : List (Item α)) (last : Option α) (c : α)
    (rest : List α) : ends (.one p :: items) (last, c :: rest) =
      if p c then ends items (some c, rest) else [] := by
  by_cases h : p c = true <;> simp [ends_cons, Item.ends, h]

@[simp] theorem ends_assert (test : Option α → List α → Bool) (items : List (Item α))
    (x : Position α) : ends (.assert test :: items) x =
      if test x.1 x.2 then ends items x else [] := by
  by_cases h : test x.1 x.2 = true <;> simp [ends_cons, Item.ends, h]

/-- The last character after some more. -/
def lastOf (last : Option α) (taken : List α) : Option α := taken.getLast?.or last

@[simp] theorem lastOf_nil (last : Option α) : lastOf last [] = last := rfl

theorem lastOf_cons (last : Option α) (c : α) (taken : List α) :
    lastOf last (c :: taken) = lastOf (some c) taken := by
  cases taken using List.reverseRecOn <;> simp [lastOf, List.getLast?_cons]

theorem lastOf_append (last : Option α) (xs ys : List α) :
    lastOf last (xs ++ ys) = lastOf (lastOf last xs) ys := by
  simp [lastOf, List.getLast?_append, Option.or_assoc]

theorem mem_runs {p : α → Bool} {rest : List α} : ∀ {last : Option α} {x : Position α},
    x ∈ runs p last rest ↔
      ∃ taken, rest = taken ++ x.2 ∧ (∀ c ∈ taken, p c = true) ∧ x.1 = lastOf last taken := by
  induction rest with
  | nil =>
    intro last x
    constructor
    · intro h
      obtain rfl := List.mem_singleton.mp h
      exact ⟨[], rfl, by simp, rfl⟩
    · rintro ⟨taken, htaken, -, hlast⟩
      obtain ⟨rfl, hrest⟩ := List.append_eq_nil_iff.mp htaken.symm
      exact List.mem_singleton.mpr (Prod.ext hlast hrest)
  | cons c rest ih =>
    intro last x
    have hnone : x = (last, c :: rest) ↔ ([] : List α) ++ x.2 = c :: rest ∧ x.1 = last := by
      rw [Prod.ext_iff]
      simp [and_comm]
    by_cases hc : p c = true
    · simp only [runs, hc, if_true, List.mem_append, ih, List.mem_singleton, hnone]
      constructor
      · rintro (⟨taken, rfl, hp, hlast⟩ | ⟨hrest, hlast⟩)
        · exact ⟨c :: taken, rfl, by simpa [hc] using hp, by rw [lastOf_cons, hlast]⟩
        · exact ⟨[], hrest.symm, by simp, hlast⟩
      · rintro ⟨taken, htaken, hp, hlast⟩
        cases taken with
        | nil => exact .inr ⟨htaken.symm, hlast⟩
        | cons d taken =>
          obtain ⟨rfl, rfl⟩ := List.cons.inj htaken
          exact .inl ⟨taken, rfl, fun d hd => hp d (List.mem_cons_of_mem _ hd),
            by rw [hlast, lastOf_cons]⟩
    · rw [runs, if_neg hc, List.mem_singleton, hnone]
      constructor
      · rintro ⟨hrest, hlast⟩
        exact ⟨[], hrest.symm, by simp, hlast⟩
      · rintro ⟨taken, htaken, hp, hlast⟩
        cases taken with
        | nil => exact ⟨htaken.symm, hlast⟩
        | cons d taken =>
          obtain ⟨rfl, -⟩ := List.cons.inj htaken
          exact absurd (hp c List.mem_cons_self) hc

/-- The longest run is tried first. -/
theorem runs_eq_cons (p : α → Bool) (rest : List α) : ∀ last : Option α, ∃ shorter,
    runs p last rest = (lastOf last (rest.takeWhile p), rest.dropWhile p) :: shorter := by
  induction rest with
  | nil => exact fun last => ⟨[], rfl⟩
  | cons c rest ih =>
    intro last
    by_cases hc : p c = true
    · obtain ⟨shorter, h⟩ := ih (some c)
      exact ⟨shorter ++ [(last, c :: rest)], by simp [runs, hc, h, lastOf_cons]⟩
    · exact ⟨[], by simp [runs, hc]⟩

theorem runs_ne_nil (p : α → Bool) (last : Option α) (rest : List α) : runs p last rest ≠ [] := by
  obtain ⟨shorter, h⟩ := runs_eq_cons p rest last
  simp [h]

/-- The items do not start with such a character. -/
def Rejects (p : α → Bool) (items : List (Item α)) : Prop :=
  ∀ last c rest, p c = true → ends items (last, c :: rest) = []

/-- A run before items that do not start with its characters takes all of them. -/
theorem ends_many_of_rejects {p : α → Bool} {items : List (Item α)} (h : Rejects p items)
    (rest : List α) : ∀ last : Option α, ends (.many p :: items) (last, rest) =
      ends items (lastOf last (rest.takeWhile p), rest.dropWhile p) := by
  induction rest with
  | nil => simp [ends_cons, Item.ends, runs]
  | cons c rest ih =>
    intro last
    by_cases hc : p c = true
    · have hrun := ih (some c)
      simp only [ends_cons, Item.ends] at hrun ⊢
      simp [runs, hc, hrun, h last c rest hc, lastOf_cons]
    · simp [ends_cons, Item.ends, runs, hc]

theorem head?_flatMap_const {β γ : Type} {xs : List β} (hne : xs ≠ []) (ys : List γ) :
    (xs.flatMap fun _ => ys).head? = ys.head? := by
  obtain ⟨x, xs, rfl⟩ := List.exists_cons_of_ne_nil hne
  cases ys <;> simp

/-- A second run after a narrower one takes what the first one leaves: how they share the
characters makes no difference. -/
theorem capture_runs {p q : α → Bool} (hpq : ∀ c, p c = true → q c = true)
    {items : List (Item α)} (h : Rejects q items) (second : List (Item α)) (text : List α) :
    capture (.many p :: .many q :: items) second text =
      (captures items second (lastOf none (text.takeWhile q), text.dropWhile q)).head? := by
  have hsame : ∀ x ∈ runs p none text, ends (.many q :: items) x =
      ends items (lastOf none (text.takeWhile q), text.dropWhile q) := by
    intro x hx
    obtain ⟨taken, rfl, htaken, hlast⟩ := mem_runs.mp hx
    have hall : ∀ c ∈ taken, q c = true := fun c hc => hpq c (htaken c hc)
    rw [show x = (x.1, x.2) from rfl, ends_many_of_rejects h, hlast, ← lastOf_append,
      List.takeWhile_append_of_pos hall, List.dropWhile_append_of_pos hall]
  unfold capture captures
  rw [ends_cons, Item.ends, List.flatMap_congr hsame, List.flatMap_assoc]
  exact head?_flatMap_const (runs_ne_nil p none text) _

end Backtrack
