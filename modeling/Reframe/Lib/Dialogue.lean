import Reframe.Lib.Run
import Mathlib.Tactic.Common

/-! Programs that ask their surroundings for answers, each operation with answers of its own type.
A run is the list of the questions with the answers they were given; what holds after every run is
proved with a weakest precondition over a record of the run so far. -/
namespace Dialogue
open Run

variable {Op : Type} {Ans : Op → Type} {ε α β γ H : Type}

/-- A program has returned, has stopped, or asks and goes on with the answer. -/
inductive Program (Op : Type) (Ans : Op → Type) (ε α : Type) where
  | done (a : α)
  | stop (why : Stop ε)
  | call (op : Op) (next : Ans op → Program Op Ans ε α)

/-- A question with its answer. -/
abbrev Event (Ans : Op → Type) := (op : Op) × Ans op

namespace Program

protected def bind : Program Op Ans ε α → (α → Program Op Ans ε β) → Program Op Ans ε β
  | .done a, f => f a
  | .stop why, _ => .stop why
  | .call op next, f => .call op fun answer => (next answer).bind f

instance : Monad (Program Op Ans ε) where
  pure := .done
  bind := .bind

def ask (op : Op) : Program Op Ans ε (Ans op) := .call op .done

/-- The body is repeated until it leaves the loop. -/
def loop (body : β → Program Op Ans ε (β ⊕ γ)) : ℕ → β → Program Op Ans ε γ
  | 0, _ => .stop .exhausted
  | fuel + 1, b => do
    match ← body b with
    | .inl b' => loop body fuel b'
    | .inr c => pure c

/-- The program returns the value when its questions are answered so, in this order. -/
inductive Returns : Program Op Ans ε α → List (Event Ans) → α → Prop where
  | done (a : α) : Returns (.done a) [] a
  | call {op : Op} {next : Ans op → Program Op Ans ε α} {answer : Ans op}
      {trace : List (Event Ans)} {a : α} :
      Returns (next answer) trace a → Returns (.call op next) (⟨op, answer⟩ :: trace) a

/-- The program panics when its questions are answered so. -/
inductive Panics : Program Op Ans ε α → List (Event Ans) → Prop where
  | panic : Panics (.stop .panic) []
  | call {op : Op} {next : Ans op → Program Op Ans ε α} {answer : Ans op}
      {trace : List (Event Ans)} :
      Panics (next answer) trace → Panics (.call op next) (⟨op, answer⟩ :: trace)

/-- A sequence that returns has run one part after the other. -/
theorem returns_bind {p : Program Op Ans ε α} {f : α → Program Op Ans ε β} {b : β} :
    ∀ {trace : List (Event Ans)}, (p >>= f).Returns trace b →
      ∃ first a rest, trace = first ++ rest ∧ p.Returns first a ∧ (f a).Returns rest b := by
  induction p with
  | done a => exact fun {trace} h => ⟨[], a, trace, rfl, .done a, h⟩
  | stop why => exact fun h => nomatch h
  | call op next ih =>
    intro trace h
    cases h with
    | @call _ _ answer _ _ h =>
      obtain ⟨first, a, rest, rfl, hfirst, hrest⟩ := ih answer h
      exact ⟨_, a, rest, rfl, .call hfirst, hrest⟩

/-- The run of a program whose questions are answered by what has been recorded before them. -/
def follow (record : H → Event Ans → H) (answer : H → (op : Op) → Ans op) :
    H → Program Op Ans ε α → Except (Stop ε) (List (Event Ans) × α)
  | _, .done a => .ok ([], a)
  | _, .stop why => .error why
  | h, .call op next =>
    ((next (answer h op)).follow record answer (record h ⟨op, answer h op⟩)).map fun r =>
      (⟨op, answer h op⟩ :: r.1, r.2)

theorem returns_of_follow {record : H → Event Ans → H} {answer : H → (op : Op) → Ans op}
    {p : Program Op Ans ε α} : ∀ {h : H} {trace : List (Event Ans)} {a : α},
      p.follow record answer h = .ok (trace, a) → p.Returns trace a := by
  induction p with
  | done a =>
    intro h trace b hfollow
    cases hfollow
    exact .done a
  | stop why => exact fun hfollow => nomatch hfollow
  | call op next ih =>
    intro h trace b hfollow
    obtain ⟨⟨rest, a⟩, hrest, heq⟩ := Run.map_eq_ok.mp hfollow
    cases heq
    exact .call (ih _ hrest)

section Ensures

variable (record : H → Event Ans → H)

/-- The program does not panic, and every value it returns meets the postcondition, with what has
been recorded by then. -/
def Ensures (Q : α → H → Prop) : Program Op Ans ε α → H → Prop
  | .done a, h => Q a h
  | .stop why, _ => why ≠ .panic
  | .call op next, h => ∀ answer, (next answer).Ensures Q (record h ⟨op, answer⟩)

variable {record} {Q Q' : α → H → Prop} {p : Program Op Ans ε α} {h : H}

@[simp] theorem ensures_done {a : α} : Ensures record Q (.done a : Program Op Ans ε α) h ↔ Q a h :=
  Iff.rfl

@[simp] theorem ensures_pure {a : α} :
    Ensures record Q (pure a : Program Op Ans ε α) h ↔ Q a h := Iff.rfl

@[simp] theorem ensures_stop {why : Stop ε} :
    Ensures record Q (.stop why : Program Op Ans ε α) h ↔ why ≠ .panic := Iff.rfl

@[simp] theorem ensures_ask {op : Op} {Q : Ans op → H → Prop} :
    Ensures record Q (ask op : Program Op Ans ε (Ans op)) h ↔
      ∀ answer, Q answer (record h ⟨op, answer⟩) := Iff.rfl

@[simp] theorem ensures_bind {f : α → Program Op Ans ε β} {Q : β → H → Prop} :
    Ensures record Q (p >>= f) h ↔ Ensures record (fun a h => Ensures record Q (f a) h) p h := by
  induction p generalizing h with
  | done a => exact Iff.rfl
  | stop why => exact Iff.rfl
  | call op next ih => exact forall_congr' fun answer => ih answer

theorem Ensures.mono (hp : Ensures record Q p h) (hQ : ∀ a h, Q a h → Q' a h) :
    Ensures record Q' p h := by
  induction p generalizing h with
  | done a => exact hQ a h hp
  | stop why => exact hp
  | call op next ih => exact fun answer => ih answer (hp answer)

/-- A loop keeps its invariant until it is left. -/
theorem ensures_loop {body : β → Program Op Ans ε (β ⊕ γ)} {I : β → H → Prop} {Q : γ → H → Prop}
    (hbody : ∀ b h, I b h → Ensures record (fun r h => r.elim (I · h) (Q · h)) (body b) h) :
    ∀ (fuel : ℕ) {b : β} {h : H}, I b h → Ensures record Q (loop body fuel b) h := by
  intro fuel
  induction fuel with
  | zero => exact fun _ => by simp [loop]
  | succ fuel ih =>
    intro b h hI
    rw [loop, ensures_bind]
    refine (hbody b h hI).mono fun r h hr => ?_
    cases r with
    | inl b' => exact ih hr
    | inr c => exact hr

theorem Ensures.returns {trace : List (Event Ans)} {a : α} (hreturns : p.Returns trace a) :
    ∀ {h : H}, Ensures record Q p h → Q a (trace.foldl record h) := by
  induction hreturns with
  | done a => exact id
  | call _ ih => exact fun hp => ih (hp _)

theorem Ensures.not_panics {trace : List (Event Ans)} (hpanics : p.Panics trace) :
    ∀ {h : H}, ¬ Ensures record Q p h := by
  induction hpanics with
  | panic => exact fun hp => hp rfl
  | call _ ih => exact fun hp => ih (hp _)

end Ensures

end Program
end Dialogue
