import Mathlib.Logic.Function.Basic
import Mathlib.Tactic.Common

/-! Programs that work on a shared state by queries, each of them atomic: run to the end, stopped
after some of its queries, or beside others in any interleaving. -/
namespace Interaction

/-- A program has returned, has raised, or asks a query and goes on with the answer. -/
inductive Program (Q R E α : Type) where
  | done (a : α)
  | raise (e : E)
  | query (q : Q) (next : R → Program Q R E α)

namespace Program

variable {Q R E α β σ : Type}

protected def bind : Program Q R E α → (α → Program Q R E β) → Program Q R E β
  | .done a, f => f a
  | .raise e, _ => .raise e
  | .query q next, f => .query q fun r => (next r).bind f

instance : Monad (Program Q R E) where
  pure := .done
  bind := .bind

@[simp] theorem done_bind (a : α) (f : α → Program Q R E β) :
    (Program.done a >>= f) = f a := rfl

@[simp] theorem pure_bind' (a : α) (f : α → Program Q R E β) :
    ((pure a : Program Q R E α) >>= f) = f a := rfl

@[simp] theorem raise_bind (e : E) (f : α → Program Q R E β) :
    ((.raise e : Program Q R E α) >>= f) = .raise e := rfl

def nextQuery : Program Q R E α → Option Q
  | .query q _ => some q
  | _ => none

/-- One query, with its answer. -/
def ask (q : Q) : Program Q R E R := .query q .done

/-- A value, or the exception instead. -/
def ofExcept : Except E α → Program Q R E α
  | .ok a => .done a
  | .error e => .raise e

@[simp] theorem ask_bind (q : Q) (f : R → Program Q R E β) : (ask q >>= f) = .query q f := rfl

@[simp] theorem ofExcept_ok (a : α) : (ofExcept (.ok a) : Program Q R E α) = .done a := rfl

@[simp] theorem ofExcept_error (e : E) : (ofExcept (.error e) : Program Q R E α) = .raise e := rfl

section

variable (answer : Q → σ → σ × R)

/-- The next query is answered; a program that has ended stays. -/
def advance : Program Q R E α → σ → σ × Program Q R E α
  | .query q next, s => ((answer q s).1, next (answer q s).2)
  | p, s => (s, p)

/-- At most so many queries. -/
def runFor : ℕ → Program Q R E α → σ → σ × Program Q R E α
  | 0, p, s => (s, p)
  | n + 1, p, s => runFor n (p.advance answer s).2 (p.advance answer s).1

def run : Program Q R E α → σ → σ × Except E α
  | .done a, s => (s, .ok a)
  | .raise e, s => (s, .error e)
  | .query q next, s => (next (answer q s).2).run (answer q s).1

@[simp] theorem run_done (a : α) (s : σ) :
    run answer (.done a : Program Q R E α) s = (s, .ok a) := rfl

@[simp] theorem run_raise (e : E) (s : σ) :
    run answer (.raise e : Program Q R E α) s = (s, .error e) := rfl

@[simp] theorem run_query (q : Q) (next : R → Program Q R E α) (s : σ) :
    run answer (.query q next) s = (next (answer q s).2).run answer (answer q s).1 := rfl

/-- A sequence runs one part after the other. -/
theorem run_bind (p : Program Q R E α) (f : α → Program Q R E β) :
    ∀ s : σ, (p >>= f).run answer s = match p.run answer s with
      | (s', .ok a) => (f a).run answer s'
      | (s', .error e) => (s', .error e) := by
  induction p with
  | done a => exact fun _ => rfl
  | raise e => exact fun _ => rfl
  | query q next ih => exact fun s => ih (answer q s).2 (answer q s).1

/-- A sequence that returns has run both parts. -/
theorem run_bind_ok {p : Program Q R E α} {f : α → Program Q R E β} {s : σ} {b : β}
    (h : ((p >>= f).run answer s).2 = .ok b) :
    ∃ a, (p.run answer s).2 = .ok a ∧ ((f a).run answer (p.run answer s).1).2 = .ok b := by
  rw [run_bind] at h
  rcases hp : p.run answer s with ⟨t, e | a⟩
  · rw [hp] at h
    cases h
  · rw [hp] at h
    exact ⟨a, rfl, h⟩

/-- A sequence that returns has run both parts, one after the other. -/
theorem run_bind_eq_ok {p : Program Q R E α} {f : α → Program Q R E β} {s s' : σ} {b : β} :
    (p >>= f).run answer s = (s', .ok b) ↔
      ∃ a t, p.run answer s = (t, .ok a) ∧ (f a).run answer t = (s', .ok b) := by
  rw [run_bind]
  rcases p.run answer s with ⟨t, e | a⟩
  · simp
  · constructor
    · exact fun h => ⟨a, t, rfl, h⟩
    · rintro ⟨a', t', hp, h⟩
      cases hp
      exact h

/-- Every query the program can ask leaves this part of the state as it is. -/
def Keeps {τ : Type} (f : σ → τ) : Program Q R E α → Prop
  | .query q next => (∀ s, f (answer q s).1 = f s) ∧ ∀ r, (next r).Keeps f
  | _ => True

theorem Keeps.bind {τ : Type} {f : σ → τ} {p : Program Q R E α} {next : α → Program Q R E β}
    (hp : p.Keeps answer f) (hnext : ∀ a, (next a).Keeps answer f) :
    (p >>= next).Keeps answer f := by
  induction p with
  | done a => exact hnext a
  | raise e => trivial
  | query q rest ih => exact ⟨hp.1, fun r => ih r (hp.2 r)⟩

theorem keeps_ofExcept {τ : Type} (f : σ → τ) (x : Except E α) :
    (ofExcept x : Program Q R E α).Keeps answer f := by
  cases x <;> trivial

theorem Keeps.run {τ : Type} {f : σ → τ} {p : Program Q R E α} (hp : p.Keeps answer f) :
    ∀ s, f (p.run answer s).1 = f s := by
  induction p with
  | done a => exact fun _ => rfl
  | raise e => exact fun _ => rfl
  | query q rest ih => exact fun s => (ih _ (hp.2 _) _).trans (hp.1 s)

/-- Two runs with one result go on to one result where the rest does not look at the state. -/
theorem run_bind_snd {p : Program Q R E α} {f : α → Program Q R E β} {s s' : σ}
    (h : (p.run answer s).2 = (p.run answer s').2)
    (hf : ∀ a t t', ((f a).run answer t).2 = ((f a).run answer t').2) :
    ((p >>= f).run answer s).2 = ((p >>= f).run answer s').2 := by
  rw [run_bind, run_bind]
  revert h
  rcases p.run answer s with ⟨t, e | a⟩ <;> rcases p.run answer s' with ⟨t', e' | a'⟩ <;>
    intro h <;> cases h
  · rfl
  · exact hf a t t'

@[simp] theorem run_ofExcept_snd (x : Except E α) (s : σ) :
    ((ofExcept x : Program Q R E α).run answer s).2 = x := by
  cases x <;> rfl

@[simp] theorem advance_query (q : Q) (next : R → Program Q R E α) (s : σ) :
    advance answer (.query q next) s = ((answer q s).1, next (answer q s).2) := rfl

@[simp] theorem advance_done (a : α) (s : σ) :
    advance answer (.done a : Program Q R E α) s = (s, .done a) := rfl

@[simp] theorem advance_raise (e : E) (s : σ) :
    advance answer (.raise e : Program Q R E α) s = (s, .raise e) := rfl

@[simp] theorem runFor_zero (p : Program Q R E α) (s : σ) : runFor answer 0 p s = (s, p) := rfl

@[simp] theorem runFor_done (n : ℕ) (a : α) (s : σ) :
    runFor answer n (.done a : Program Q R E α) s = (s, .done a) := by
  induction n with
  | zero => rfl
  | succ n ih => exact ih

end

end Program

/-- Programs beside each other on one state. -/
structure System (Q R E α ι σ : Type) where
  state : σ
  programs : ι → Program Q R E α

namespace System

variable {Q R E α ι σ : Type} [DecidableEq ι] (answer : Q → σ → σ × R)

/-- One of the programs has its next query answered. -/
def step (sys : System Q R E α ι σ) (i : ι) : System Q R E α ι σ where
  state := ((sys.programs i).advance answer sys.state).1
  programs := Function.update sys.programs i ((sys.programs i).advance answer sys.state).2

theorem programs_step_self (sys : System Q R E α ι σ) (i : ι) :
    (sys.step answer i).programs i = ((sys.programs i).advance answer sys.state).2 :=
  Function.update_self ..

theorem programs_step_ne (sys : System Q R E α ι σ) {i j : ι} (h : j ≠ i) :
    (sys.step answer i).programs j = sys.programs j :=
  Function.update_of_ne h ..

def run (sys : System Q R E α ι σ) (steps : List ι) : System Q R E α ι σ :=
  steps.foldl (step answer) sys

@[simp] theorem run_nil (sys : System Q R E α ι σ) : sys.run answer [] = sys := rfl

@[simp] theorem run_cons (sys : System Q R E α ι σ) (i : ι) (steps : List ι) :
    sys.run answer (i :: steps) = (sys.step answer i).run answer steps := rfl

end System
end Interaction
