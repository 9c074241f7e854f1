import Mathlib.Logic.Basic

/-! Runs of a step function over a list of operations: an operation may fail, and a run may be
restricted to operations that meet a condition in the state they are applied to. -/
namespace Run

universe u

variable {σ τ ω ε : Type*}

/-- A sequence that succeeds succeeds in each of its parts. -/
theorem bind_eq_ok {α β : Type*} {x : Except ε α} {f : α → Except ε β} {b : β} :
    x.bind f = .ok b ↔ ∃ a, x = .ok a ∧ f a = .ok b := by
  cases x <;> simp [Except.bind]

/-- A computation that does not succeed ends with an error of its own, with a panic, or because the
fuel of a loop is used up. -/
inductive Stop (ε : Type*) where
  | error (error : ε)
  | panic
  | exhausted
  deriving DecidableEq, Repr

theorem bind_ok {α β : Type u} {x : Except ε α} {f : α → Except ε β} {b : β} :
    (x >>= f) = .ok b ↔ ∃ a, x = .ok a ∧ f a = .ok b := bind_eq_ok

theorem map_eq_ok {α β : Type*} {x : Except ε α} {f : α → β} {b : β} :
    x.map f = .ok b ↔ ∃ a, x = .ok a ∧ f a = b := by
  cases x <;> simp [Except.map]

theorem forM_eq_ok {α : Type*} {xs : List α} {f : α → Except ε Unit} :
    xs.forM f = .ok () ↔ ∀ x ∈ xs, f x = .ok () := by
  induction xs with
  | nil => exact iff_of_true rfl fun _ h => nomatch h
  | cons x xs ih =>
    change (f x >>= fun _ => xs.forM f) = _ ↔ _
    rw [bind_ok, List.forall_mem_cons, ← ih]
    constructor
    · rintro ⟨_, hx, hxs⟩
      exact ⟨hx, hxs⟩
    · rintro ⟨hx, hxs⟩
      exact ⟨(), hx, hxs⟩

/-- A fold that succeeds succeeds at each item. -/
theorem foldlM_ok_mem {α : Type*} {β : Type u} {f : β → α → Except ε β} {xs : List α} :
    ∀ {s s' : β}, xs.foldlM f s = .ok s' → ∀ x ∈ xs, ∃ s₁ s₂, f s₁ x = .ok s₂ := by
  induction xs with
  | nil => exact fun _ _ h => nomatch h
  | cons x xs ih =>
    intro s s' h
    rw [List.foldlM_cons] at h
    obtain ⟨s₁, hx, hxs⟩ := bind_ok.mp h
    rw [List.forall_mem_cons]
    exact ⟨⟨s, s₁, hx⟩, ih hxs⟩

/-- If the computation succeeds, its result has the property. -/
def OnOk {α : Type*} (x : Except ε α) (P : α → Prop) : Prop := ∀ a, x = .ok a → P a

instance {α : Type*} {P : α → Prop} [DecidablePred P] :
    ∀ x : Except ε α, Decidable (OnOk x P)
  | .ok a => decidable_of_iff (P a) (by simp [OnOk])
  | .error _ => isTrue fun _ h => by cases h

/-- The computation stops for an allowed reason or its result has the property. -/
def Ensures {α : Type*} (allowed : ε → Prop) (x : Except ε α) (P : α → Prop) : Prop :=
  match x with
  | .ok a => P a
  | .error e => allowed e

theorem Ensures.bind {α β : Type*} {allowed : ε → Prop} {x : Except ε α} {f : α → Except ε β}
    {P : α → Prop} {Q : β → Prop} (h : Ensures allowed x P)
    (hf : ∀ a, P a → Ensures allowed (f a) Q) : Ensures allowed (x.bind f) Q := by
  cases x with
  | ok a => exact hf a h
  | error e => exact h

theorem Ensures.bind' {α β : Type u} {allowed : ε → Prop} {x : Except ε α} {f : α → Except ε β}
    {P : α → Prop} {Q : β → Prop} (h : Ensures allowed x P)
    (hf : ∀ a, P a → Ensures allowed (f a) Q) : Ensures allowed (x >>= f) Q := h.bind hf

theorem Ensures.mono {α : Type*} {allowed : ε → Prop} {x : Except ε α} {P Q : α → Prop}
    (h : Ensures allowed x P) (hPQ : ∀ a, P a → Q a) : Ensures allowed x Q := by
  cases x with
  | ok a => exact hPQ a h
  | error e => exact h

/-- Apply the operations in order, stopping at the first failure. -/
def exec (step : σ → ω → Except ε σ) : σ → List ω → Except ε σ
  | s, [] => .ok s
  | s, op :: ops =>
    match step s op with
    | .ok s' => exec step s' ops
    | .error e => .error e

/-- Forward simulation: if each admissible step succeeds and follows `spec`, so does a run. -/
theorem exec_simulates {step : σ → ω → Except ε σ} {spec : τ → ω → τ} {R : σ → τ → Prop}
    {P : ω → Prop}
    (hstep : ∀ s t op, P op → R s t → ∃ s', step s op = .ok s' ∧ R s' (spec t op)) :
    ∀ (ops : List ω) (s : σ) (t : τ), (∀ op ∈ ops, P op) → R s t →
      ∃ s', exec step s ops = .ok s' ∧ R s' (ops.foldl spec t) := by
  intro ops
  induction ops with
  | nil => intro s t _ h; exact ⟨s, rfl, h⟩
  | cons op ops ih =>
    intro s t hP h
    obtain ⟨s₁, h₁, hR⟩ := hstep s t op (hP op List.mem_cons_self) h
    obtain ⟨s₂, h₂, hR₂⟩ := ih s₁ (spec t op) (fun o ho => hP o (List.mem_cons_of_mem _ ho)) hR
    exact ⟨s₂, by simp only [exec, h₁, h₂], hR₂⟩

/-- Every operation of the run meets `C` in the state it is applied to. -/
def Along (C : σ → ω → Prop) (step : σ → ω → σ) : σ → List ω → Prop
  | _, [] => True
  | s, op :: ops => C s op ∧ Along C step (step s op) ops

instance decidableAlong {C : σ → ω → Prop} [∀ s op, Decidable (C s op)] {step : σ → ω → σ} :
    ∀ s ops, Decidable (Along C step s ops)
  | _, [] => isTrue trivial
  | s, op :: ops => @instDecidableAnd _ _ _ (decidableAlong (step s op) ops)

/-- What every admissible step preserves holds at the end of every admissible run. -/
theorem foldl_invariant {C : σ → ω → Prop} {step : σ → ω → σ} {I : σ → Prop}
    (hstep : ∀ s op, C s op → I s → I (step s op)) :
    ∀ (ops : List ω) (s : σ), Along C step s ops → I s → I (ops.foldl step s) := by
  intro ops
  induction ops with
  | nil => intro s _ h; exact h
  | cons op ops ih => intro s hC h; exact ih _ hC.2 (hstep s op hC.1 h)

/-- What every step preserves holds at the end of every run. -/
theorem foldl_keeps {step : σ → ω → σ} {I : σ → Prop} (hstep : ∀ s op, I s → I (step s op)) :
    ∀ (ops : List ω) (s : σ), I s → I (ops.foldl step s) := by
  intro ops
  induction ops with
  | nil => intro s h; exact h
  | cons op ops ih => intro s h; exact ih _ (hstep s op h)

/-- What every operation of a kind preserves holds at the end of every run of such operations. -/
theorem foldl_keeps_of_mem {step : σ → ω → σ} {P : ω → Prop} {I : σ → Prop}
    (hstep : ∀ s op, P op → I s → I (step s op)) :
    ∀ (ops : List ω) (s : σ), (∀ op ∈ ops, P op) → I s → I (ops.foldl step s) := by
  intro ops
  induction ops with
  | nil => intro s _ h; exact h
  | cons op ops ih =>
    intro s hP h
    rw [List.forall_mem_cons] at hP
    exact ih _ hP.2 (hstep s op hP.1 h)

/-- What holds at every admissible step from a state of an invariant holds along the run. -/
theorem along_of_invariant {C Q : σ → ω → Prop} {step : σ → ω → σ} {I : σ → Prop}
    (hstep : ∀ s op, C s op → I s → Q s op ∧ I (step s op)) :
    ∀ (ops : List ω) (s : σ), Along C step s ops → I s → Along Q step s ops := by
  intro ops
  induction ops with
  | nil => intro s _ _; trivial
  | cons op ops ih =>
    intro s hC h
    obtain ⟨hQ, hI⟩ := hstep s op hC.1 h
    exact ⟨hQ, ih _ hC.2 hI⟩

theorem along_append {C : σ → ω → Prop} {step : σ → ω → σ} (ops ops' : List ω) (s : σ) :
    Along C step s (ops ++ ops') ↔ Along C step s ops ∧ Along C step (ops.foldl step s) ops' := by
  induction ops generalizing s with
  | nil => exact (iff_of_eq (true_and _)).symm
  | cons op ops ih => exact (and_congr_right fun _ => ih _).trans and_assoc.symm

/-- A condition that two good states around a step imply holds along a run of good states. -/
theorem along_of_prefixes {C : σ → ω → Prop} {step : σ → ω → σ} {I P : σ → Prop}
    (hI : ∀ s op, I s → I (step s op)) (hC : ∀ s op, I s → P s → P (step s op) → C s op) :
    ∀ (ops : List ω) (s : σ), I s → (∀ pre, pre <+: ops → P (pre.foldl step s)) →
      Along C step s ops := by
  intro ops
  induction ops with
  | nil => intro s _ _; trivial
  | cons op ops ih =>
    intro s h hP
    refine ⟨hC s op h (hP [] ⟨_, rfl⟩) (hP [op] ⟨ops, rfl⟩), ih _ (hI s op h) fun pre hpre => ?_⟩
    obtain ⟨rest, rfl⟩ := hpre
    exact hP (op :: pre) ⟨rest, rfl⟩

theorem along_and_of_mem {C : σ → ω → Prop} {step : σ → ω → σ} {P : ω → Prop} :
    ∀ (ops : List ω) (s : σ), Along C step s ops → (∀ op ∈ ops, P op) →
      Along (fun s op => C s op ∧ P op) step s ops := by
  intro ops
  induction ops with
  | nil => intro s _ _; trivial
  | cons op ops ih =>
    intro s hC hP
    exact ⟨⟨hC.1, hP op List.mem_cons_self⟩,
      ih _ hC.2 fun o ho => hP o (List.mem_cons_of_mem _ ho)⟩

/-- Two conditions that agree on every state of an invariant agree along a run, when the second
one preserves the invariant. -/
theorem along_congr {P C : σ → ω → Prop} {step : σ → ω → σ} {I : σ → Prop}
    (hiff : ∀ s op, I s → (P s op ↔ C s op))
    (hstep : ∀ s op, C s op → I s → I (step s op)) :
    ∀ (ops : List ω) (s : σ), I s → (Along P step s ops ↔ Along C step s ops) := by
  intro ops
  induction ops with
  | nil => intro s _; exact Iff.rfl
  | cons op ops ih =>
    intro s h
    constructor
    · intro hP
      have hC := (hiff s op h).mp hP.1
      exact ⟨hC, (ih _ (hstep s op hC h)).mp hP.2⟩
    · intro hC
      exact ⟨(hiff s op h).mpr hC.1, (ih _ (hstep s op hC.1 h)).mpr hC.2⟩

/-- An entry of a longer log is the last one, or was there before. -/
theorem split_concat {α : Type*} {log before rest : List α} {x e : α}
    (h : log ++ [e] = before ++ x :: rest) :
    rest = [] ∧ e = x ∧ log = before ∨ ∃ rest', rest = rest' ++ [e] ∧ log = before ++ x :: rest' := by
  rcases List.eq_nil_or_concat rest with rfl | ⟨rest', last, rfl⟩
  · obtain ⟨hlog, hx⟩ := List.append_inj' h rfl
    exact .inl ⟨rfl, (List.cons.inj hx).1, hlog⟩
  · rw [List.concat_eq_append, ← List.cons_append, ← List.append_assoc] at h
    obtain ⟨hlog, hlast⟩ := List.append_inj' h rfl
    obtain rfl := (List.cons.inj hlast).1
    exact .inr ⟨rest', List.concat_eq_append, hlog⟩

/-! Two runs over the same operations, the second without those that are left out. -/

/-- Every operation that both runs take meets `C` in the two states it is applied to. -/
def AlongBoth (C : σ → σ → ω → Prop) (left : ω → Bool) (step : σ → ω → σ) :
    σ → σ → List ω → Prop
  | _, _, [] => True
  | s, t, op :: ops =>
    (left op = false → C s t op) ∧
      AlongBoth C left step (step s op) (if left op then t else step t op) ops

instance decidableAlongBoth {C : σ → σ → ω → Prop} [∀ s t op, Decidable (C s t op)]
    {left : ω → Bool} {step : σ → ω → σ} :
    ∀ s t ops, Decidable (AlongBoth C left step s t ops)
  | _, _, [] => isTrue trivial
  | s, t, op :: ops =>
    @instDecidableAnd _ _ inferInstance
      (decidableAlongBoth (step s op) (if left op then t else step t op) ops)

/-- Unwinding: a relation that the operations left out do not disturb, and the others keep, holds
at the ends of both runs. -/
theorem foldl_unwinding {C : σ → σ → ω → Prop} {left : ω → Bool} {step : σ → ω → σ}
    {I : σ → Prop} {R : σ → σ → Prop} (hI : ∀ s op, I s → I (step s op))
    (hleft : ∀ s t op, I s → left op = true → R s t → R (step s op) t)
    (hstep : ∀ s t op, I s → I t → left op = false → C s t op → R s t →
      R (step s op) (step t op)) :
    ∀ (ops : List ω) (s t : σ), I s → I t → R s t → AlongBoth C left step s t ops →
      R (ops.foldl step s) ((ops.filter fun op => !left op).foldl step t) := by
  intro ops
  induction ops with
  | nil => intro s t _ _ h _; exact h
  | cons op ops ih =>
    intro s t hs ht h hC
    obtain ⟨hop, hrest⟩ := hC
    cases hl : left op with
    | true =>
      rw [hl, if_pos rfl] at hrest
      rw [List.filter_cons_of_neg (by simp [hl])]
      exact ih _ _ (hI s op hs) ht (hleft s t op hs hl h) hrest
    | false =>
      rw [hl, if_neg Bool.false_ne_true] at hrest
      rw [List.filter_cons_of_pos (by simp [hl])]
      exact ih _ _ (hI s op hs) (hI t op ht) (hstep s t op hs ht hl (hop hl) h) hrest

end Run
