import Mathlib.Tactic

/-! Asynchronous calls that may be dropped while they wait. A call works on a state that outlives
it; each await takes the next answer of the environment, and where the answers end the call is
dropped, with the state as it is then. -/
namespace Async

variable {π σ ε α β : Type*}

inductive Outcome (π σ ε α : Type*) where
  | waiting (state : σ)
  | returned (result : Except ε α) (state : σ) (rest : List π)

def Call (π σ ε α : Type*) := σ → List π → Outcome π σ ε α

namespace Call

def pure (value : α) : Call π σ ε α := fun state polls => .returned (.ok value) state polls

def throw (error : ε) : Call π σ ε α := fun state polls => .returned (.error error) state polls

/-- The rest of a call reads the state. -/
def withState (f : σ → Call π σ ε α) : Call π σ ε α := fun state => f state state

def modify (f : σ → σ) : Call π σ ε Unit := fun state polls => .returned (.ok ()) (f state) polls

def bind (x : Call π σ ε α) (f : α → Call π σ ε β) : Call π σ ε β := fun state polls =>
  match x state polls with
  | .waiting state => .waiting state
  | .returned (.ok value) state rest => f value state rest
  | .returned (.error error) state rest => .returned (.error error) state rest

instance : Monad (Call π σ ε) where
  pure := pure
  bind := bind

/-- What is done to the state when the call fails. -/
def onError (x : Call π σ ε α) (cleanup : σ → σ) : Call π σ ε α := fun state polls =>
  match x state polls with
  | .waiting state => .waiting state
  | .returned (.ok value) state rest => .returned (.ok value) state rest
  | .returned (.error error) state rest => .returned (.error error) (cleanup state) rest

end Call

/-- One turn of a loop: it goes on, or leaves with a result. -/
inductive Turn (σ ε α : Type*) where
  | next (state : σ)
  | stop (result : Except ε α) (state : σ)

/-- A loop with one await in each turn. An answer that does not make the await ready leaves it
waiting. -/
def awaitLoop (guard : σ → Bool) (body : σ → π → Option (Turn σ ε Unit)) (state : σ) :
    List π → Outcome π σ ε Unit
  | [] => if guard state then .waiting state else .returned (.ok ()) state []
  | poll :: rest =>
    if guard state then
      match body state poll with
      | none => awaitLoop guard body state rest
      | some (.next state') => awaitLoop guard body state' rest
      | some (.stop result state') => .returned result state' rest
    else .returned (.ok ()) state (poll :: rest)

/-! What holds wherever a call waits, fails or returns. -/

/-- From a state with `pre`: `wait` holds where the call may be dropped, `fail` where it fails and
`post` where it returns. -/
def Ensures (x : Call π σ ε α) (pre wait : σ → Prop) (fail : ε → σ → Prop)
    (post : α → σ → Prop) : Prop :=
  ∀ state polls, pre state →
    match x state polls with
    | .waiting state' => wait state'
    | .returned (.ok value) state' _ => post value state'
    | .returned (.error error) state' _ => fail error state'

variable {pre pre' wait wait' : σ → Prop} {fail fail' : ε → σ → Prop} {post post' : α → σ → Prop}
  {x : Call π σ ε α}

theorem ensures_pure {value : α} (h : ∀ state, pre state → post value state) :
    Ensures (Call.pure value : Call π σ ε α) pre wait fail post := fun state _ => h state

theorem ensures_throw {error : ε} (h : ∀ state, pre state → fail error state) :
    Ensures (Call.throw error : Call π σ ε α) pre wait fail post := fun state _ => h state

theorem ensures_modify {f : σ → σ} {post : Unit → σ → Prop}
    (h : ∀ state, pre state → post () (f state)) :
    Ensures (Call.modify f : Call π σ ε Unit) pre wait fail post := fun state _ => h state

/-- The state that is read is the one the rest of the call starts from. -/
theorem ensures_withState {f : σ → Call π σ ε α}
    (h : ∀ state, pre state → Ensures (f state) (fun state' => state' = state) wait fail post) :
    Ensures (Call.withState f) pre wait fail post := fun state polls hpre =>
  h state hpre state polls rfl

theorem Ensures.bind {middle : α → σ → Prop} {post : β → σ → Prop} {f : α → Call π σ ε β}
    (h : Ensures x pre wait fail middle)
    (hf : ∀ value, Ensures (f value) (middle value) wait fail post) :
    Ensures (x.bind f) pre wait fail post := by
  intro state polls hpre
  have hx := h state polls hpre
  unfold Call.bind
  cases hrun : x state polls with
  | waiting state' => rw [hrun] at hx; exact hx
  | returned result state' rest =>
    rw [hrun] at hx
    cases result with
    | ok value => exact hf value state' rest hx
    | error error => exact hx

theorem Ensures.onError {cleanup : σ → σ} (h : Ensures x pre wait fail post)
    (hfail : ∀ error state, fail error state → fail' error (cleanup state)) :
    Ensures (x.onError cleanup) pre wait fail' post := by
  intro state polls hpre
  have hx := h state polls hpre
  unfold Call.onError
  cases hrun : x state polls with
  | waiting state' => rw [hrun] at hx; exact hx
  | returned result state' rest =>
    rw [hrun] at hx
    cases result with
    | ok value => exact hx
    | error error => exact hfail error state' hx

/-- The invariant of a loop: every turn keeps it or leaves with what is asked for. -/
theorem ensures_awaitLoop {guard : σ → Bool} {body : σ → π → Option (Turn σ ε Unit)}
    {post : Unit → σ → Prop}
    (hturn : ∀ state poll, pre state → guard state = true →
      match body state poll with
      | none => True
      | some (.next state') => pre state'
      | some (.stop (.ok value) state') => post value state'
      | some (.stop (.error error) state') => fail error state')
    (hdone : ∀ state, pre state → guard state = false → post () state) :
    Ensures (awaitLoop guard body) pre pre fail post := by
  intro state polls
  induction polls generalizing state with
  | nil =>
    intro hpre
    unfold awaitLoop
    cases hguard : guard state with
    | true => exact hpre
    | false => exact hdone state hpre hguard
  | cons poll rest ih =>
    intro hpre
    unfold awaitLoop
    cases hguard : guard state with
    | false => exact hdone state hpre hguard
    | true =>
      have h := hturn state poll hpre hguard
      simp only [if_true]
      cases hbody : body state poll with
      | none => exact ih state hpre
      | some turn =>
        rw [hbody] at h
        cases turn with
        | next state' => exact ih state' h
        | stop result state' =>
          cases result with
          | ok value => exact h
          | error error => exact h

theorem Ensures.mono (h : Ensures x pre wait fail post) (hpre : ∀ state, pre' state → pre state)
    (hwait : ∀ state, wait state → wait' state)
    (hfail : ∀ error state, fail error state → fail' error state)
    (hpost : ∀ value state, post value state → post' value state) :
    Ensures x pre' wait' fail' post' := by
  intro state polls hstate
  have hx := h state polls (hpre state hstate)
  cases hrun : x state polls with
  | waiting state' => rw [hrun] at hx; exact hwait _ hx
  | returned result state' rest =>
    rw [hrun] at hx
    cases result with
    | ok value => exact hpost _ _ hx
    | error error => exact hfail _ _ hx

/-! How many ready answers a call needs. -/

variable {ready : π → Prop} {size : σ → ℕ} {extra extra' : ℕ}

/-- With `size` and `extra` many ready answers the call returns; it uses no more of them than
`size` drops, and `extra`. -/
def PromptFrom (ready : π → Prop) (size : σ → ℕ) (extra : ℕ) (x : Call π σ ε α) (state : σ) :
    Prop :=
  ∀ polls, (∀ poll ∈ polls, ready poll) → size state + extra ≤ polls.length →
    ∃ result state' rest, x state polls = .returned result state' rest ∧
      (∀ poll ∈ rest, ready poll) ∧ polls.length + size state' ≤ rest.length + size state + extra

def Prompt (ready : π → Prop) (size : σ → ℕ) (extra : ℕ) (x : Call π σ ε α) : Prop :=
  ∀ state, PromptFrom ready size extra x state

theorem prompt_pure {value : α} : Prompt ready size 0 (Call.pure value : Call π σ ε α) :=
  fun state polls hready _ => ⟨_, state, polls, rfl, hready, by omega⟩

theorem prompt_throw {error : ε} : Prompt ready size 0 (Call.throw error : Call π σ ε α) :=
  fun state polls hready _ => ⟨_, state, polls, rfl, hready, by omega⟩

theorem prompt_modify {f : σ → σ} {state : σ} (h : size (f state) = size state) :
    PromptFrom ready size 0 (Call.modify f : Call π σ ε Unit) state := fun polls hready _ =>
  ⟨_, f state, polls, rfl, hready, by rw [h]; omega⟩

theorem prompt_withState {f : σ → Call π σ ε α}
    (h : ∀ state, PromptFrom ready size extra (f state) state) :
    Prompt ready size extra (Call.withState f) := fun state => h state

theorem Prompt.mono (h : Prompt ready size extra x) (hle : extra ≤ extra') :
    Prompt ready size extra' x := by
  intro state polls hready hlength
  obtain ⟨result, state', rest, hrun, hrest, hused⟩ := h state polls hready (by omega)
  exact ⟨result, state', rest, hrun, hrest, by omega⟩

theorem Prompt.bind {f : α → Call π σ ε β} (h : Prompt ready size extra x)
    (hf : ∀ value, Prompt ready size extra' (f value)) :
    Prompt ready size (extra + extra') (x.bind f) := by
  intro state polls hready hlength
  obtain ⟨result, state', rest, hrun, hrest, hused⟩ := h state polls hready (by omega)
  unfold Call.bind
  rw [hrun]
  cases result with
  | ok value =>
    obtain ⟨result', state'', rest', hrun', hrest', hused'⟩ := hf value state' rest hrest (by omega)
    exact ⟨result', state'', rest', hrun', hrest', by omega⟩
  | error error => exact ⟨_, _, _, rfl, hrest, by omega⟩

theorem Prompt.onError {cleanup : σ → σ} (h : Prompt ready size extra x)
    (hsize : ∀ state, size (cleanup state) = size state) :
    Prompt ready size extra (x.onError cleanup) := by
  intro state polls hready hlength
  obtain ⟨result, state', rest, hrun, hrest, hused⟩ := h state polls hready hlength
  unfold Call.onError
  rw [hrun]
  cases result with
  | ok value => exact ⟨_, _, _, rfl, hrest, hused⟩
  | error error =>
    refine ⟨_, _, _, rfl, hrest, ?_⟩
    rw [hsize]
    exact hused

/-- Each turn of the loop lowers the size, or leaves. -/
theorem prompt_awaitLoop {guard : σ → Bool} {body : σ → π → Option (Turn σ ε Unit)}
    (hturn : ∀ state poll, ready poll → guard state = true →
      match body state poll with
      | none => False
      | some (.next state') => size state' < size state
      | some (.stop _ state') => size state' ≤ size state) :
    Prompt ready size 1 (awaitLoop guard body) := by
  intro state polls
  induction polls generalizing state with
  | nil =>
    intro _ hlength
    simp at hlength
  | cons poll rest ih =>
    intro hready hlength
    rw [List.forall_mem_cons] at hready
    rw [List.length_cons] at hlength
    unfold awaitLoop
    cases hguard : guard state with
    | false =>
      exact ⟨_, _, _, rfl, List.forall_mem_cons.mpr hready, by omega⟩
    | true =>
      have h := hturn state poll hready.1 hguard
      simp only [if_true]
      cases hbody : body state poll with
      | none => rw [hbody] at h; exact h.elim
      | some turn =>
        rw [hbody] at h
        cases turn with
        | next state' =>
          simp only at h
          obtain ⟨result, state'', rest', hrun, hrest, hused⟩ := ih state' hready.2 (by omega)
          refine ⟨result, state'', rest', hrun, hrest, ?_⟩
          rw [List.length_cons]
          omega
        | stop result state' =>
          simp only at h
          refine ⟨result, state', rest, rfl, hready.2, ?_⟩
          rw [List.length_cons]
          omega

end Async
