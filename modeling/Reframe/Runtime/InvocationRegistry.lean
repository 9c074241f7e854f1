import Reframe.Lib.Run
import Reframe.Runtime.SessionState

/-! What holds of a session's registry in every interleaving: the reservation counter follows the
registry, and an invocation leaves it through its own completion or cancellation as long as none
is registered while another one of the same request id still has to be finished. -/
namespace Runtime

/-- The actor holds a reservation for an invocation that is not in the registry. -/
def Stage.midUpdate : Stage → Bool
  | .reserved | .releasing | .release => true
  | _ => false

/-- The actor will remove its request id from the registry. -/
def Stage.finishing : Stage → Bool
  | .registered | .running | .cancelling | .finishRequest | .complete | .remove => true
  | _ => false

def Actor.midUpdate (actor : Actor) : Bool := actor.stage.midUpdate

def Actor.finishing (actor : Actor) : Bool := actor.stage.finishing

namespace Session

/-- The counter bounds the registry and is bounded by the limit; it is exact when no reservation
is under way. -/
def CountsAgree (maximum : ℕ) (session : Session) : Prop :=
  session.state.invocations.keys.card ≤ session.state.activeInvocations ∧
    session.state.activeInvocations ≤ maximum ∧
      ((∀ actor ∈ session.actors, actor.midUpdate = false) →
        session.state.activeInvocations = session.state.invocations.keys.card)

instance (maximum : ℕ) (session : Session) : Decidable (CountsAgree maximum session) :=
  inferInstanceAs (Decidable (_ ∧ _ ∧ _))

/-- An entry leaves the registry only when an actor of that invocation finishes it. -/
def RemovedByOwn (maximum : ℕ) (session : Session) (event : Event) : Prop :=
  ∀ entry ∈ session.state.invocations.toList,
    (session.step maximum event).state.invocations.get? entry.1 ≠ some entry.2 →
      ∃ actor ∈ session.actorOf event, actor.stage = .remove ∧ actor.owner = entry.2

instance (maximum : ℕ) (session : Session) (event : Event) :
    Decidable (RemovedByOwn maximum session event) :=
  inferInstanceAs (Decidable (∀ entry ∈ session.state.invocations.toList,
    (session.step maximum event).state.invocations.get? entry.1 ≠ some entry.2 →
      ∃ actor ∈ session.actorOf event, actor.stage = .remove ∧ actor.owner = entry.2))

/-- When the event registers an invocation, no other one of its request id is being finished. -/
def NoPendingFinish (session : Session) : Event → Prop
  | .advance index =>
    ∀ actor ∈ session.actors[index]?, actor.stage = .reserved → session.state.closed = false →
      session.state.invocations.get? actor.id = none →
        ∀ other ∈ session.actors, other.finishing = true → other.id = actor.id →
          other.owner = actor.owner
  | _ => True

instance (session : Session) : ∀ event, Decidable (session.NoPendingFinish event)
  | .advance index => inferInstanceAs (Decidable (∀ actor ∈ session.actors[index]?, _))
  | .request _ _ | .shutdown | .refuse _ | .spawnCancellation _ _ | .abort _ =>
    inferInstanceAs (Decidable True)

/-- What one event can do: nothing, start a request or a close, let an actor take its next step,
turn a request down, spawn a cancellation or abort a task. -/
theorem step_rule {maximum : ℕ} {session : Session} {event : Event} {P : Session → Prop}
    (same : P session)
    (start : ∀ (requests : Finset String) (serial : ℕ) (other : Actor),
      (∃ message, other.stage = .routing message) → other.id = other.owner.requestId →
        P (Session.spawn ⟨{ session.state with requests }, session.actors, serial⟩ other))
    (advance : ∀ index actor, event = .advance index → session.actors[index]? = some actor →
      P (session.advance maximum index actor))
    (refuse : ∀ index actor, session.actors[index]? = some actor →
      actor.stage = .routing .execute → P (session.leave index actor))
    (cancel : ∀ id, P (session.cancelOne id))
    (stop : ∀ index actor, session.actors[index]? = some actor → actor.awaiting = true →
      P (session.setStage index actor .done)) :
    P (session.step maximum event) := by
  cases event with
  | request id message =>
    simp only [Session.step, Session.request]
    split
    · exact same
    · exact start _ _ _ ⟨message, rfl⟩ rfl
  | shutdown => exact start session.state.requests session.serial _ ⟨_, rfl⟩ rfl
  | advance index =>
    cases hactor : session.actors[index]? with
    | none => simpa [Session.step, actorOf, hactor] using same
    | some actor => simpa [Session.step, actorOf, hactor] using advance index actor rfl hactor
  | refuse index =>
    cases hactor : session.actors[index]? with
    | none => simpa [Session.step, actorOf, hactor] using same
    | some actor =>
      simp only [Session.step, actorOf, hactor]
      split <;> rename_i hstage
      · exact refuse index actor hactor hstage
      · exact same
  | spawnCancellation index id =>
    cases hactor : session.actors[index]? with
    | none => simpa [Session.step, actorOf, hactor] using same
    | some actor =>
      simp only [Session.step, actorOf, hactor]
      split
      · exact cancel id
      · exact same
  | abort index =>
    cases hactor : session.actors[index]? with
    | none => simpa [Session.step, actorOf, hactor] using same
    | some actor =>
      simp only [Session.step, actorOf, hactor, Session.abort]
      split <;> rename_i hmay
      · exact stop index actor hactor (Bool.and_eq_true_iff.mp hmay).1
      · exact same

/-! The counter. -/

theorem countP_set {α : Type*} (p : α → Bool) {l : List α} {index : ℕ} {a : α}
    (h : l[index]? = some a) (b : α) :
    (l.set index b).countP p + (p a).toNat = l.countP p + (p b).toNat := by
  obtain ⟨hlt, rfl⟩ := List.getElem?_eq_some_iff.mp h
  have hpos : p l[index] = true → 0 < l.countP p := fun hp =>
    List.countP_pos_iff.mpr ⟨_, List.getElem_mem hlt, hp⟩
  rw [List.countP_set hlt]
  cases hp : p l[index] with
  | true =>
    have := hpos hp
    cases p b <;> simp <;> omega
  | false => cases p b <;> simp

/-- The reservations are the registered invocations and those under way. -/
structure Counted (maximum : ℕ) (session : Session) : Prop where
  active : session.state.activeInvocations =
    session.state.invocations.keys.card + session.actors.countP Actor.midUpdate
  bounded : session.state.activeInvocations ≤ maximum

theorem Counted.countsAgree {maximum : ℕ} {session : Session} (h : session.Counted maximum) :
    session.CountsAgree maximum := by
  refine ⟨by have := h.active; omega, h.bounded, fun hnone => ?_⟩
  rw [h.active, List.countP_eq_zero.mpr]
  · rfl
  · intro actor hactor
    simp [hnone actor hactor]

section Counted

variable {maximum index : ℕ} {session : Session} {actor : Actor}

/-- The reservations change with the registry and the actor's own share in them. -/
theorem Counted.update (hactor : session.actors[index]? = some actor)
    (h : session.Counted maximum) {state : SessionState} {moved : Actor} {serial : ℕ}
    {b c : Bool} (hfrom : actor.midUpdate = b) (hto : moved.midUpdate = c)
    (hactive : state.activeInvocations + session.state.invocations.keys.card + b.toNat =
      session.state.activeInvocations + state.invocations.keys.card + c.toNat)
    (hbound : state.activeInvocations ≤ maximum) :
    Counted maximum ⟨state, session.actors.set index moved, serial⟩ := by
  have hcount := countP_set Actor.midUpdate hactor moved
  rw [hfrom, hto] at hcount
  have hold := h.active
  have hnew : state.activeInvocations = state.invocations.keys.card +
      (session.actors.set index moved).countP Actor.midUpdate := by omega
  exact ⟨hnew, hbound⟩

/-- An actor without a reservation that touches neither the registry nor the counter. -/
theorem Counted.move (hactor : session.actors[index]? = some actor) (h : session.Counted maximum)
    {state : SessionState} {moved : Actor} {serial : ℕ} (hfrom : actor.midUpdate = false)
    (hto : moved.midUpdate = false) (hinvocations : state.invocations = session.state.invocations)
    (hactive : state.activeInvocations = session.state.activeInvocations) :
    Counted maximum ⟨state, session.actors.set index moved, serial⟩ := by
  apply h.update hactor hfrom hto
  · rw [hinvocations, hactive]
  · exact hactive ▸ h.bounded

theorem Counted.spawn {other : Actor} (h : session.Counted maximum)
    (hother : other.midUpdate = false) : (session.spawn other).Counted maximum := by
  refine ⟨?_, h.bounded⟩
  simp only [Session.spawn, List.countP_append, List.countP_singleton, hother]
  exact h.active

theorem Counted.cancelOne (h : session.Counted maximum) (id : String) :
    (session.cancelOne id).Counted maximum := by
  unfold Session.cancelOne
  split
  · exact h.spawn rfl
  · exact h

theorem signal_getElem? (hactor : session.actors[index]? = some actor)
    (hstage : actor.stage ≠ .waiting) (owner : Invocation) (stage : Stage) :
    (session.signal owner stage).actors[index]? = some actor := by
  simp [signal, hactor, isWaiting, hstage]

theorem Counted.signal (h : session.Counted maximum) (owner : Invocation) {stage : Stage}
    (hstage : stage = .done ∨ stage = .running) : (session.signal owner stage).Counted maximum := by
  refine ⟨?_, h.bounded⟩
  have hsame : ((session.signal owner stage).actors.countP Actor.midUpdate) =
      session.actors.countP Actor.midUpdate := by
    rw [Session.signal, List.countP_map]
    congr 1
    funext other
    by_cases hw : isWaiting owner other = true
    · have hwaiting : other.stage = .waiting := by
        simp only [isWaiting, Bool.and_eq_true, decide_eq_true_eq] at hw
        exact hw.2
      rcases hstage with rfl | rfl <;> simp [Actor.midUpdate, Stage.midUpdate, hw, hwaiting]
    · simp [hw]
  rw [hsame]
  exact h.active

theorem leave_midUpdate (actor : Actor) : actor.leave.midUpdate = false := by
  unfold Actor.leave Actor.midUpdate
  split <;> rfl

theorem Counted.route (hactor : session.actors[index]? = some actor) (h : session.Counted maximum)
    (hmid : actor.midUpdate = false) (message : Message) :
    (session.route index actor message).Counted maximum := by
  cases message with
  | catalog => exact h.move hactor hmid (leave_midUpdate actor) rfl rfl
  | execute => exact Counted.spawn (h.move hactor hmid rfl rfl rfl) rfl
  | cancelInvocation target =>
    exact Counted.cancelOne (h.move hactor hmid (leave_midUpdate actor) rfl rfl) target
  | closeStore =>
    simp only [Session.route]
    split
    · exact h
    · exact h.move hactor hmid rfl rfl rfl

theorem Counted.reserve (hactor : session.actors[index]? = some actor)
    (h : session.Counted maximum) (hmid : actor.midUpdate = false) :
    (session.reserve maximum index actor).Counted maximum := by
  unfold Session.reserve
  split <;> rename_i hlt
  · apply h.update hactor hmid (c := true) rfl
    · simp only [Bool.toNat_true, Bool.toNat_false]
      omega
    · exact hlt
  · exact h.move hactor hmid rfl rfl rfl

theorem Counted.register (hactor : session.actors[index]? = some actor)
    (h : session.Counted maximum) (hmid : actor.midUpdate = true) :
    (session.register index actor).Counted maximum := by
  unfold Session.register
  split <;> rename_i hfree
  · exact h.update hactor hmid (c := true) rfl rfl h.bounded
  · have hnone : session.state.invocations.get? actor.id = none := by
      simp only [Bool.or_eq_true, not_or, Bool.not_eq_true] at hfree
      exact FiniteMap.contains_eq_false.mp hfree.2
    apply h.update hactor hmid (c := false) rfl
    · simp only [FiniteMap.card_keys_insert hnone, Bool.toNat_true, Bool.toNat_false]
      omega
    · exact h.bounded

theorem Counted.removeInvocation (hactor : session.actors[index]? = some actor)
    (h : session.Counted maximum) (hmid : actor.midUpdate = false) :
    (session.removeInvocation index actor).Counted maximum := by
  unfold Session.removeInvocation
  split <;> rename_i hentry
  · apply h.update hactor hmid (c := true) rfl
    · have := FiniteMap.card_keys_erase hentry
      simp only [Bool.toNat_true, Bool.toNat_false]
      omega
    · exact h.bounded
  · exact h.move hactor hmid (leave_midUpdate actor) rfl rfl

/-- A reservation is given back by the actor that holds it. -/
theorem Counted.giveBack (hactor : session.actors[index]? = some actor)
    (h : session.Counted maximum) (hmid : actor.midUpdate = true) {state : SessionState}
    {moved : Actor} {serial : ℕ} (hto : moved.midUpdate = false)
    (hinvocations : state.invocations = session.state.invocations)
    (hactive : state.activeInvocations = fetchSub session.state.activeInvocations) :
    Counted maximum ⟨state, session.actors.set index moved, serial⟩ := by
  have hcount := List.countP_pos_iff.mpr ⟨actor, List.mem_of_getElem? hactor, hmid⟩
  have hactive' : state.activeInvocations + 1 = session.state.activeInvocations := by
    have := h.active
    rw [hactive, fetchSub, if_neg (by omega)]
    omega
  have hbound := h.bounded
  apply h.update hactor hmid hto
  · simp only [hinvocations, Bool.toNat_true, Bool.toNat_false]
    omega
  · omega

theorem Counted.advance (hactor : session.actors[index]? = some actor)
    (h : session.Counted maximum) : (session.advance maximum index actor).Counted maximum := by
  have hmid : actor.midUpdate = actor.stage.midUpdate := rfl
  cases hstage : actor.stage with (rw [hstage] at hmid; simp only [Session.advance, hstage])
  | routing message => exact h.route hactor hmid message
  | closing => exact h.move hactor hmid (leave_midUpdate actor) rfl rfl
  | spawned =>
    split
    · exact h
    · exact h.reserve hactor hmid
  | reserved => exact h.register hactor hmid
  | releasing => exact h.giveBack hactor hmid rfl rfl rfl
  | refused =>
    have hsame := signal_getElem? hactor (by simp [hstage]) actor.owner .done
    exact (h.signal actor.owner (.inl rfl)).move hsame hmid (leave_midUpdate actor) rfl rfl
  | registered =>
    split
    · have hsame := signal_getElem? hactor (by simp [hstage]) actor.owner .running
      exact (h.signal actor.owner (.inr rfl)).move hsame hmid rfl rfl rfl
    · exact h.move hactor hmid rfl rfl rfl
  | waiting => exact h
  | running => exact h.move hactor hmid rfl rfl rfl
  | cancelling =>
    split
    · exact h.move hactor hmid rfl rfl rfl
    · exact h
  | finishRequest => exact h.move hactor hmid rfl rfl rfl
  | complete => exact h.move hactor hmid rfl rfl rfl
  | remove => exact h.removeInvocation hactor hmid
  | release => exact h.giveBack hactor hmid (leave_midUpdate actor) rfl rfl
  | dropGuard => exact h.move hactor hmid rfl rfl rfl
  | done => exact h

theorem awaiting_midUpdate (h : actor.awaiting = true) : actor.midUpdate = false := by
  simp only [Actor.awaiting, Bool.and_eq_true, Bool.or_eq_true, decide_eq_true_eq] at h
  rcases h.2 with (h | h) | h <;> simp [Actor.midUpdate, Stage.midUpdate, h]

/-- Every event keeps the counter in step with the registry. -/
theorem Counted.step (h : session.Counted maximum) (event : Event) :
    (session.step maximum event).Counted maximum := by
  apply step_rule
  case same => exact h
  case start =>
    rintro requests serial other ⟨message, hstage⟩ -
    exact Counted.spawn ⟨h.active, h.bounded⟩ (by rw [Actor.midUpdate, hstage]; rfl)
  case advance => exact fun index actor _ hactor => h.advance hactor
  case refuse =>
    intro index actor hactor hstage
    exact h.move hactor (by rw [Actor.midUpdate, hstage]; rfl) (leave_midUpdate actor) rfl rfl
  case cancel => exact h.cancelOne
  case stop =>
    intro index actor hactor hawaiting
    exact h.move hactor (awaiting_midUpdate hawaiting) rfl rfl rfl

end Counted

/-! Who removes what. -/

/-- The actor works under its invocation's request id, and what it would remove is its own. -/
structure Owns (invocations : FiniteMap String Invocation) (actor : Actor) : Prop where
  id_eq : actor.id = actor.owner.requestId
  removes : actor.finishing = true →
    ∀ owner, invocations.get? actor.id = some owner → owner = actor.owner

structure Attributed (session : Session) : Prop where
  keyed : ∀ id owner, session.state.invocations.get? id = some owner → owner.requestId = id
  owns : ∀ actor ∈ session.actors, Owns session.state.invocations actor

section Attributed

variable {maximum index : ℕ} {session : Session} {actor : Actor}

theorem Owns.of_not_finishing {invocations : FiniteMap String Invocation} {moved : Actor}
    (hid : moved.id = moved.owner.requestId) (h : moved.finishing = false) :
    Owns invocations moved :=
  ⟨hid, fun hfinishing => by simp [h] at hfinishing⟩

theorem leave_finishing (actor : Actor) : actor.leave.finishing = false := by
  unfold Actor.leave Actor.finishing
  split <;> rfl

/-- The registry stays as it is and one actor moves. -/
theorem Attributed.move (h : session.Attributed) {state : SessionState} {moved : Actor} {serial : ℕ}
    (hmoved : Owns session.state.invocations moved)
    (hinvocations : state.invocations = session.state.invocations) :
    Attributed ⟨state, session.actors.set index moved, serial⟩ := by
  constructor
  · rw [show Session.state _ = state from rfl, hinvocations]
    exact h.keyed
  · intro other hother
    rw [show Session.state _ = state from rfl, hinvocations]
    rcases List.mem_or_eq_of_mem_set hother with hother | rfl
    · exact h.owns other hother
    · exact hmoved

theorem Attributed.spawn (h : session.Attributed) {other : Actor}
    (hother : Owns session.state.invocations other) : (session.spawn other).Attributed := by
  refine ⟨h.keyed, fun actor hactor => ?_⟩
  rcases List.mem_append.mp hactor with hactor | hactor
  · exact h.owns actor hactor
  · rw [List.mem_singleton.mp hactor]
    exact hother

/-- A cancellation works for the invocation it found in the registry. -/
theorem Attributed.cancelOne (h : session.Attributed) (id : String) :
    (session.cancelOne id).Attributed := by
  unfold Session.cancelOne
  split <;> rename_i hentry
  · apply h.spawn
    refine ⟨(h.keyed _ _ hentry).symm, fun _ owner howner => ?_⟩
    exact Option.some.inj (howner.symm.trans hentry)
  · exact h

theorem Attributed.signal (h : session.Attributed) (owner : Invocation) (stage : Stage)
    (howner : stage.finishing = true →
      ∀ other, session.state.invocations.get? owner.requestId = some other → other = owner) :
    (session.signal owner stage).Attributed := by
  refine ⟨h.keyed, fun actor hactor => ?_⟩
  obtain ⟨old, hold, rfl⟩ := List.mem_map.mp hactor
  have hid := (h.owns old hold).id_eq
  split <;> rename_i hw
  · simp only [isWaiting, Bool.and_eq_true, decide_eq_true_eq] at hw
    refine ⟨hid, fun hfinishing other hother => ?_⟩
    have hother : session.state.invocations.get? old.id = some other := hother
    rw [hid, hw.1.2] at hother
    exact (howner hfinishing other hother).trans hw.1.2.symm
  · exact h.owns old hold

theorem Attributed.register (h : session.Attributed) (hmem : actor ∈ session.actors)
    (hnone : session.state.closed = false → session.state.invocations.get? actor.id = none →
      ∀ other ∈ session.actors, other.finishing = true → other.id = actor.id →
        other.owner = actor.owner) :
    (session.register index actor).Attributed := by
  have hid := (h.owns actor hmem).id_eq
  unfold Session.register
  split <;> rename_i hfree
  · exact h.move (.of_not_finishing hid rfl) rfl
  · simp only [Bool.or_eq_true, not_or, Bool.not_eq_true] at hfree
    have hpending := hnone hfree.1 (FiniteMap.contains_eq_false.mp hfree.2)
    constructor
    · intro id owner howner
      change (session.state.invocations.insert actor.id actor.owner).get? id = some owner at howner
      rw [FiniteMap.get?_insert] at howner
      split at howner <;> rename_i heq
      · rw [← Option.some.inj howner, heq, hid]
      · exact h.keyed id owner howner
    · intro other hother
      rcases List.mem_or_eq_of_mem_set hother with hother | rfl
      · refine ⟨(h.owns other hother).id_eq, fun hfinishing owner howner => ?_⟩
        change (session.state.invocations.insert actor.id actor.owner).get? _ = _ at howner
        rw [FiniteMap.get?_insert] at howner
        split at howner <;> rename_i heq
        · rw [← Option.some.inj howner, hpending other hother hfinishing heq]
        · exact (h.owns other hother).removes hfinishing owner howner
      · refine ⟨hid, fun _ owner howner => ?_⟩
        change (session.state.invocations.insert actor.id actor.owner).get? _ = _ at howner
        rw [FiniteMap.get?_insert_self] at howner
        exact (Option.some.inj howner).symm

theorem Attributed.removeInvocation (h : session.Attributed) (hmem : actor ∈ session.actors) :
    (session.removeInvocation index actor).Attributed := by
  have hid := (h.owns actor hmem).id_eq
  unfold Session.removeInvocation
  split
  · constructor
    · intro id owner howner
      exact h.keyed id owner (FiniteMap.get?_erase_some howner).2
    · intro other hother
      rcases List.mem_or_eq_of_mem_set hother with hother | rfl
      · refine ⟨(h.owns other hother).id_eq, fun hfinishing owner howner => ?_⟩
        exact (h.owns other hother).removes hfinishing owner (FiniteMap.get?_erase_some howner).2
      · exact .of_not_finishing hid rfl
  · exact h.move (.of_not_finishing hid (leave_finishing actor)) rfl

theorem Attributed.advance (h : session.Attributed) (hmem : actor ∈ session.actors)
    (hnone : actor.stage = .reserved → session.state.closed = false →
      session.state.invocations.get? actor.id = none →
        ∀ other ∈ session.actors, other.finishing = true → other.id = actor.id →
          other.owner = actor.owner) :
    (session.advance maximum index actor).Attributed := by
  have hid := (h.owns actor hmem).id_eq
  have hfinishing : actor.finishing = actor.stage.finishing := rfl
  have hleave : Owns session.state.invocations actor.leave :=
    .of_not_finishing hid (leave_finishing actor)
  -- moving on within the finishing stages, or out of them
  have hnext : ∀ stage : Stage, actor.finishing = true ∨ stage.finishing = false →
      Owns session.state.invocations { actor with stage := stage } := by
    rintro stage (hactor | hstage)
    · exact ⟨hid, fun _ => (h.owns actor hmem).removes hactor⟩
    · exact .of_not_finishing hid hstage
  cases hstage : actor.stage with (rw [hstage] at hfinishing; simp only [Session.advance, hstage])
  | routing message =>
    cases message with
    | catalog => exact h.move hleave rfl
    | execute => exact (h.move (hnext _ (.inr rfl)) rfl).spawn (.of_not_finishing hid rfl)
    | cancelInvocation target => exact (h.move hleave rfl).cancelOne target
    | closeStore =>
      simp only [Session.route]
      split
      · exact h
      · exact h.move (hnext _ (.inr rfl)) rfl
  | closing => exact h.move hleave rfl
  | spawned =>
    unfold Session.reserve
    split_ifs
    · exact h
    · exact h.move (hnext _ (.inr rfl)) rfl
    · exact h.move (hnext _ (.inr rfl)) rfl
  | reserved => exact h.register hmem (hnone hstage)
  | releasing => exact h.move (hnext _ (.inr rfl)) rfl
  | refused =>
    have hsignal := h.signal actor.owner .done fun hdone => by cases hdone
    exact hsignal.move hleave rfl
  | registered =>
    have howns := (h.owns actor hmem).removes hfinishing
    rw [hid] at howns
    split
    · have hsignal := h.signal actor.owner .running fun _ => howns
      exact hsignal.move (hnext _ (.inr rfl)) rfl
    · exact h.move (hnext _ (.inl hfinishing)) rfl
  | waiting => exact h
  | running => exact h.move (hnext _ (.inl hfinishing)) rfl
  | cancelling =>
    split
    · exact h.move (hnext _ (.inl hfinishing)) rfl
    · exact h
  | finishRequest => exact h.move (hnext _ (.inl hfinishing)) rfl
  | complete => exact h.move (hnext _ (.inl hfinishing)) rfl
  | remove => exact h.removeInvocation hmem
  | release => exact h.move hleave rfl
  | dropGuard => exact h.move (hnext _ (.inr rfl)) rfl
  | done => exact h

theorem Attributed.step (h : session.Attributed) {event : Event}
    (hnone : session.NoPendingFinish event) : (session.step maximum event).Attributed := by
  have hid : ∀ {index : ℕ} {actor : Actor}, session.actors[index]? = some actor →
      actor.id = actor.owner.requestId :=
    fun hactor => (h.owns _ (List.mem_of_getElem? hactor)).id_eq
  apply step_rule
  case same => exact h
  case start =>
    rintro requests serial other ⟨message, hstage⟩ hother
    have hspawn : Owns session.state.invocations other :=
      .of_not_finishing hother (by rw [Actor.finishing, hstage]; rfl)
    have hbefore : Attributed ⟨{ session.state with requests }, session.actors, serial⟩ :=
      ⟨h.keyed, h.owns⟩
    exact hbefore.spawn hspawn
  case advance =>
    rintro index actor rfl hactor
    exact h.advance (List.mem_of_getElem? hactor) (hnone actor hactor)
  case refuse =>
    intro index actor hactor _
    have hleave := hid hactor
    exact h.move (.of_not_finishing hleave (leave_finishing actor)) rfl
  case cancel => exact h.cancelOne
  case stop =>
    intro index actor hactor _
    have hdone := hid hactor
    exact h.move (.of_not_finishing hdone rfl) rfl

theorem cancelOne_invocations (session : Session) (id : String) :
    (session.cancelOne id).state.invocations = session.state.invocations := by
  unfold cancelOne
  split <;> rfl

/-- Only the removal of an actor's own request id takes an entry out of the registry. -/
theorem advance_removes {id : String} {owner : Invocation}
    (hentry : session.state.invocations.get? id = some owner)
    (hgone : (session.advance maximum index actor).state.invocations.get? id ≠ some owner) :
    actor.stage = .remove ∧ actor.id = id := by
  by_contra hnot
  apply hgone
  rw [← hentry]
  cases hstage : actor.stage with simp only [Session.advance, hstage]
  | routing message =>
    cases message with
    | cancelInvocation target => rw [route, cancelOne_invocations]; rfl
    | closeStore => simp only [route]; split <;> rfl
    | catalog => rfl
    | execute => rfl
  | spawned => unfold Session.reserve; split_ifs <;> rfl
  | reserved =>
    unfold Session.register
    split <;> rename_i hfree
    · rfl
    · simp only [Bool.or_eq_true, not_or, Bool.not_eq_true] at hfree
      have hne : id ≠ actor.id := by
        rintro rfl
        rw [FiniteMap.contains_eq_false.mp hfree.2] at hentry
        cases hentry
      exact FiniteMap.get?_insert_ne _ hne _
  | registered => split <;> rfl
  | cancelling => split <;> rfl
  | remove =>
    unfold Session.removeInvocation
    split
    · have hne : id ≠ actor.id := fun heq => hnot ⟨hstage, heq.symm⟩
      exact (FiniteMap.get?_erase _ _ _).trans (if_neg hne)
    · rfl
  | closing | releasing | refused | running | finishRequest | complete | release | dropGuard => rfl

theorem Attributed.removedByOwn (h : session.Attributed) (event : Event) :
    session.RemovedByOwn maximum event := by
  rintro ⟨id, owner⟩ hmem
  have hentry := FiniteMap.mem_toList.mp hmem
  refine step_rule (P := fun after => after.state.invocations.get? id ≠ some owner →
    ∃ actor ∈ session.actorOf event, actor.stage = .remove ∧ actor.owner = owner) ?same ?start
    ?advance ?refuse ?cancel ?stop
  case same => exact fun hgone => absurd hentry hgone
  case start => exact fun _ _ _ _ _ hgone => absurd hentry hgone
  case advance =>
    rintro index actor rfl hactor hgone
    obtain ⟨hstage, rfl⟩ := advance_removes hentry hgone
    have howns := h.owns actor (List.mem_of_getElem? hactor)
    have hfinishing : actor.finishing = true := by rw [Actor.finishing, hstage]; rfl
    exact ⟨actor, hactor, hstage, (howns.removes hfinishing owner hentry).symm⟩
  case refuse => exact fun _ _ _ _ hgone => absurd hentry hgone
  case cancel =>
    intro other hgone
    rw [cancelOne_invocations] at hgone
    exact absurd hentry hgone
  case stop => exact fun _ _ _ _ hgone => absurd hentry hgone

end Attributed

/-- In every run the counter bounds the registry within the limit and is exact between
reservations. When in addition no invocation is registered while another one of its request id is
being finished, an invocation leaves the registry only through its own completion or
cancellation. -/
theorem registry_safe (maximum completionHistory : ℕ) (events : List Event) :
    (events.foldl (step maximum) (new completionHistory)).CountsAgree maximum ∧
      (Run.Along NoPendingFinish (step maximum) (new completionHistory) events →
        Run.Along (RemovedByOwn maximum) (step maximum) (new completionHistory) events) := by
  constructor
  · have hcounted : (events.foldl (step maximum) (new completionHistory)).Counted maximum :=
      List.foldlRecOn events _ ⟨rfl, Nat.zero_le _⟩ fun _ h event _ => h.step event
    exact hcounted.countsAgree
  · intro hnone
    apply Run.along_of_invariant (I := Attributed) (C := NoPendingFinish) _ events _ hnone
    · exact ⟨fun _ _ h => (by cases h), fun _ h => (by cases h)⟩
    · exact fun session event hstep h => ⟨h.removedByOwn event, h.step hstep⟩

end Session

namespace TestVectors
open Session

def invocationId : String := "4f5c8f53-7f5a-4d3e-9c53-0c3f7f6f7a10"

def cancellationId : String := "b1a4f7de-52f2-4c0e-8f43-0e8c8c9d2b6e"

/-- An invocation runs and is looked up by a cancellation. -/
def cancelRunning : List Event :=
  [.request invocationId .execute, .advance 0, .advance 0, .advance 0, .advance 0,
    .request cancellationId (.cancelInvocation invocationId), .advance 2]

/-- The task ends by itself and its request id is used again before the cancellation goes on. -/
def reusedDuringCancellation : List Event :=
  cancelRunning ++
    [.advance 1, .advance 1, .advance 1, .advance 1, .advance 1,
      .request invocationId .execute, .advance 4, .advance 4, .advance 4, .advance 4,
      .advance 3, .advance 3, .advance 3, .advance 3]

/-- The late cancellation of the first invocation takes the second one out of the registry. -/
theorem late_cancellation_removes_successor :
    ¬ Run.Along (RemovedByOwn 8) (step 8) (new 16) reusedDuringCancellation := by
  decide +kernel

/-- The cancellation is through before the request id is used again. -/
def reusedAfterCancellation : List Event :=
  cancelRunning ++
    [.abort 1, .advance 3, .advance 3, .advance 3, .advance 3, .advance 3,
      .request invocationId .execute, .advance 4, .advance 4, .advance 4, .advance 4,
      .advance 5, .advance 5, .advance 5, .advance 5]

theorem reuse_after_cancellation_safe :
    Run.Along NoPendingFinish (step 8) (new 16) reusedAfterCancellation ∧
      Run.Along (RemovedByOwn 8) (step 8) (new 16) reusedAfterCancellation := by
  have hnone : Run.Along NoPendingFinish (step 8) (new 16) reusedAfterCancellation := by
    decide +kernel
  exact ⟨hnone, (registry_safe 8 16 reusedAfterCancellation).2 hnone⟩

end TestVectors

end Runtime
