import Reframe.Runtime.SessionRouter

/-! The life of a session over whole runs: what a closed session can still gain, how many sessions
are open, and what a failed opening leaves. -/
namespace Router
open Runtime

variable {S Q B : Type}

/-! What a step leaves of sessions and tasks. -/

/-- What a session may become: once closed it gains nothing. -/
structure Session.Later (session session' : Session S) : Prop where
  id_eq : session'.id = session.id
  protocol_eq : session'.protocol = session.protocol
  closed : session.closed = true → session'.closed = true
  requests : session.closed = true → session'.requests ⊆ session.requests
  invocations : session.closed = true → ∀ requestId invocation,
    session'.invocations.get? requestId = some invocation →
      session.invocations.get? requestId = some invocation

theorem Session.Later.refl (session : Session S) : session.Later session :=
  ⟨rfl, rfl, fun h => h, fun _ => Finset.Subset.refl _, fun _ _ _ h => h⟩

theorem Session.Later.trans {a b c : Session S} (h : a.Later b) (h' : b.Later c) : a.Later c where
  id_eq := h'.id_eq.trans h.id_eq
  protocol_eq := h'.protocol_eq.trans h.protocol_eq
  closed hclosed := h'.closed (h.closed hclosed)
  requests hclosed := (h'.requests (h.closed hclosed)).trans (h.requests hclosed)
  invocations hclosed requestId invocation hget :=
    h.invocations hclosed requestId invocation
      (h'.invocations (h.closed hclosed) requestId invocation hget)

/-- Every operation of the session's state leads to a later session. -/
theorem Session.later_apply (session : Session S) (op : SessionOp) :
    session.Later (session.apply op) := by
  unfold Session.apply
  split <;> rename_i hadmits
  · cases op with
    | close => exact ⟨rfl, rfl, fun _ => rfl, fun _ => Finset.Subset.refl _, fun _ _ _ h => h⟩
    | beginRequest requestId =>
      have hopen : session.closed = false := by
        simp only [Session.admits, Bool.and_eq_true, Bool.not_eq_true'] at hadmits
        exact hadmits.1
      have hnot : ¬session.closed = true := by rw [hopen]; exact Bool.false_ne_true
      exact ⟨rfl, rfl, fun h => h, fun h => absurd h hnot, fun h => absurd h hnot⟩
    | finishRequest requestId =>
      exact ⟨rfl, rfl, fun h => h, fun _ => Finset.erase_subset _ _, fun _ _ _ h => h⟩
    | addInvocation requestId invocation maximum =>
      have hopen : session.closed = false := by
        simp only [Session.admits, Bool.and_eq_true, Bool.not_eq_true'] at hadmits
        exact hadmits.1.2
      have hnot : ¬session.closed = true := by rw [hopen]; exact Bool.false_ne_true
      exact ⟨rfl, rfl, fun h => h, fun h => absurd h hnot, fun h => absurd h hnot⟩
    | complete requestId =>
      exact ⟨rfl, rfl, fun h => h, fun _ => Finset.Subset.refl _, fun _ _ _ h => h⟩
    | removeInvocation requestId =>
      simp only
      split
      · refine ⟨rfl, rfl, fun h => h, fun _ => Finset.Subset.refl _, fun _ other invocation h => ?_⟩
        exact (FiniteMap.get?_erase_some h).2
      · exact .refl session
  · exact .refl session

theorem Session.invocations_apply {session : Session S} {op : SessionOp} {requestId : String}
    {invocation : Key} (h : (session.apply op).invocations.get? requestId = some invocation) :
    session.invocations.get? requestId = some invocation ∨
      ∃ maximum, op = .addInvocation requestId invocation maximum := by
  unfold Session.apply at h
  split at h
  · cases op with
    | addInvocation added other maximum =>
      change (session.invocations.insert added other).get? requestId = some invocation at h
      rw [FiniteMap.get?_insert] at h
      split at h
      · rename_i heq
        cases h
        exact .inr ⟨maximum, by rw [heq]⟩
      · exact .inl h
    | removeInvocation removed =>
      simp only at h
      split at h
      · exact .inl (FiniteMap.get?_erase_some h).2
      · exact .inl h
    | close => exact .inl h
    | beginRequest _ => exact .inl h
    | finishRequest _ => exact .inl h
    | complete _ => exact .inl h
  · exact .inl h

theorem Session.closed_apply {session : Session S} {op : SessionOp}
    (h : (session.apply op).closed = true) : session.closed = true ∨ op = .close := by
  unfold Session.apply at h
  split at h
  · cases op with
    | close => exact .inr rfl
    | removeInvocation removed =>
      simp only at h
      split at h
      · exact .inl h
      · exact .inl h
    | addInvocation _ _ _ => exact .inl h
    | beginRequest _ => exact .inl h
    | finishRequest _ => exact .inl h
    | complete _ => exact .inl h
  · exact .inl h

/-- What a task may become. -/
structure Task.Later (task task' : Task) : Prop where
  session_eq : task'.session = task.session
  requestId_eq : task'.requestId = task.requestId
  metadata_eq : task'.metadata = task.metadata
  ended : task.ended = true → task'.ended = true

theorem Task.Later.refl (task : Task) : task.Later task := ⟨rfl, rfl, rfl, fun h => h⟩

theorem Task.Later.trans {a b c : Task} (h : a.Later b) (h' : b.Later c) : a.Later c :=
  ⟨h'.session_eq.trans h.session_eq, h'.requestId_eq.trans h.requestId_eq,
    h'.metadata_eq.trans h.metadata_eq, fun hended => h'.ended (h.ended hended)⟩

/-- The opening whose response was not delivered is undone, or was. -/
def Stage.isRollback : Stage S B → Bool
  | .rollingBack | .rolledBack => true
  | _ => false

/-- What every step keeps: sessions and tasks go on, no session becomes routable again, and none
is opened once the runtime shuts down. -/
structure Extends (s t : State S Q B) : Prop where
  table : ∀ key session, s.table.get? key = some session →
    ∃ session', t.table.get? key = some session' ∧ session.Later session'
  tasks : ∀ key task, s.tasks.get? key = some task →
    ∃ task', t.tasks.get? key = some task' ∧ task.Later task'
  routes : ∀ key session, s.table.get? key = some session →
    t.sessions.get? session.id = some key → s.sessions.get? session.id = some key
  shutdown : s.shuttingDown = true → t.shuttingDown = true ∧
    ∀ key, s.table.get? key = none → t.table.get? key = none
  rollback : ∀ key call, s.calls.get? key = some call → call.stage.isRollback = true →
    ∃ call', t.calls.get? key = some call' ∧ call'.stage.isRollback = true

theorem Extends.refl (s : State S Q B) : Extends s s :=
  ⟨fun _ session h => ⟨session, h, .refl session⟩, fun _ task h => ⟨task, h, .refl task⟩,
    fun _ _ _ h => h, fun h => ⟨h, fun _ h => h⟩, fun _ call h hback => ⟨call, h, hback⟩⟩

/-- Nothing that is kept has changed. -/
theorem Extends.of_eq {s t : State S Q B} (htable : t.table = s.table) (htasks : t.tasks = s.tasks)
    (hsessions : t.sessions = s.sessions)
    (hdown : s.shuttingDown = true → t.shuttingDown = true)
    (hrollback : ∀ key call, s.calls.get? key = some call → call.stage.isRollback = true →
      ∃ call', t.calls.get? key = some call' ∧ call'.stage.isRollback = true) : Extends s t where
  table key session hget := ⟨session, by rw [htable, hget], .refl session⟩
  tasks key task hget := ⟨task, by rw [htasks, hget], .refl task⟩
  routes key session _ hroute := by rwa [hsessions] at hroute
  shutdown hs := ⟨hdown hs, fun key hnone => by rw [htable, hnone]⟩
  rollback := hrollback

theorem Extends.trans {s t u : State S Q B} (h : Extends s t) (h' : Extends t u) :
    Extends s u where
  table key session hget := by
    obtain ⟨middle, hmiddle, hlater⟩ := h.table key session hget
    obtain ⟨session', hget', hlater'⟩ := h'.table key middle hmiddle
    exact ⟨session', hget', hlater.trans hlater'⟩
  tasks key task hget := by
    obtain ⟨middle, hmiddle, hlater⟩ := h.tasks key task hget
    obtain ⟨task', hget', hlater'⟩ := h'.tasks key middle hmiddle
    exact ⟨task', hget', hlater.trans hlater'⟩
  routes key session hget hroute := by
    obtain ⟨middle, hmiddle, hlater⟩ := h.table key session hget
    apply h.routes key session hget
    rw [← hlater.id_eq] at hroute ⊢
    exact h'.routes key middle hmiddle hroute
  shutdown hs := by
    obtain ⟨ht, hkeys⟩ := h.shutdown hs
    obtain ⟨hu, hkeys'⟩ := h'.shutdown ht
    exact ⟨hu, fun key hnone => hkeys' key (hkeys key hnone)⟩
  rollback key call hget hback := by
    obtain ⟨middle, hmiddle, hback'⟩ := h.rollback key call hget hback
    exact h'.rollback key middle hmiddle hback'

/-! The invariant. -/

/-- Whoever closes a session closes it before anything else, and has its cancellations to do. -/
def ClosingOk (closed : Bool) (ops : List ClosingOp) : Prop :=
  closed = true ∨ ops = [] ∨ ∃ rest, ops = .close :: rest ∧ .cancelAll ∈ rest

/-- What holds of a call by where it is. -/
def CallOk (s : State S Q B) (key : Key) (call : Call S Q B) : Prop :=
  match call.stage with
  | .routing => s.table.get? key = none ∧ s.tasks.get? key = none
  | .openGate _ _ _ => s.table.get? key = none
  | .sendOpen _ _ _ => ∃ session, s.table.get? key = some session
  | .rollingBack => ∃ session, s.table.get? key = some session ∧ session.closed = true
  | .rolledBack => ∃ session, s.table.get? key = some session ∧ session.closed = true ∧
      s.sessions.get? session.id ≠ some key
  | .begin _ | .routed _ => s.tasks.get? key = none
  | .adding target => ∃ task, s.tasks.get? key = some task ∧ task.session = target ∧
      task.requestId = call.envelope.requestId
  | .closing target _ _ _ => ∃ session, s.table.get? target = some session ∧ session.closed = true
  | _ => True

/-- The session's closing by `close_owner`, by `shutdown` or by a request has this left to do. -/
def Closing (s : State S Q B) (target : Key) (ops : List ClosingOp) : Prop :=
  (∃ serial, s.closers.get? (serial, target) = some ops) ∨
    ∃ key call first cancelled, s.calls.get? key = some call ∧
      call.stage = .closing target ops first cancelled

/-- These operations will cancel the invocation. -/
def Cancels (ops : List ClosingOp) (requestId : String) : Prop :=
  .cancelAll ∈ ops ∨ .cancel requestId ∈ ops

def Ended (s : State S Q B) (invocation : Key) : Prop :=
  ∃ task, s.tasks.get? invocation = some task ∧ task.ended = true

def Cancelling (s : State S Q B) (invocation : Key) : Prop :=
  ∃ source, s.cancellers.get? (source, invocation) = some .cancelling

def RolledBack (s : State S Q B) (target : Key) : Prop :=
  ∃ call, s.calls.get? target = some call ∧ call.stage.isRollback = true

/-- An invocation of a closed session is over, or someone is about to end it. -/
def Doomed (s : State S Q B) (target : Key) (requestId : String) (invocation : Key) : Prop :=
  Ended s invocation ∨ Cancelling s invocation ∨
    (∃ ops, Closing s target ops ∧ Cancels ops requestId) ∨ RolledBack s target

/-- The session map and the sessions. -/
structure Routes (config : RuntimeConfig) (s : State S Q B) : Prop where
  drawn : ∀ key session, s.table.get? key = some session → session.id ∈ s.drawn
  unique : ∀ key key' session session', s.table.get? key = some session →
    s.table.get? key' = some session' → session.id = session'.id → key = key'
  routed : ∀ id key, s.sessions.get? id = some key →
    ∃ session, s.table.get? key = some session ∧ session.id = id
  openRouted : ∀ key session, s.table.get? key = some session → session.closed = false →
    s.sessions.get? session.id = some key
  size : s.sessions.keys.card ≤ config.maxSessions

/-- A task is over once its last event is out, its cancellation has begun or its permit is back. -/
structure Task.Ok (task : Task) : Prop where
  finished : task.finished = true → task.ended = true
  cancelled : task.cancellationStarted = true → task.ended = true
  released : task.permit = false → task.ended = true

theorem Task.Ok.of_ended {task : Task} (h : task.ended = true) : task.Ok :=
  ⟨fun _ => h, fun _ => h, fun _ => h⟩

/-- The invariant; the acting call may be between two places. -/
structure Wf (config : RuntimeConfig) (acting : Option Key) (s : State S Q B) : Prop where
  routes : Routes config s
  actor : ∀ key, acting = some key → (s.calls.get? key).isSome = true
  calls : ∀ key call, s.calls.get? key = some call → some key ≠ acting → CallOk s key call
  absent : ∀ key, s.calls.get? key = none → s.table.get? key = none ∧ s.tasks.get? key = none
  tasks : ∀ key task, s.tasks.get? key = some task → task.Ok
  closers : ∀ serial key ops, s.closers.get? (serial, key) = some ops →
    ∃ session, s.table.get? key = some session ∧ ClosingOk session.closed ops
  registered : ∀ key session requestId invocation, s.table.get? key = some session →
    session.invocations.get? requestId = some invocation →
      ∃ task, s.tasks.get? invocation = some task ∧ task.session = key ∧
        task.requestId = requestId
  cancellers : ∀ source invocation canceller,
    s.cancellers.get? (source, invocation) = some canceller →
      ∃ task, s.tasks.get? invocation = some task ∧
        (canceller ≠ .cancelling → task.ended = true)
  doomed : ∀ key session requestId invocation, s.table.get? key = some session →
    session.closed = true → session.invocations.get? requestId = some invocation →
      Doomed s key requestId invocation

theorem wf_new (config : RuntimeConfig) : Wf config none (State.new : State S Q B) where
  routes := by
    refine ⟨?_, ?_, ?_, ?_, Nat.zero_le _⟩
    all_goals intros; contradiction
  actor := by intros; contradiction
  calls := by intros; contradiction
  absent := fun _ _ => ⟨rfl, rfl⟩
  tasks := by intros; contradiction
  closers := by intros; contradiction
  registered := by intros; contradiction
  cancellers := by intros; contradiction
  doomed := by intros; contradiction

/-! A step reaches a state of the invariant that extends the one before. -/

structure Reaches (config : RuntimeConfig) (acting : Option Key) (s t : State S Q B) : Prop where
  wf : Wf config acting t
  ext : Extends s t

theorem Wf.reaches {config : RuntimeConfig} {acting : Option Key} {s : State S Q B}
    (h : Wf config acting s) : Reaches config acting s s := ⟨h, .refl s⟩

theorem Reaches.trans {config : RuntimeConfig} {acting acting' : Option Key} {s t u : State S Q B}
    (h : Reaches config acting s t) (h' : Reaches config acting' t u) :
    Reaches config acting' s u :=
  ⟨h'.wf, h.ext.trans h'.ext⟩

theorem Wf.acting {config : RuntimeConfig} {s : State S Q B} {key : Key} {call : Call S Q B}
    (h : Wf config none s) (hcall : s.calls.get? key = some call) : Wf config (some key) s :=
  { h with
    actor := by
      rintro _ ⟨⟩
      rw [hcall]
      rfl
    calls := fun other call hget _ => h.calls other call hget (by simp) }

/-- A write that leaves the actors where they are. -/
structure Shared (acting : Option Key) (s t : State S Q B) : Prop where
  ext : Extends s t
  calls : t.calls = s.calls
  closers : t.closers = s.closers
  cancellers : t.cancellers = s.cancellers
  table : ∀ key, some key ≠ acting → s.table.get? key = none → t.table.get? key = none
  tasks : ∀ key, some key ≠ acting → s.tasks.get? key = none → t.tasks.get? key = none

theorem CallOk.mono {s t : State S Q B} {key : Key} {call : Call S Q B} (h : CallOk s key call)
    (hext : Extends s t) (htable : s.table.get? key = none → t.table.get? key = none)
    (htasks : s.tasks.get? key = none → t.tasks.get? key = none) : CallOk t key call := by
  have hclosed : ∀ target, (∃ session, s.table.get? target = some session ∧
      session.closed = true) → ∃ session, t.table.get? target = some session ∧
        session.closed = true := by
    rintro target ⟨session, hget, hclosed⟩
    obtain ⟨session', hget', hlater⟩ := hext.table target session hget
    exact ⟨session', hget', hlater.closed hclosed⟩
  unfold CallOk at h ⊢
  split at h
  case h_1 => exact ⟨htable h.1, htasks h.2⟩
  case h_2 => exact htable h
  case h_3 =>
    obtain ⟨session, hget⟩ := h
    obtain ⟨session', hget', -⟩ := hext.table key session hget
    exact ⟨session', hget'⟩
  case h_4 => exact hclosed key h
  case h_5 =>
    obtain ⟨session, hget, hclosed, hroute⟩ := h
    obtain ⟨session', hget', hlater⟩ := hext.table key session hget
    refine ⟨session', hget', hlater.closed hclosed, fun hroute' => hroute ?_⟩
    rw [hlater.id_eq] at hroute'
    exact hext.routes key session hget hroute'
  case h_6 => exact htasks h
  case h_7 => exact htasks h
  case h_8 =>
    obtain ⟨task, hget, hsession, hrequest⟩ := h
    obtain ⟨task', hget', hlater⟩ := hext.tasks key task hget
    exact ⟨task', hget', hlater.session_eq.trans hsession, hlater.requestId_eq.trans hrequest⟩
  case h_9 => exact hclosed _ h
  case h_10 => trivial

theorem Ended.mono {s t : State S Q B} {invocation : Key} (h : Ended s invocation)
    (hext : Extends s t) : Ended t invocation := by
  obtain ⟨task, hget, hended⟩ := h
  obtain ⟨task', hget', hlater⟩ := hext.tasks invocation task hget
  exact ⟨task', hget', hlater.ended hended⟩

theorem RolledBack.mono {s t : State S Q B} {target : Key} (h : RolledBack s target)
    (hext : Extends s t) : RolledBack t target := by
  obtain ⟨call, hget, hback⟩ := h
  exact hext.rollback target call hget hback

theorem ClosingOk.mono {closed closed' : Bool} {ops : List ClosingOp} (h : ClosingOk closed ops)
    (hclosed : closed = true → closed' = true) : ClosingOk closed' ops := by
  rcases h with h | h
  · exact .inl (hclosed h)
  · exact .inr h

theorem Doomed.shared {acting : Option Key} {s t : State S Q B} {target invocation : Key}
    {requestId : String} (h : Doomed s target requestId invocation) (hst : Shared acting s t) :
    Doomed t target requestId invocation := by
  rcases h with h | h | h | h
  · exact .inl (h.mono hst.ext)
  · refine .inr (.inl ?_)
    rwa [Cancelling, hst.cancellers]
  · refine .inr (.inr (.inl ?_))
    simpa only [Closing, hst.calls, hst.closers] using h
  · exact .inr (.inr (.inr (h.mono hst.ext)))

/-- The invariant after a write that leaves the actors where they are: what it adds to the
registries of the sessions has to be accounted for. -/
theorem Wf.shared {config : RuntimeConfig} {acting : Option Key} {s t : State S Q B}
    (h : Wf config acting s) (hst : Shared acting s t) (hroutes : Routes config t)
    (htasks : ∀ key task, t.tasks.get? key = some task → task.Ok)
    (hregistered : ∀ key session' requestId invocation, t.table.get? key = some session' →
      session'.invocations.get? requestId = some invocation →
        (∃ session, s.table.get? key = some session ∧
          session.invocations.get? requestId = some invocation) ∨
        ∃ task, s.tasks.get? invocation = some task ∧ task.session = key ∧
          task.requestId = requestId)
    (hdoomed : ∀ key session' requestId invocation, t.table.get? key = some session' →
      session'.closed = true → session'.invocations.get? requestId = some invocation →
        (∃ session, s.table.get? key = some session ∧ session.closed = true ∧
          session.invocations.get? requestId = some invocation) ∨
        Doomed s key requestId invocation) : Reaches config acting s t := by
  refine ⟨⟨hroutes, ?_, ?_, ?_, htasks, ?_, ?_, ?_, ?_⟩, hst.ext⟩
  · rw [hst.calls]
    exact h.actor
  · intro key call hget hkey
    rw [hst.calls] at hget
    exact (h.calls key call hget hkey).mono hst.ext (hst.table key hkey) (hst.tasks key hkey)
  · intro key hget
    rw [hst.calls] at hget
    have hkey : some key ≠ acting := by
      intro hkey
      have hsome := h.actor key hkey.symm
      rw [hget] at hsome
      cases hsome
    obtain ⟨htable, htasks⟩ := h.absent key hget
    exact ⟨hst.table key hkey htable, hst.tasks key hkey htasks⟩
  · intro serial key ops hget
    rw [hst.closers] at hget
    obtain ⟨session, hsession, hok⟩ := h.closers serial key ops hget
    obtain ⟨session', hsession', hlater⟩ := hst.ext.table key session hsession
    exact ⟨session', hsession', hok.mono hlater.closed⟩
  · intro key session' requestId invocation hget hinvocation
    have hold : ∃ task, s.tasks.get? invocation = some task ∧ task.session = key ∧
        task.requestId = requestId := by
      rcases hregistered key session' requestId invocation hget hinvocation with
        ⟨session, hsession, hbefore⟩ | hnew
      · exact h.registered key session requestId invocation hsession hbefore
      · exact hnew
    obtain ⟨task, htask, hsession, hrequest⟩ := hold
    obtain ⟨task', htask', hlater⟩ := hst.ext.tasks invocation task htask
    exact ⟨task', htask', hlater.session_eq.trans hsession, hlater.requestId_eq.trans hrequest⟩
  · intro source invocation canceller hget
    rw [hst.cancellers] at hget
    obtain ⟨task, htask, hended⟩ := h.cancellers source invocation canceller hget
    obtain ⟨task', htask', hlater⟩ := hst.ext.tasks invocation task htask
    exact ⟨task', htask', fun hne => hlater.ended (hended hne)⟩
  · intro key session' requestId invocation hget hclosed hinvocation
    rcases hdoomed key session' requestId invocation hget hclosed hinvocation with
      ⟨session, hsession, hwas, hbefore⟩ | hnew
    · exact (h.doomed key session requestId invocation hsession hwas hbefore).shared hst
    · exact hnew.shared hst

/-! One lemma for each kind of write. -/

@[simp] theorem State.calls_session (s : State S Q B) (key : Key) (op : SessionOp) :
    (s.write (.session key op)).calls = s.calls := by
  simp only [State.write]
  split <;> rfl

@[simp] theorem State.tasks_session (s : State S Q B) (key : Key) (op : SessionOp) :
    (s.write (.session key op)).tasks = s.tasks := by
  simp only [State.write]
  split <;> rfl

@[simp] theorem State.calls_unroute (s : State S Q B) (key : Key) :
    (s.write (.unroute key)).calls = s.calls := by
  simp only [State.write]
  split <;> rfl

@[simp] theorem State.table_unroute (s : State S Q B) (key : Key) :
    (s.write (.unroute key)).table = s.table := by
  simp only [State.write]
  split <;> rfl

section

variable {config : RuntimeConfig} {acting : Option Key} {s : State S Q B}

/-- Opening: the key and the id are new and there is room. -/
theorem Wf.open {key : Key} {session : Session S} (h : Wf config (some key) s)
    (hkey : s.table.get? key = none) (hid : session.id ∉ s.drawn)
    (hsize : s.sessions.size < config.maxSessions) (hrunning : s.shuttingDown = false)
    (hclosed : session.closed = false) (hempty : session.invocations = ∅) :
    Reaches config (some key) s (s.write (.open key session)) := by
  have hget : ∀ other session', (s.table.insert key session).get? other = some session' →
      (other = key ∧ session' = session) ∨
        (other ≠ key ∧ s.table.get? other = some session') := by
    intro other session' hother
    rw [FiniteMap.get?_insert] at hother
    split at hother
    · exact .inl ⟨‹_›, (Option.some.inj hother).symm⟩
    · exact .inr ⟨‹_›, hother⟩
  have hne : ∀ other session', s.table.get? other = some session' → other ≠ key := by
    rintro other session' hother rfl
    rw [hkey] at hother
    cases hother
  have hidne : ∀ other session', s.table.get? other = some session' → session'.id ≠ session.id :=
    fun other session' hother heq => hid (heq ▸ h.routes.drawn other session' hother)
  have hst : Shared (some key) s (s.write (.open key session)) := by
    refine ⟨⟨?_, ?_, ?_, ?_, ?_⟩, rfl, rfl, rfl, ?_, fun _ _ hnone => hnone⟩
    · intro other session' hother
      exact ⟨session', (FiniteMap.get?_insert_ne _ (hne other session' hother) _).trans hother,
        .refl session'⟩
    · exact fun other task hother => ⟨task, hother, .refl task⟩
    · intro other session' hother hroute
      rwa [State.write, FiniteMap.get?_insert_ne _ (hidne other session' hother)] at hroute
    · intro hdown
      rw [hrunning] at hdown
      cases hdown
    · exact fun other call hother hback => ⟨call, hother, hback⟩
    · intro other hother hnone
      rw [State.write, FiniteMap.get?_insert_ne _ fun heq => hother (congrArg some heq)]
      exact hnone
  refine h.shared hst ⟨?_, ?_, ?_, ?_, ?_⟩ h.tasks ?_ ?_
  · intro other session' hother
    rcases hget other session' hother with ⟨-, rfl⟩ | ⟨-, hold⟩
    · exact Finset.mem_insert_self _ _
    · exact Finset.mem_insert_of_mem (h.routes.drawn other session' hold)
  · intro other other' session' session'' hother hother' heq
    rcases hget other session' hother with ⟨rfl, rfl⟩ | ⟨-, hold⟩
    · rcases hget other' session'' hother' with ⟨rfl, -⟩ | ⟨-, hold'⟩
      · rfl
      · exact absurd heq.symm (hidne other' session'' hold')
    · rcases hget other' session'' hother' with ⟨-, rfl⟩ | ⟨-, hold'⟩
      · exact absurd heq (hidne other session' hold)
      · exact h.routes.unique other other' session' session'' hold hold' heq
  · intro id other hroute
    change (s.sessions.insert session.id key).get? id = some other at hroute
    rw [FiniteMap.get?_insert] at hroute
    split at hroute
    · cases hroute
      exact ⟨session, FiniteMap.get?_insert_self _ _ _, (‹id = session.id›).symm⟩
    · obtain ⟨session', hold, hid'⟩ := h.routes.routed id other hroute
      exact ⟨session', (FiniteMap.get?_insert_ne _ (hne other session' hold) _).trans hold, hid'⟩
  · intro other session' hother hopen
    change (s.sessions.insert session.id key).get? session'.id = some other
    rcases hget other session' hother with ⟨rfl, rfl⟩ | ⟨-, hold⟩
    · exact FiniteMap.get?_insert_self _ _ _
    · rw [FiniteMap.get?_insert_ne _ (hidne other session' hold)]
      exact h.routes.openRouted other session' hold hopen
  · change (s.sessions.insert session.id key).keys.card ≤ config.maxSessions
    rw [FiniteMap.keys_insert]
    have hinsert := Finset.card_insert_le session.id s.sessions.keys
    rw [FiniteMap.card_keys] at hinsert
    omega
  · intro other session' requestId invocation hother hinvocation
    rcases hget other session' hother with ⟨-, rfl⟩ | ⟨-, hold⟩
    · rw [hempty] at hinvocation
      cases hinvocation
    · exact .inl ⟨session', hold, hinvocation⟩
  · intro other session' requestId invocation hother hclosed' hinvocation
    rcases hget other session' hother with ⟨-, rfl⟩ | ⟨-, hold⟩
    · rw [hclosed] at hclosed'
      cases hclosed'
    · exact .inl ⟨session', hold, hclosed', hinvocation⟩

/-- A closed session leaves the session map. -/
theorem Wf.unroute {key : Key} (h : Wf config acting s)
    (hclosed : ∀ session, s.table.get? key = some session → session.closed = true) :
    Reaches config acting s (s.write (.unroute key)) := by
  cases hkey : s.table.get? key with
  | none =>
    simp only [State.write, hkey]
    exact h.reaches
  | some session =>
    simp only [State.write, hkey]
    have hst : Shared acting s { s with sessions := s.sessions.erase session.id } := by
      refine ⟨⟨?_, ?_, ?_, fun hdown => ⟨hdown, fun _ hnone => hnone⟩, ?_⟩, rfl, rfl, rfl,
        fun _ _ hnone => hnone, fun _ _ hnone => hnone⟩
      · exact fun other session' hother => ⟨session', hother, .refl session'⟩
      · exact fun other task hother => ⟨task, hother, .refl task⟩
      · exact fun other session' hother hroute => (FiniteMap.get?_erase_some hroute).2
      · exact fun other call hother hback => ⟨call, hother, hback⟩
    refine h.shared hst ⟨h.routes.drawn, h.routes.unique, ?_, ?_, ?_⟩ h.tasks ?_ ?_
    · exact fun id other hroute => h.routes.routed id other (FiniteMap.get?_erase_some hroute).2
    · intro other session' hother hopen
      have hne : session'.id ≠ session.id := by
        intro heq
        have hsame := h.routes.unique other key session' session hother hkey heq
        subst hsame
        rw [hkey] at hother
        cases hother
        rw [hclosed session hkey] at hopen
        cases hopen
      change (s.sessions.erase session.id).get? session'.id = some other
      rw [FiniteMap.get?_erase, if_neg hne]
      exact h.routes.openRouted other session' hother hopen
    · change (s.sessions.erase session.id).keys.card ≤ config.maxSessions
      rw [FiniteMap.keys_erase]
      exact (Finset.card_erase_le).trans h.routes.size
    · exact fun other session' _ _ hother hinvocation => .inl ⟨session', hother, hinvocation⟩
    · exact fun other session' _ _ hother hwas hinvocation =>
        .inl ⟨session', hother, hwas, hinvocation⟩

/-- An operation on a session. Who adds an invocation has its task, and who closes has the
cancellations to do or opened the session in vain. -/
theorem Wf.session {key : Key} {op : SessionOp} (h : Wf config acting s)
    (hadd : ∀ requestId invocation maximum, op = .addInvocation requestId invocation maximum →
      ∃ task, s.tasks.get? invocation = some task ∧ task.session = key ∧
        task.requestId = requestId)
    (hclose : op = .close → ∀ session, s.table.get? key = some session → session.closed = false →
      RolledBack s key ∨ ∃ ops, Closing s key ops ∧ .cancelAll ∈ ops) :
    Reaches config acting s (s.write (.session key op)) := by
  cases hkey : s.table.get? key with
  | none =>
    simp only [State.write, hkey]
    exact h.reaches
  | some session =>
    simp only [State.write, hkey]
    have hlater := session.later_apply op
    have hget : ∀ other session', (s.table.insert key (session.apply op)).get? other =
        some session' → (other = key ∧ session' = session.apply op) ∨
          s.table.get? other = some session' := by
      intro other session' hother
      rw [FiniteMap.get?_insert] at hother
      split at hother
      · exact .inl ⟨‹_›, (Option.some.inj hother).symm⟩
      · exact .inr hother
    -- what a session was before the operation
    have hbefore : ∀ other session', (s.table.insert key (session.apply op)).get? other =
        some session' → ∃ old, s.table.get? other = some old ∧ session'.id = old.id ∧
          (session'.closed = false → old.closed = false) := by
      intro other session' hother
      rcases hget other session' hother with ⟨rfl, rfl⟩ | hold
      · refine ⟨session, hkey, hlater.id_eq, fun hopen => ?_⟩
        cases hclosed : session.closed with
        | false => rfl
        | true =>
          rw [hlater.closed hclosed] at hopen
          cases hopen
      · exact ⟨session', hold, rfl, fun hopen => hopen⟩
    have hst : Shared acting s { s with table := s.table.insert key (session.apply op) } := by
      refine ⟨⟨?_, ?_, fun _ _ _ hroute => hroute, fun hdown => ⟨hdown, ?_⟩, ?_⟩, rfl, rfl, rfl,
        ?_, fun _ _ hnone => hnone⟩
      · intro other session' hother
        by_cases heq : other = key
        · subst heq
          rw [hkey] at hother
          cases hother
          exact ⟨_, FiniteMap.get?_insert_self _ _ _, hlater⟩
        · exact ⟨session', (FiniteMap.get?_insert_ne _ heq _).trans hother, .refl session'⟩
      · exact fun other task hother => ⟨task, hother, .refl task⟩
      · intro other hnone
        rw [FiniteMap.get?_insert_ne _ (by rintro rfl; rw [hkey] at hnone; cases hnone)]
        exact hnone
      · exact fun other call hother hback => ⟨call, hother, hback⟩
      · intro other _ hnone
        rw [FiniteMap.get?_insert_ne _ (by rintro rfl; rw [hkey] at hnone; cases hnone)]
        exact hnone
    refine h.shared hst ⟨?_, ?_, ?_, ?_, h.routes.size⟩ h.tasks ?_ ?_
    · intro other session' hother
      obtain ⟨old, hold, hid, -⟩ := hbefore other session' hother
      rw [hid]
      exact h.routes.drawn other old hold
    · intro other other' session' session'' hother hother' heq
      obtain ⟨old, hold, hid, -⟩ := hbefore other session' hother
      obtain ⟨old', hold', hid', -⟩ := hbefore other' session'' hother'
      exact h.routes.unique other other' old old' hold hold' (hid.symm.trans (heq.trans hid'))
    · intro id other hroute
      obtain ⟨old, hold, hid⟩ := h.routes.routed id other hroute
      obtain ⟨session', hsession', hlater'⟩ := hst.ext.table other old hold
      exact ⟨session', hsession', hlater'.id_eq.trans hid⟩
    · intro other session' hother hopen
      obtain ⟨old, hold, hid, hwas⟩ := hbefore other session' hother
      rw [hid]
      exact h.routes.openRouted other old hold (hwas hopen)
    · intro other session' requestId invocation hother hinvocation
      rcases hget other session' hother with ⟨rfl, rfl⟩ | hold
      · rcases Session.invocations_apply hinvocation with hwas | ⟨maximum, hop⟩
        · exact .inl ⟨session, hkey, hwas⟩
        · exact .inr (hadd requestId invocation maximum hop)
      · exact .inl ⟨session', hold, hinvocation⟩
    · intro other session' requestId invocation hother hclosed hinvocation
      rcases hget other session' hother with ⟨rfl, rfl⟩ | hold
      · cases hwas : session.closed with
        | true =>
          exact .inl ⟨session, hkey, hwas, hlater.invocations hwas requestId invocation hinvocation⟩
        | false =>
          have hop : op = .close := by
            rcases Session.closed_apply hclosed with hclosed' | hop
            · rw [hwas] at hclosed'
              cases hclosed'
            · exact hop
          rcases hclose hop session hkey hwas with hback | ⟨ops, hclosing, hall⟩
          · exact .inr (.inr (.inr (.inr hback)))
          · exact .inr (.inr (.inr (.inl ⟨ops, hclosing, .inl hall⟩)))
      · exact .inl ⟨session', hold, hclosed, hinvocation⟩

/-- `finish_invocation` and `finish_request`. -/
theorem Wf.finish {key : Key} {op : SessionOp} {requestId : String} (finish : Finish)
    (h : Wf config acting s) (hop : finish.op requestId = some op) :
    Reaches config acting s (s.write (.session key op)) := by
  apply h.session
  · rintro _ _ _ rfl
    cases finish <;> cases hop
  · rintro rfl
    cases finish <;> cases hop

/-- A task goes on, or the acting call has started it. -/
theorem Wf.task {key : Key} {task : Task} (h : Wf config acting s) (hok : task.Ok)
    (hold : (some key = acting ∧ s.tasks.get? key = none) ∨
      ∃ old, s.tasks.get? key = some old ∧ old.Later task) :
    Reaches config acting s (s.write (.task key task)) := by
  have hst : Shared acting s (s.write (.task key task)) := by
    refine ⟨⟨?_, ?_, fun _ _ _ hroute => hroute, fun hdown => ⟨hdown, fun _ hnone => hnone⟩, ?_⟩,
      rfl, rfl, rfl, fun _ _ hnone => hnone, ?_⟩
    · exact fun other session' hother => ⟨session', hother, .refl session'⟩
    · intro other task' hother
      change ∃ task'', (s.tasks.insert key task).get? other = some task'' ∧ task'.Later task''
      by_cases heq : other = key
      · subst heq
        rcases hold with ⟨-, hnone⟩ | ⟨old, hget, hlater⟩
        · rw [hnone] at hother
          cases hother
        · rw [hget] at hother
          cases hother
          exact ⟨task, FiniteMap.get?_insert_self _ _ _, hlater⟩
      · exact ⟨task', (FiniteMap.get?_insert_ne _ heq _).trans hother, .refl task'⟩
    · exact fun other call hother hback => ⟨call, hother, hback⟩
    · intro other hother hnone
      rw [State.write, FiniteMap.get?_insert_ne]
      · exact hnone
      · rintro rfl
        rcases hold with ⟨hacting, -⟩ | ⟨old, hget, -⟩
        · exact hother hacting
        · rw [hget] at hnone
          cases hnone
  refine h.shared hst ⟨h.routes.drawn, h.routes.unique, h.routes.routed, h.routes.openRouted,
    h.routes.size⟩ ?_ ?_ ?_
  · intro other task' hother
    change (s.tasks.insert key task).get? other = some task' at hother
    rw [FiniteMap.get?_insert] at hother
    split at hother
    · cases hother
      exact hok
    · exact h.tasks other task' hother
  · exact fun other session' _ _ hother hinvocation => .inl ⟨session', hother, hinvocation⟩
  · exact fun other session' _ _ hother hwas hinvocation =>
      .inl ⟨session', hother, hwas, hinvocation⟩

/-- Replies and the shutdown flag are in no part of the invariant. -/
theorem Wf.send (key : Key) (reply : Reply B) (h : Wf config acting s) :
    Reaches config acting s (s.write (.send key reply)) :=
  ⟨⟨⟨h.routes.drawn, h.routes.unique, h.routes.routed, h.routes.openRouted, h.routes.size⟩,
      h.actor, h.calls, h.absent, h.tasks, h.closers, h.registered, h.cancellers, h.doomed⟩,
    .of_eq rfl rfl rfl (fun hdown => hdown) fun _ call hget hback => ⟨call, hget, hback⟩⟩

theorem Wf.shutDown (h : Wf config acting s) : Reaches config acting s (s.write .shutDown) :=
  ⟨⟨⟨h.routes.drawn, h.routes.unique, h.routes.routed, h.routes.openRouted, h.routes.size⟩,
      h.actor, h.calls, h.absent, h.tasks, h.closers, h.registered, h.cancellers, h.doomed⟩,
    .of_eq rfl rfl rfl (fun _ => rfl) fun _ call hget hback => ⟨call, hget, hback⟩⟩

/-- A closing goes on: what it still had to cancel it has, or has started to. -/
theorem Wf.closer {serial : ℕ} {key : Key} {ops : List ClosingOp} {session : Session S}
    (h : Wf config acting s) (hsession : s.table.get? key = some session)
    (hok : ClosingOk session.closed ops)
    (hkept : ∀ old, s.closers.get? (serial, key) = some old → ∀ requestId invocation,
      session.invocations.get? requestId = some invocation → Cancels old requestId →
        Cancels ops requestId ∨ Ended s invocation ∨ Cancelling s invocation) :
    Reaches config acting s (s.write (.closer serial key ops)) := by
  refine ⟨⟨⟨h.routes.drawn, h.routes.unique, h.routes.routed, h.routes.openRouted,
    h.routes.size⟩, h.actor, h.calls, h.absent, h.tasks, ?_, h.registered, h.cancellers, ?_⟩,
    .of_eq rfl rfl rfl (fun hdown => hdown) fun _ call hget hback => ⟨call, hget, hback⟩⟩
  · intro serial' key' ops' hget
    change (s.closers.insert (serial, key) ops).get? (serial', key') = some ops' at hget
    rw [FiniteMap.get?_insert] at hget
    split at hget
    · rename_i heq
      cases heq
      cases hget
      exact ⟨session, hsession, hok⟩
    · exact h.closers serial' key' ops' hget
  · intro key' session' requestId invocation hget hclosed hinvocation
    rcases h.doomed key' session' requestId invocation hget hclosed hinvocation with
      hended | hcancelling | ⟨old, hclosing, hcancels⟩ | hback
    · exact .inl hended
    · exact .inr (.inl hcancelling)
    · rcases hclosing with ⟨serial', hcloser⟩ | hcall
      · by_cases heq : (serial', key') = (serial, key)
        · cases heq
          change s.table.get? key = some session' at hget
          rw [hsession] at hget
          cases hget
          rcases hkept old hcloser requestId invocation hinvocation hcancels with hops | hnew
          · exact .inr (.inr (.inl ⟨ops, .inl ⟨serial, FiniteMap.get?_insert_self _ _ _⟩, hops⟩))
          · rcases hnew with hended | hcancelling
            · exact .inl hended
            · exact .inr (.inl hcancelling)
        · exact .inr (.inr (.inl ⟨old,
            .inl ⟨serial', (FiniteMap.get?_insert_ne _ heq _).trans hcloser⟩, hcancels⟩))
      · exact .inr (.inr (.inl ⟨old, .inr hcall, hcancels⟩))
    · exact .inr (.inr (.inr hback))

/-- A cancellation goes on: it is past waiting only for a task that is over. -/
theorem Wf.canceller {source : Source} {invocation : Key} {canceller : Canceller} {task : Task}
    (h : Wf config acting s) (htask : s.tasks.get? invocation = some task)
    (hended : canceller ≠ .cancelling → task.ended = true) :
    Reaches config acting s (s.write (.canceller source invocation canceller)) := by
  refine ⟨⟨⟨h.routes.drawn, h.routes.unique, h.routes.routed, h.routes.openRouted,
    h.routes.size⟩, h.actor, h.calls, h.absent, h.tasks, h.closers, h.registered, ?_, ?_⟩,
    .of_eq rfl rfl rfl (fun hdown => hdown) fun _ call hget hback => ⟨call, hget, hback⟩⟩
  · intro source' invocation' canceller' hget
    change (s.cancellers.insert (source, invocation) canceller).get? (source', invocation') =
      some canceller' at hget
    rw [FiniteMap.get?_insert] at hget
    split at hget
    · rename_i heq
      cases heq
      cases hget
      exact ⟨task, htask, hended⟩
    · exact h.cancellers source' invocation' canceller' hget
  · intro key session requestId other hget hclosed hinvocation
    rcases h.doomed key session requestId other hget hclosed hinvocation with
      hover | ⟨source', hcancelling⟩ | hclosing | hback
    · exact .inl hover
    · by_cases heq : (source', other) = (source, invocation)
      · cases heq
        by_cases hstill : canceller = .cancelling
        · subst hstill
          exact .inr (.inl ⟨source, FiniteMap.get?_insert_self _ _ _⟩)
        · exact .inl ⟨task, htask, hended hstill⟩
      · exact .inr (.inl ⟨source', (FiniteMap.get?_insert_ne _ heq _).trans hcancelling⟩)
    · exact .inr (.inr (.inl hclosing))
    · exact .inr (.inr (.inr hback))

/-- A call goes on: an undone opening stays one, and a closing has its cancellations or has started
them. -/
theorem Wf.call {key : Key} {call : Call S Q B} (h : Wf config acting s)
    (hacting : acting = none ∨ acting = some key)
    (hback : ∀ old, s.calls.get? key = some old → old.stage.isRollback = true →
      call.stage.isRollback = true)
    (hclosing : ∀ old target ops first cancelled, s.calls.get? key = some old →
      old.stage = .closing target ops first cancelled → ∀ session requestId invocation,
        s.table.get? target = some session →
        session.invocations.get? requestId = some invocation → Cancels ops requestId →
          (∃ ops' first' cancelled', call.stage = .closing target ops' first' cancelled' ∧
            Cancels ops' requestId) ∨ Ended s invocation ∨ Cancelling s invocation) :
    Reaches config (some key) s (s.write (.call key call)) := by
  have hget : ∀ other call', (s.calls.insert key call).get? other = some call' →
      (other = key ∧ call' = call) ∨ (other ≠ key ∧ s.calls.get? other = some call') := by
    intro other call' hother
    rw [FiniteMap.get?_insert] at hother
    split at hother
    · exact .inl ⟨‹_›, (Option.some.inj hother).symm⟩
    · exact .inr ⟨‹_›, hother⟩
  have hrollback : ∀ other old, s.calls.get? other = some old → old.stage.isRollback = true →
      ∃ call', (s.calls.insert key call).get? other = some call' ∧
        call'.stage.isRollback = true := by
    intro other old hold hstage
    by_cases heq : other = key
    · subst heq
      exact ⟨call, FiniteMap.get?_insert_self _ _ _, hback old hold hstage⟩
    · exact ⟨old, (FiniteMap.get?_insert_ne _ heq _).trans hold, hstage⟩
  refine ⟨⟨⟨h.routes.drawn, h.routes.unique, h.routes.routed, h.routes.openRouted,
    h.routes.size⟩, ?_, ?_, ?_, h.tasks, h.closers, h.registered, h.cancellers, ?_⟩,
    .of_eq rfl rfl rfl (fun hdown => hdown) hrollback⟩
  · rintro _ ⟨⟩
    change ((s.calls.insert key call).get? key).isSome = true
    rw [FiniteMap.get?_insert_self]
    rfl
  · intro other call' hother hne
    rcases hget other call' hother with ⟨rfl, rfl⟩ | ⟨-, hold⟩
    · exact absurd rfl hne
    · refine h.calls other call' hold ?_
      rcases hacting with rfl | rfl
      · exact fun hsome => by cases hsome
      · exact hne
  · intro other hnone
    change (s.calls.insert key call).get? other = none at hnone
    rw [FiniteMap.get?_insert] at hnone
    split at hnone
    · cases hnone
    · exact h.absent other hnone
  · intro target session requestId invocation hsession hclosed hinvocation
    rcases h.doomed target session requestId invocation hsession hclosed hinvocation with
      hover | hcancelling | ⟨ops, hops, hcancels⟩ | ⟨old, hold, hstage⟩
    · exact .inl hover
    · exact .inr (.inl hcancelling)
    · rcases hops with hcloser | ⟨other, old, first, cancelled, hold, hstage⟩
      · exact .inr (.inr (.inl ⟨ops, .inl hcloser, hcancels⟩))
      · by_cases heq : other = key
        · subst heq
          rcases hclosing old target ops first cancelled hold hstage session requestId invocation
            hsession hinvocation hcancels with ⟨ops', first', cancelled', hstage', hcancels'⟩ |
            hover | hcancelling
          · exact .inr (.inr (.inl ⟨ops', .inr ⟨other, call, first', cancelled',
              FiniteMap.get?_insert_self _ _ _, hstage'⟩, hcancels'⟩))
          · exact .inl hover
          · exact .inr (.inl hcancelling)
        · exact .inr (.inr (.inl ⟨ops, .inr ⟨other, old, first, cancelled,
            (FiniteMap.get?_insert_ne _ heq _).trans hold, hstage⟩, hcancels⟩))
    · exact .inr (.inr (.inr (hrollback target old hold hstage)))

/-- The acting call has arrived. -/
theorem Wf.settle {key : Key} {call : Call S Q B} (h : Wf config (some key) s)
    (hcall : s.calls.get? key = some call) (hok : CallOk s key call) : Wf config none s := by
  refine { h with actor := by rintro _ ⟨⟩, calls := ?_ }
  intro other call' hget _
  by_cases heq : other = key
  · subst heq
    rw [hcall] at hget
    cases hget
    exact hok
  · exact h.calls other call' hget fun hsome => heq (Option.some.inj hsome)

/-- Neither undoes an opening nor closes a session. -/
def Stage.isPlain : Stage S B → Bool
  | .rollingBack | .rolledBack | .closing _ _ _ _ => false
  | _ => true

theorem Wf.leave {key : Key} {old call : Call S Q B} (h : Wf config (some key) s)
    (hold : s.calls.get? key = some old) (hplain : old.stage.isPlain = true) :
    Reaches config (some key) s (s.write (.call key call)) := by
  apply h.call (.inr rfl)
  · intro old' hold' hback
    rw [hold] at hold'
    cases hold'
    cases hstage : old.stage <;> rw [hstage] at hplain hback <;> contradiction
  · intro old' target ops first cancelled hold' hstage
    rw [hold] at hold'
    cases hold'
    rw [hstage] at hplain
    cases hplain

/-- A call goes on to a place that is right for it. -/
theorem Wf.goto {key : Key} {old call : Call S Q B} (h : Wf config (some key) s)
    (hold : s.calls.get? key = some old) (hplain : old.stage.isPlain = true)
    (hok : CallOk s key call) : Reaches config none s (s.write (.call key call)) := by
  have hleft : Reaches config (some key) s (s.write (.call key call)) := h.leave hold hplain
  exact ⟨hleft.wf.settle (FiniteMap.get?_insert_self _ _ _) hok, hleft.ext⟩

theorem Reaches.goto {t : State S Q B} {key : Key} {old call : Call S Q B}
    (ht : Reaches config (some key) s t) (hcalls : t.calls = s.calls)
    (hold : s.calls.get? key = some old) (hplain : old.stage.isPlain = true)
    (hok : CallOk t key call) : Reaches config none s (t.write (.call key call)) :=
  ht.trans (ht.wf.goto (by rw [hcalls, hold]) hplain hok)

end

/-! The steps of a call. -/

section

variable {host : Host S Q B} {config : RuntimeConfig} {s : State S Q B} {key : Key}
  {call : Call S Q B} {draw : String} {delivered : Bool}

theorem route_cases (host : Host S Q B) (s : State S Q B) (key : Key) (envelope : Envelope Q) :
    (∃ fault, route host s key envelope = .failing fault none) ∨
      (∃ store storeId negotiated,
        route host s key envelope = .openGate store storeId negotiated) ∨
      ∃ target, route host s key envelope = .begin target ∧ target.owner = key.owner := by
  unfold route
  split
  · exact .inl ⟨_, rfl⟩
  · split
    · exact .inl ⟨_, rfl⟩
    · unfold routeOpen
      split_ifs
      · exact .inl ⟨_, rfl⟩
      · exact .inl ⟨_, rfl⟩
      · split
        · exact .inl ⟨_, rfl⟩
        · split
          · exact .inl ⟨_, rfl⟩
          · split
            · exact .inl ⟨_, rfl⟩
            · split
              · exact .inl ⟨_, rfl⟩
              · simp only
                split_ifs
                · exact .inr (.inl ⟨_, _, _, rfl⟩)
                · exact .inl ⟨_, rfl⟩
    · exact .inl ⟨_, rfl⟩
    · unfold routeSession
      split
      · exact .inl ⟨_, rfl⟩
      · split_ifs with howner
        · exact .inl ⟨_, rfl⟩
        · split
          · exact .inl ⟨_, rfl⟩
          · split_ifs
            · exact .inr (.inr ⟨_, rfl, not_not.mp howner⟩)
            · exact .inl ⟨_, rfl⟩

theorem Wf.reaches_routing (h : Wf config none s) (hcall : s.calls.get? key = some call)
    (hstage : call.stage = .routing) :
    Reaches config none s
      (s.write (.call key { call with stage := route host s key call.envelope })) := by
  have hok := h.calls key call hcall (by simp)
  simp only [CallOk, hstage] at hok
  refine (h.acting hcall).goto hcall (by rw [hstage]; rfl) ?_
  rcases route_cases host s key call.envelope with
    ⟨fault, heq⟩ | ⟨store, storeId, negotiated, heq⟩ | ⟨target, heq, -⟩
  · simp only [CallOk, heq]
  · simpa only [CallOk, heq] using hok.1
  · simpa only [CallOk, heq] using hok.2

/-- `open_store` from the session gate on. -/
theorem Wf.reaches_openGate {store : S} {storeId : String} {negotiated : ProtocolVersion}
    (h : Wf config none s) (hcall : s.calls.get? key = some call)
    (hstage : call.stage = .openGate store storeId negotiated) :
    Reaches config none s (s.writeAll (callWrites host config s key call draw delivered)) := by
  have hok := h.calls key call hcall (by simp)
  simp only [CallOk, hstage] at hok
  have hplain : call.stage.isPlain = true := by rw [hstage]; rfl
  have hacting := h.acting hcall
  simp only [callWrites, hstage]
  split_ifs with hdown hfull hdrawn
  · exact hacting.goto hcall hplain True.intro
  · exact hacting.goto hcall hplain True.intro
  · exact h.reaches
  · have hopened : Reaches config (some key) s
        (s.write (.open key (.new draw negotiated store config.completionHistory))) :=
      hacting.open hok hdrawn (by omega) (by simpa using hdown) rfl rfl
    exact hopened.goto rfl hcall hplain ⟨_, FiniteMap.get?_insert_self _ _ _⟩

/-- A call closes a session, and is to undo its opening or to cancel its invocations. -/
theorem Wf.reaches_close {target : Key} {session : Session S} {next : Call S Q B}
    (h : Wf config none s) (hcall : s.calls.get? key = some call)
    (hplain : call.stage.isPlain = true) (hsession : s.table.get? target = some session)
    (hnext : (next.stage = .rollingBack ∧ target = key) ∨
      ∃ ops first cancelled, next.stage = .closing target ops first cancelled ∧
        .cancelAll ∈ ops) :
    Reaches config none s (s.writeAll [.call key next, .session target .close]) := by
  have hleft : Reaches config (some key) s (s.write (.call key next)) :=
    (h.acting hcall).leave hcall hplain
  have hget : (s.write (.call key next)).calls.get? key = some next :=
    FiniteMap.get?_insert_self _ _ _
  have hclosed : Reaches config (some key) (s.write (.call key next))
      ((s.write (.call key next)).write (.session target .close)) := by
    refine hleft.wf.session (by rintro _ _ _ ⟨⟩) fun _ _ _ _ => ?_
    rcases hnext with ⟨hstage, rfl⟩ | ⟨ops, first, cancelled, hstage, hall⟩
    · exact .inl ⟨next, hget, by rw [hstage]; rfl⟩
    · exact .inr ⟨ops, .inr ⟨key, next, first, cancelled, hget, hstage⟩, hall⟩
  have htable : ∃ session', ((s.write (.call key next)).write
      (.session target .close)).table.get? target = some session' ∧ session'.closed = true := by
    have hcopy : (s.write (.call key next)).table.get? target = some session := hsession
    simp only [State.write] at hcopy ⊢
    rw [hcopy]
    exact ⟨_, FiniteMap.get?_insert_self _ _ _, rfl⟩
  have hgetClosed : ((s.write (.call key next)).write
      (.session target .close)).calls.get? key = some next := by
    rw [State.calls_session, hget]
  refine hleft.trans ⟨hclosed.wf.settle hgetClosed ?_, hclosed.ext⟩
  rcases hnext with ⟨hstage, rfl⟩ | ⟨ops, first, cancelled, hstage, -⟩
  · simpa only [CallOk, hstage] using htable
  · simpa only [CallOk, hstage] using htable

theorem Wf.reaches_rollingBack (h : Wf config none s) (hcall : s.calls.get? key = some call)
    (hstage : call.stage = .rollingBack) :
    Reaches config none s (s.writeAll (callWrites host config s key call draw delivered)) := by
  have hok := h.calls key call hcall (by simp)
  simp only [CallOk, hstage] at hok
  obtain ⟨session, hsession, hclosed⟩ := hok
  have hsame : ∀ session', s.table.get? key = some session' → session'.closed = true := by
    intro session' hget
    rw [hsession] at hget
    cases hget
    exact hclosed
  simp only [callWrites, hstage, hsession]
  -- either way the route is gone when the call arrives
  have harrive : ∀ t : State S Q B, Reaches config (some key) s t → t.calls = s.calls →
      t.table = s.table → t.sessions.get? session.id ≠ some key →
      Reaches config none s (t.write (.call key { call with stage := .rolledBack })) := by
    intro t ht hcalls htable hroute
    have hleft : Reaches config (some key) t
        (t.write (.call key { call with stage := .rolledBack })) := by
      refine ht.wf.call (.inr rfl) (fun _ _ _ => rfl) ?_
      intro old target ops first cancelled hold hclosing
      rw [hcalls, hcall] at hold
      cases hold
      rw [hstage] at hclosing
      cases hclosing
    refine ht.trans ⟨hleft.wf.settle (FiniteMap.get?_insert_self _ _ _) ?_, hleft.ext⟩
    exact ⟨session, by rw [← hsession, ← htable]; rfl, hclosed, hroute⟩
  split_ifs with hroute
  · refine harrive _ ((h.acting hcall).unroute hsame) (State.calls_unroute s key)
      (State.table_unroute s key) ?_
    simp only [State.write, hsession]
    rw [FiniteMap.get?_erase, if_pos rfl]
    exact fun hsome => by cases hsome
  · exact harrive s (h.acting hcall).reaches rfl rfl hroute

/-- `start_invocation` once the task is there. -/
theorem Wf.reaches_adding {target : Key} (h : Wf config none s)
    (hcall : s.calls.get? key = some call) (hstage : call.stage = .adding target) :
    Reaches config none s (s.writeAll (callWrites host config s key call draw delivered)) := by
  have hok := h.calls key call hcall (by simp)
  simp only [CallOk, hstage] at hok
  have hplain : call.stage.isPlain = true := by rw [hstage]; rfl
  simp only [callWrites, hstage]
  split
  · rename_i session hsession
    split_ifs
    · have hadded : Reaches config (some key) s (s.write (.session target
          (.addInvocation call.envelope.requestId key config.maxInvocationsPerSession))) := by
        refine (h.acting hcall).session ?_ (by rintro ⟨⟩)
        rintro _ _ _ ⟨⟩
        exact hok
      exact hadded.goto (State.calls_session _ _ _) hcall hplain True.intro
    · exact (h.acting hcall).goto hcall hplain True.intro
  · exact h.reaches

theorem Wf.reaches_routed {target : Key} {session : Session S} (h : Wf config none s)
    (hcall : s.calls.get? key = some call) (hstage : call.stage = .routed target)
    (hsession : s.table.get? target = some session) :
    Reaches config none s
      (s.writeAll (routedWrites host config s key call target session)) := by
  have hok := h.calls key call hcall (by simp)
  simp only [CallOk, hstage] at hok
  have hplain : call.stage.isPlain = true := by rw [hstage]; rfl
  have hacting := h.acting hcall
  unfold routedWrites
  simp only
  split
  · split
    · exact hacting.goto hcall hplain True.intro
    · exact hacting.goto hcall hplain True.intro
  · split
    · exact hacting.goto hcall hplain True.intro
    · split_ifs
      · exact hacting.goto hcall hplain True.intro
      · have hnew : Task.Ok ⟨target, call.envelope.requestId, sessionMetadata session call.envelope,
            false, false, false, false, true, none⟩ := ⟨by rintro ⟨⟩, by rintro ⟨⟩, by rintro ⟨⟩⟩
        exact (hacting.task hnew (.inl ⟨rfl, hok⟩)).goto rfl hcall hplain
          ⟨_, FiniteMap.get?_insert_self _ _ _, rfl, rfl⟩
  · split
    · rename_i invocation hinvocation
      obtain ⟨task, htask, -⟩ := h.registered target session _ invocation hsession hinvocation
      exact (hacting.canceller htask fun hne => absurd rfl hne).goto rfl hcall hplain True.intro
    · exact hacting.goto hcall hplain True.intro
  · exact h.reaches_close hcall hplain hsession
      (.inr ⟨_, _, _, rfl, List.mem_cons_of_mem _ List.mem_cons_self⟩)
  · exact hacting.goto hcall hplain True.intro

/-- One operation of a closing: what it had to cancel it still has, or it is done. -/
theorem Wf.reaches_op {acting : Option Key} (source : Source) {target : Key}
    {session : Session S} {op : ClosingOp} {ops : List ClosingOp} (h : Wf config acting s)
    (hsession : s.table.get? target = some session) (hok : ClosingOk session.closed (op :: ops))
    (hclosing : Closing s target (op :: ops)) :
    ∃ t, s.writeAll (closingStep s source target session op).1 = t ∧ Reaches config acting s t ∧
      t.calls = s.calls ∧ t.closers = s.closers ∧
      ∃ session', t.table.get? target = some session' ∧
        ClosingOk session'.closed ((closingStep s source target session op).2 ++ ops) ∧
        (session.closed = true → session'.closed = true) ∧
        ∀ requestId invocation, session'.invocations.get? requestId = some invocation →
          Cancels (op :: ops) requestId →
            Cancels ((closingStep s source target session op).2 ++ ops) requestId ∨
              Ended t invocation ∨ Cancelling t invocation := by
  have hclosed : op ≠ .close → session.closed = true := by
    intro hne
    rcases hok with hclosed | hnil | ⟨rest, hcons, -⟩
    · exact hclosed
    · cases hnil
    · cases hcons
      exact absurd rfl hne
  -- only the head is used up
  have htail : ∀ requestId, op ≠ .cancelAll → op ≠ .cancel requestId →
      Cancels (op :: ops) requestId → Cancels ops requestId := by
    intro requestId hall hone hcancels
    rcases hcancels with hmem | hmem
    · exact .inl ((List.mem_cons.mp hmem).resolve_left (Ne.symm hall))
    · exact .inr ((List.mem_cons.mp hmem).resolve_left (Ne.symm hone))
  refine ⟨_, rfl, ?_⟩
  cases op with
  | close =>
    have hreach : Reaches config acting s (s.write (.session target .close)) := by
      refine h.session (by rintro _ _ _ ⟨⟩) fun _ session' hget hopen => ?_
      rw [hsession] at hget
      cases hget
      rcases hok with hclosed | hnil | ⟨rest, hcons, hall⟩
      · rw [hopen] at hclosed
        cases hclosed
      · cases hnil
      · cases hcons
        exact .inr ⟨_, hclosing, List.mem_cons_of_mem _ hall⟩
    have htable : (s.write (.session target .close)).table.get? target =
        some { session with closed := true } := by
      simp only [State.write, hsession]
      exact FiniteMap.get?_insert_self _ _ _
    refine ⟨hreach, State.calls_session _ _ _, ?_, _, htable, .inl rfl, fun _ => rfl, ?_⟩
    · simp only [closingStep, State.writeAll, List.foldl, State.write]
      split <;> rfl
    · intro requestId invocation _ hcancels
      exact .inl (htail requestId (by simp) (by simp) hcancels)
  | remove =>
    have hwas := hclosed (by simp)
    have hreach : Reaches config acting s (s.write (.unroute target)) := by
      refine h.unroute fun session' hget => ?_
      rw [hsession] at hget
      cases hget
      exact hwas
    have htable : (s.write (.unroute target)).table.get? target = some session := by
      rw [State.table_unroute, hsession]
    refine ⟨hreach, State.calls_unroute _ _, ?_, session, htable, .inl hwas, fun _ => hwas, ?_⟩
    · simp only [closingStep, State.writeAll, List.foldl, State.write]
      split <;> rfl
    · intro requestId invocation _ hcancels
      exact .inl (htail requestId (by simp) (by simp) hcancels)
  | cancelAll =>
    have hwas := hclosed (by simp)
    refine ⟨h.reaches, rfl, rfl, session, hsession, .inl hwas, fun _ => hwas, ?_⟩
    intro requestId invocation hinvocation _
    refine .inl (.inr (List.mem_append_left _ (List.mem_map.mpr
      ⟨(requestId, invocation), FiniteMap.mem_toList.mpr hinvocation, rfl⟩)))
  | cancel requestId =>
    have hwas := hclosed (by simp)
    simp only [closingStep]
    cases hinvocation : session.invocations.get? requestId with
    | none =>
      refine ⟨h.reaches, rfl, rfl, session, hsession, .inl hwas, fun _ => hwas, ?_⟩
      intro other invocation hother hcancels
      refine .inl (htail other (by simp) ?_ hcancels)
      rintro ⟨⟩
      rw [hinvocation] at hother
      cases hother
    | some invocation =>
      simp only
      cases hcanceller : s.cancellers.get? (source, invocation) with
      | some canceller =>
        refine ⟨h.reaches, rfl, rfl, session, hsession, .inl hwas, fun _ => hwas, ?_⟩
        intro other invocation' hother hcancels
        by_cases heq : other = requestId
        · subst heq
          rw [hinvocation] at hother
          cases hother
          obtain ⟨task, htask, hended⟩ := h.cancellers source invocation canceller hcanceller
          by_cases hstill : canceller = .cancelling
          · subst hstill
            exact .inr (.inr ⟨source, hcanceller⟩)
          · exact .inr (.inl ⟨task, htask, hended hstill⟩)
        · refine .inl (htail other (by simp) ?_ hcancels)
          rintro ⟨⟩
          exact heq rfl
      | none =>
        obtain ⟨task, htask, -⟩ :=
          h.registered target session requestId invocation hsession hinvocation
        refine ⟨h.canceller htask fun hne => absurd rfl hne, rfl, rfl, session, hsession,
          .inl hwas, fun _ => hwas, ?_⟩
        intro other invocation' hother hcancels
        by_cases heq : other = requestId
        · subst heq
          rw [hinvocation] at hother
          cases hother
          exact .inr (.inr ⟨source, FiniteMap.get?_insert_self _ _ _⟩)
        · refine .inl (htail other (by simp) ?_ hcancels)
          rintro ⟨⟩
          exact heq rfl

theorem State.writeAll_append (s : State S Q B) (writes writes' : List (Write S Q B)) :
    s.writeAll (writes ++ writes') = (s.writeAll writes).writeAll writes' :=
  List.foldl_append

theorem Wf.reaches_closing {target : Key} {op : ClosingOp} {ops : List ClosingOp} {first : Bool}
    {cancelled : List Key} (h : Wf config none s) (hcall : s.calls.get? key = some call)
    (hstage : call.stage = .closing target (op :: ops) first cancelled) :
    Reaches config none s (s.writeAll (callWrites host config s key call draw delivered)) := by
  have hok := h.calls key call hcall (by simp)
  simp only [CallOk, hstage] at hok
  obtain ⟨session, hsession, hclosed⟩ := hok
  obtain ⟨t, ht, hreach, hcalls, -, session', hsession', -, hwas, hkept⟩ :=
    (h.acting hcall).reaches_op (.call key) hsession (.inl hclosed)
      (.inr ⟨key, call, first, cancelled, hcall, hstage⟩)
  simp only [callWrites, hstage, hsession]
  rw [State.writeAll_append, ht]
  have hleft : Reaches config (some key) t (t.write (.call key
      { call with
        stage := .closing target ((closingStep s (.call key) target session op).2 ++ ops) first
          (startedBy session cancelled op) })) := by
    refine hreach.wf.call (.inr rfl) ?_ ?_
    · intro old hold hback
      rw [hcalls, hcall] at hold
      cases hold
      rw [hstage] at hback
      cases hback
    · intro old target' ops' first' cancelled' hold hstage' session'' requestId invocation hget
        hinvocation hcancels
      rw [hcalls, hcall] at hold
      cases hold
      rw [hstage] at hstage'
      cases hstage'
      rw [hsession'] at hget
      cases hget
      rcases hkept requestId invocation hinvocation hcancels with hops | hnew
      · exact .inl ⟨_, _, _, rfl, hops⟩
      · exact .inr hnew
  refine hreach.trans ⟨hleft.wf.settle (FiniteMap.get?_insert_self _ _ _) ?_, hleft.ext⟩
  exact ⟨session', hsession', hwas hclosed⟩

/-- The closing request has started all its cancellations. -/
theorem Wf.reaches_closed {target : Key} {first : Bool} {cancelled : List Key}
    {next : Call S Q B} (h : Wf config none s) (hcall : s.calls.get? key = some call)
    (hstage : call.stage = .closing target [] first cancelled) (hok : CallOk s key next) :
    Reaches config none s (s.write (.call key next)) := by
  have hleft : Reaches config (some key) s (s.write (.call key next)) := by
    refine (h.acting hcall).call (.inr rfl) ?_ ?_
    · intro old hold hback
      rw [hcall] at hold
      cases hold
      rw [hstage] at hback
      cases hback
    · intro old target' ops first' cancelled' hold hstage' _ _ _ _ _ hcancels
      rw [hcall] at hold
      cases hold
      rw [hstage] at hstage'
      cases hstage'
      rcases hcancels with hmem | hmem <;> cases hmem
  exact ⟨hleft.wf.settle (FiniteMap.get?_insert_self _ _ _) hok, hleft.ext⟩

/-- A call takes its next step. -/
theorem Wf.reaches_advance (h : Wf config none s) (hcall : s.calls.get? key = some call) :
    Reaches config none s (s.writeAll (callWrites host config s key call draw delivered)) := by
  have hok := h.calls key call hcall (by simp)
  have hacting := h.acting hcall
  cases hstage : call.stage with
  | routing =>
    simp only [callWrites, hstage]
    exact h.reaches_routing hcall hstage
  | openGate store storeId negotiated => exact h.reaches_openGate hcall hstage
  | sendOpen storeId negotiated store =>
    simp only [CallOk, hstage] at hok
    obtain ⟨session, hsession⟩ := hok
    simp only [callWrites, hstage, hsession]
    split_ifs
    · exact (hacting.send key _).goto rfl hcall (by rw [hstage]; rfl) True.intro
    · exact h.reaches_close hcall (by rw [hstage]; rfl) hsession (.inl ⟨rfl, rfl⟩)
  | rollingBack => exact h.reaches_rollingBack hcall hstage
  | «begin» target =>
    simp only [CallOk, hstage] at hok
    have hplain : call.stage.isPlain = true := by rw [hstage]; rfl
    simp only [callWrites, hstage]
    split
    · split_ifs
      · have hbegun : Reaches config (some key) s
            (s.write (.session target (.beginRequest call.envelope.requestId))) :=
          hacting.session (by rintro _ _ _ ⟨⟩) (by rintro ⟨⟩)
        refine hbegun.goto (State.calls_session _ _ _) hcall hplain ?_
        change (s.write (.session target (.beginRequest call.envelope.requestId))).tasks.get? key =
          none
        rw [State.tasks_session, hok]
      · exact hacting.goto hcall hplain True.intro
    · exact h.reaches
  | beginRefused target =>
    simp only [callWrites, hstage]
    split
    · split_ifs <;> exact hacting.goto hcall (by rw [hstage]; rfl) True.intro
    · exact h.reaches
  | routed target =>
    simp only [callWrites, hstage]
    split
    · exact h.reaches_routed hcall hstage ‹_›
    · exact h.reaches
  | adding target => exact h.reaches_adding hcall hstage
  | addRefused target =>
    simp only [callWrites, hstage]
    split
    · rename_i task htask
      split
      · have hended : Reaches config (some key) s (s.write (.task key { task with ended := true })) :=
          hacting.task (.of_ended rfl) (.inr ⟨task, htask, rfl, rfl, rfl, fun _ => rfl⟩)
        exact hended.goto rfl hcall (by rw [hstage]; rfl) True.intro
      · exact h.reaches
    · exact h.reaches
  | starting target =>
    simp only [callWrites, hstage]
    split
    · rename_i task htask
      split_ifs
      · exact hacting.goto hcall (by rw [hstage]; rfl) True.intro
      · have hstarted : Reaches config (some key) s
            (s.write (.task key { task with started := true })) :=
          hacting.task (let hok := h.tasks key task htask; ⟨hok.1, hok.2, hok.3⟩)
            (.inr ⟨task, htask, rfl, rfl, rfl, fun hended => hended⟩)
        exact hstarted.goto rfl hcall (by rw [hstage]; rfl) True.intro
    · exact h.reaches
  | notStarted target finish =>
    simp only [callWrites, hstage]
    split
    · rename_i op hop
      exact (hacting.finish finish hop).goto (State.calls_session _ _ _) hcall (by rw [hstage]; rfl)
        True.intro
    · exact hacting.goto hcall (by rw [hstage]; rfl) True.intro
  | cancelWait target invocation requestId =>
    simp only [callWrites, hstage]
    split
    · exact hacting.goto hcall (by rw [hstage]; rfl) True.intro
    · exact h.reaches
  | completedCheck target requestId =>
    simp only [callWrites, hstage]
    split
    · exact hacting.goto hcall (by rw [hstage]; rfl) True.intro
    · exact h.reaches
  | closing target ops first cancelled =>
    cases ops with
    | cons op ops => exact h.reaches_closing hcall hstage
    | nil =>
      simp only [callWrites, hstage]
      split_ifs
      · exact h.reaches_closed hcall hstage True.intro
      · exact h.reaches
  | replying target message =>
    simp only [callWrites, hstage]
    split_ifs
    · split
      · exact (hacting.send key _).goto rfl hcall (by rw [hstage]; rfl) True.intro
      · exact h.reaches
    · exact hacting.goto hcall (by rw [hstage]; rfl) True.intro
  | leaving target =>
    simp only [callWrites, hstage]
    have hfinished : Reaches config (some key) s
        (s.write (.session target (.finishRequest call.envelope.requestId))) :=
      hacting.finish .request rfl
    exact hfinished.goto (State.calls_session _ _ _) hcall (by rw [hstage]; rfl) True.intro
  | failing fault armed =>
    cases armed with
    | some target =>
      simp only [callWrites, hstage]
      have hfinished : Reaches config (some key) s
          (s.write (.session target (.finishRequest call.envelope.requestId))) :=
        hacting.finish .request rfl
      exact hfinished.goto (State.calls_session _ _ _) hcall (by rw [hstage]; rfl) True.intro
    | none =>
      simp only [callWrites, hstage]
      split_ifs
      · exact (hacting.send key _).goto rfl hcall (by rw [hstage]; rfl) True.intro
      · exact hacting.goto hcall (by rw [hstage]; rfl) True.intro
  | rolledBack | opened | done =>
    simp only [callWrites, hstage]
    exact h.reaches

theorem Wf.reaches_drop (h : Wf config none s) (hcall : s.calls.get? key = some call) :
    Reaches config none s (s.writeAll (dropWrites key call)) := by
  have hok := h.calls key call hcall (by simp)
  have hacting := h.acting hcall
  unfold dropWrites
  simp only
  split <;> rename_i hstage
  · exact hacting.goto hcall (by rw [hstage]; rfl) True.intro
  · exact hacting.goto hcall (by rw [hstage]; rfl) True.intro
  · simp only [CallOk, hstage] at hok
    obtain ⟨session, hsession⟩ := hok
    exact h.reaches_close hcall (by rw [hstage]; rfl) hsession (.inl ⟨rfl, rfl⟩)
  · exact hacting.goto hcall (by rw [hstage]; rfl) True.intro
  · exact hacting.goto hcall (by rw [hstage]; rfl) True.intro
  · exact hacting.goto hcall (by rw [hstage]; rfl) True.intro
  · exact hacting.goto hcall (by rw [hstage]; rfl) True.intro
  · exact h.reaches_closed hcall hstage True.intro
  · exact hacting.goto hcall (by rw [hstage]; rfl) True.intro
  · exact h.reaches

/-! The steps of closings, cancellations and tasks. -/

theorem Wf.reaches_closer {serial : ℕ} {session : Session S} {op : ClosingOp}
    {ops : List ClosingOp} (h : Wf config none s)
    (hops : s.closers.get? (serial, key) = some (op :: ops))
    (hsession : s.table.get? key = some session) :
    Reaches config none s (s.writeAll ((closingStep s (.closer serial key) key session op).1 ++
      [.closer serial key ((closingStep s (.closer serial key) key session op).2 ++ ops)])) := by
  obtain ⟨session', hget, hok⟩ := h.closers serial key _ hops
  rw [hsession] at hget
  cases hget
  obtain ⟨t, ht, hreach, -, hclosers, session', hsession', hok', -, hkept⟩ :=
    h.reaches_op (.closer serial key) hsession hok (.inl ⟨serial, hops⟩)
  rw [State.writeAll_append, ht]
  refine hreach.trans (hreach.wf.closer hsession' hok' ?_)
  intro old hold requestId invocation hinvocation hcancels
  rw [hclosers, hops] at hold
  cases hold
  exact hkept requestId invocation hinvocation hcancels

theorem Wf.reaches_cancel {source : Source} {invocation : Key} {canceller : Canceller}
    {task : Task} (h : Wf config none s)
    (hcanceller : s.cancellers.get? (source, invocation) = some canceller)
    (htask : s.tasks.get? invocation = some task) :
    Reaches config none s (s.writeAll (cancellerWrites source invocation task canceller)) := by
  unfold cancellerWrites
  cases canceller with
  | cancelling =>
    simp only
    split_ifs with hover hended
    · exact h.canceller htask fun _ => hended
    · exact h.reaches
    · have haborted : Reaches config none s (s.write (.task invocation
          { task with ended := true, cancellationStarted := true, finish := none })) :=
        h.task (.of_ended rfl) (.inr ⟨task, htask, rfl, rfl, rfl, fun _ => rfl⟩)
      have hsent := haborted.trans
        (haborted.wf.send invocation ⟨task.metadata, .cancelledEvent⟩)
      exact hsent.trans (hsent.wf.canceller (FiniteMap.get?_insert_self _ _ _) fun _ => rfl)
  | finishing result finish =>
    obtain ⟨task', htask', hended⟩ := h.cancellers source invocation _ hcanceller
    rw [htask] at htask'
    cases htask'
    simp only
    split
    · rename_i op hop
      have hfinished : Reaches config none s (s.write (.session task.session op)) :=
        h.finish finish hop
      refine hfinished.trans (hfinished.wf.canceller ?_ fun _ => hended (by simp))
      rw [State.tasks_session, htask]
    · exact h.canceller htask fun _ => hended (by simp)
  | done result => exact h.reaches

/-- Closings start for sessions that are there. -/
theorem Wf.reaches_closersFor {serial : ℕ} {ops : List ClosingOp} {select : Key → Bool}
    (h : Wf config none s) (hall : ∃ rest, ops = .close :: rest ∧ .cancelAll ∈ rest) :
    Reaches config none s (s.writeAll (closersFor s serial ops select)) := by
  have hrun : ∀ (entries : List (String × Key)) (t : State S Q B), Wf config none t →
      t.table = s.table →
      (∀ entry ∈ entries, (∃ session, s.table.get? entry.2 = some session) ∧
        ∀ old, t.closers.get? (serial, entry.2) = some old → old = ops) →
      Reaches config none t
        (t.writeAll (entries.map fun entry => Write.closer serial entry.2 ops)) := by
    intro entries
    induction entries with
    | nil => exact fun t ht _ _ => ht.reaches
    | cons entry entries ih =>
      intro t ht htable hentries
      obtain ⟨⟨session, hsession⟩, hold⟩ := hentries entry List.mem_cons_self
      have hstep : Reaches config none t (t.write (.closer serial entry.2 ops)) := by
        have hthere : t.table.get? entry.2 = some session := by rw [htable, hsession]
        refine ht.closer hthere (.inr (.inr hall)) ?_
        intro old hget requestId invocation _ hcancels
        rw [hold old hget] at hcancels
        exact .inl hcancels
      refine hstep.trans (ih _ hstep.wf htable fun other hmem => ?_)
      obtain ⟨hthere, hother⟩ := hentries other (List.mem_cons_of_mem _ hmem)
      refine ⟨hthere, fun old hget => ?_⟩
      change (t.closers.insert (serial, entry.2) ops).get? (serial, other.2) = some old at hget
      rw [FiniteMap.get?_insert] at hget
      split at hget
      · exact (Option.some.inj hget).symm
      · exact hother old hget
  refine hrun _ s h rfl fun entry hmem => ?_
  obtain ⟨hentry, hselect⟩ := List.mem_filter.mp hmem
  have hroute : s.sessions.get? entry.1 = some entry.2 := FiniteMap.mem_toList.mp hentry
  obtain ⟨session, hsession, -⟩ := h.routes.routed entry.1 entry.2 hroute
  refine ⟨⟨session, hsession⟩, fun old hget => ?_⟩
  rw [Bool.and_eq_true, Bool.not_eq_true', FiniteMap.contains_eq_false] at hselect
  rw [hselect.2] at hget
  cases hget

/-- Every step keeps the invariant and extends the state. -/
theorem Wf.step (h : Wf config none s) (event : Event Q B) :
    Reaches config none s (s.step host config event) := by
  unfold State.step State.writes
  cases event with
  | dispatch key envelope =>
    simp only
    split_ifs with hcontains
    · exact h.reaches
    · rw [Bool.not_eq_true, FiniteMap.contains_eq_false] at hcontains
      have hleft : Reaches config (some key) s (s.write (.call key ⟨envelope, .routing⟩)) := by
        refine h.call (.inl rfl) ?_ ?_
        · intro old hold
          rw [hcontains] at hold
          cases hold
        · intro old _ _ _ _ hold
          rw [hcontains] at hold
          cases hold
      exact ⟨hleft.wf.settle (FiniteMap.get?_insert_self _ _ _) (h.absent key hcontains), hleft.ext⟩
  | closeOwner serial owner => exact h.reaches_closersFor ⟨_, rfl, by simp⟩
  | shutdown serial =>
    have hdown : Reaches config none s (s.write .shutDown) := h.shutDown
    have hclosers : Reaches config none (s.write .shutDown) ((s.write .shutDown).writeAll
        (closersFor (s.write .shutDown) serial [.close, .cancelAll, .remove] fun _ => true)) :=
      hdown.wf.reaches_closersFor ⟨_, rfl, by simp⟩
    exact hdown.trans hclosers
  | advance key draw delivered =>
    simp only
    split
    · exact h.reaches_advance ‹_›
    · exact h.reaches
  | drop key =>
    simp only
    split
    · exact h.reaches_drop ‹_›
    · exact h.reaches
  | closer serial key =>
    simp only
    split
    · exact h.reaches_closer ‹_› ‹_›
    · exact h.reaches
  | cancel source invocation =>
    simp only
    split
    · exact h.reaches_cancel ‹_› ‹_›
    · exact h.reaches
  | emit invocation body =>
    simp only
    split
    · split_ifs
      · exact h.send _ _
      · exact h.reaches
    · exact h.reaches
  | finish invocation finished =>
    simp only
    split
    · rename_i task htask
      split_ifs
      · exact h.task (.of_ended rfl) (.inr ⟨task, htask, rfl, rfl, rfl, fun _ => rfl⟩)
      · exact h.reaches
    · exact h.reaches
  | finishTask invocation =>
    simp only
    split
    · rename_i task htask
      split
      · rename_i finish hfinish
        split
        · rename_i op hop
          have hfinished : Reaches config none s (s.write (.session task.session op)) :=
            h.finish finish hop
          have hok := h.tasks invocation task htask
          refine hfinished.trans (hfinished.wf.task ⟨hok.1, hok.2, hok.3⟩ (.inr ⟨task, ?_, rfl,
            rfl, rfl, fun hended => hended⟩))
          rw [State.tasks_session, htask]
        · exact h.reaches
      · exact h.reaches
    · exact h.reaches
  | release invocation =>
    simp only
    split
    · rename_i task htask
      split_ifs
      · exact h.reaches
      · exact h.task (.of_ended rfl) (.inr ⟨task, htask, rfl, rfl, rfl, fun _ => rfl⟩)
    · exact h.reaches

theorem Wf.run (h : Wf config none s) (events : List (Event Q B)) :
    Reaches config none s (events.foldl (State.step host config) s) := by
  induction events generalizing s with
  | nil => exact h.reaches
  | cons event events ih =>
    have hstep : Reaches config none s (s.step host config event) := h.step event
    exact hstep.trans (ih hstep.wf)

/-! What holds of whole runs. -/

/-- The sessions that are not closed. -/
def openSessions (s : State S Q B) : Finset Key :=
  s.table.keys.filter fun key => (s.table.get? key).any fun session => !session.closed

/-- Everything that was started has run to its end, and an `ActiveInvocation` that nobody holds is
dropped. -/
structure Idle (s : State S Q B) : Prop where
  calls : ∀ key call, s.calls.get? key = some call →
    call.stage = .opened ∨ call.stage = .rolledBack ∨ call.stage = .done
  closers : ∀ serial key ops, s.closers.get? (serial, key) = some ops → ops = []
  cancellers : ∀ source invocation canceller,
    s.cancellers.get? (source, invocation) = some canceller → canceller.result.isSome = true
  released : ∀ invocation task, s.tasks.get? invocation = some task →
    s.held invocation task = false → task.permit = false

theorem Wf.card_openSessions (h : Wf config none s) :
    (openSessions s).card ≤ config.maxSessions := by
  have hopen : ∀ key ∈ openSessions s, ∃ session, s.table.get? key = some session ∧
      s.sessions.get? session.id = some key := by
    intro key hmem
    rw [openSessions, Finset.mem_filter, Option.any_eq_true_iff_get] at hmem
    obtain ⟨-, hsome, hopen⟩ := hmem
    obtain ⟨session, hsession⟩ := Option.isSome_iff_exists.mp hsome
    simp only [hsession, Option.get_some, Bool.not_eq_true'] at hopen
    exact ⟨session, hsession, h.routes.openRouted key session hsession hopen⟩
  -- an open session is found in the session map under its id
  have hmaps : ∀ key ∈ openSessions s,
      ((s.table.get? key).map Session.id).getD "" ∈ s.sessions.keys := by
    intro key hmem
    obtain ⟨session, hsession, hroute⟩ := hopen key hmem
    rw [hsession]
    exact FiniteMap.mem_keys_iff.mpr ⟨key, hroute⟩
  refine (Finset.card_le_card_of_injOn _ hmaps ?_).trans h.routes.size
  intro key hmem key' hmem' heq
  obtain ⟨session, hsession, -⟩ := hopen key hmem
  obtain ⟨session', hsession', -⟩ := hopen key' hmem'
  simp only [hsession, hsession', Option.map_some, Option.getD_some] at heq
  exact h.routes.unique key key' session session' hsession hsession' heq

/-- No id leads to a session whose own id does not. -/
theorem Wf.unroutable {session : Session S} (h : Wf config none s)
    (hsession : s.table.get? key = some session) (hroute : s.sessions.get? session.id ≠ some key)
    (id : String) : s.sessions.get? id ≠ some key := by
  intro hid
  obtain ⟨session', hsession', rfl⟩ := h.routes.routed id key hid
  rw [hsession] at hsession'
  cases hsession'
  exact hroute hid

theorem Idle.refersTo {session : Session S} (h : Idle s) (hsession : s.table.get? key = some session)
    (hroute : s.sessions.get? session.id ≠ some key) : s.refersTo key = false := by
  simp only [State.refersTo, Bool.or_eq_false_iff, List.any_eq_false, Bool.and_eq_true,
    decide_eq_true_eq]
  refine ⟨⟨⟨?_, ?_⟩, ?_⟩, ?_⟩
  · simpa [hsession] using hroute
  · rintro ⟨other, call⟩ hmem
    rcases h.calls other call (FiniteMap.mem_toList.mp hmem) with hstage | hstage | hstage <;>
      simp [hstage, Stage.session?]
  · rintro ⟨⟨serial, other⟩, ops⟩ hmem ⟨-, hne⟩
    exact hne (h.closers serial other ops (FiniteMap.mem_toList.mp hmem))
  · rintro ⟨⟨source, invocation⟩, canceller⟩ hmem ⟨hnone, -⟩
    have hsome := h.cancellers source invocation canceller (FiniteMap.mem_toList.mp hmem)
    rw [Option.isNone_iff_eq_none] at hnone
    rw [hnone] at hsome
    cases hsome

/-- When everything has run to its end, so have the invocations of closed sessions. -/
theorem Wf.ended_of_idle {invocation : Key} {task : Task} (h : Wf config none s) (hidle : Idle s)
    (htask : s.tasks.get? invocation = some task)
    (hclosed : ∀ session, s.table.get? task.session = some session → session.closed = true) :
    Ended s invocation := by
  have hnotCancelling : ∀ source canceller,
      s.cancellers.get? (source, invocation) = some canceller → canceller.result ≠ none := by
    intro source canceller hget hnone
    have hsome := hidle.cancellers source invocation canceller hget
    rw [hnone] at hsome
    cases hsome
  cases hheld : s.held invocation task with
  | false =>
    exact ⟨task, htask, (h.tasks invocation task htask).released
      (hidle.released invocation task htask hheld)⟩
  | true =>
    simp only [State.held, Bool.or_eq_true, Bool.and_eq_true, List.any_eq_true,
      decide_eq_true_eq] at hheld
    rcases hheld with (⟨hrefers, hregistered⟩ | hstarting) | ⟨⟨⟨source, other⟩, canceller⟩, hmem, heq,
      hnone⟩
    · cases hsession : s.table.get? task.session with
      | none => simp [hsession] at hregistered
      | some session =>
        simp only [hsession, Option.any_some, decide_eq_true_eq] at hregistered
        rcases h.doomed task.session session task.requestId invocation hsession
          (hclosed session hsession) hregistered with
          hended | ⟨source, hcancelling⟩ | ⟨ops, hclosing, hcancels⟩ | ⟨call, hcall, hback⟩
        · exact hended
        · exact absurd rfl (hnotCancelling source _ hcancelling)
        · rcases hclosing with ⟨serial, hcloser⟩ | ⟨other, call, first, cancelled, hcall, hstage⟩
          · rw [hidle.closers serial task.session ops hcloser] at hcancels
            rcases hcancels with hmem | hmem <;> cases hmem
          · rcases hidle.calls other call hcall with hidle' | hidle' | hidle' <;>
              rw [hstage] at hidle' <;> cases hidle'
        · have hok := h.calls task.session call hcall (by simp)
          rcases hidle.calls task.session call hcall with hstage | hstage | hstage
          · rw [hstage] at hback
            cases hback
          · simp only [CallOk, hstage] at hok
            obtain ⟨session', hsession', -, hroute⟩ := hok
            rw [hidle.refersTo hsession' hroute] at hrefers
            cases hrefers
          · rw [hstage] at hback
            cases hback
    · cases hcall : s.calls.get? invocation with
      | none => simp [hcall] at hstarting
      | some call =>
        rcases hidle.calls invocation call hcall with hstage | hstage | hstage <;>
          simp [hcall, hstage, Stage.isStarting] at hstarting
    · cases heq
      rw [Option.isNone_iff_eq_none] at hnone
      exact absurd hnone (hnotCancelling source canceller (FiniteMap.mem_toList.mp hmem))

/-- A cancellation that has begun ends its task with its next step. -/
theorem Wf.cancel_ends {source : Source} {invocation : Key} (h : Wf config none s)
    (hcanceller : s.cancellers.get? (source, invocation) = some .cancelling) :
    Ended (s.step host config (.cancel source invocation)) invocation := by
  obtain ⟨task, htask, -⟩ := h.cancellers source invocation _ hcanceller
  have hok := h.tasks invocation task htask
  simp only [State.step, State.writes, hcanceller, htask, cancellerWrites]
  split_ifs with hover hended
  · exact ⟨task, htask, hended⟩
  · rcases Bool.or_eq_true_iff.mp hover with hover | hover
    · exact absurd (hok.finished hover) hended
    · exact absurd (hok.cancelled hover) hended
  · exact ⟨_, FiniteMap.get?_insert_self _ _ _, rfl⟩

/-- An opening whose response is not delivered is undone. -/
theorem Wf.rolledBack_of_undelivered {event : Event Q B} {storeId : String}
    {negotiated : ProtocolVersion} {store : S} (hcall : s.calls.get? key = some call)
    (hstage : call.stage = .sendOpen storeId negotiated store)
    (hevent : event = .drop key ∨ ∃ draw, event = .advance key draw false) :
    RolledBack (s.step host config event) key := by
  have hwrites : s.writes host config event =
      [.call key { call with stage := .rollingBack }, .session key .close] := by
    rcases hevent with rfl | ⟨draw, rfl⟩
    · simp only [State.writes, hcall, dropWrites, hstage]
    · simp [State.writes, hcall, callWrites, hstage]
  refine ⟨{ call with stage := .rollingBack }, ?_, rfl⟩
  rw [State.step, hwrites]
  change (State.write _ (.session key .close)).calls.get? key = _
  rw [State.calls_session]
  exact FiniteMap.get?_insert_self _ _ _

theorem Wf.undone (h : Wf config none s) (hback : RolledBack s key) :
    ∃ session call, s.table.get? key = some session ∧ session.closed = true ∧
      s.calls.get? key = some call ∧
      (call.stage = .rollingBack ∧ (∀ draw delivered id,
          (s.step host config (.advance key draw delivered)).sessions.get? id ≠ some key) ∨
        call.stage = .rolledBack ∧ ∀ id, s.sessions.get? id ≠ some key) := by
  obtain ⟨call, hcall, hstage⟩ := hback
  have hok := h.calls key call hcall (by simp)
  cases hstage' : call.stage <;> rw [hstage'] at hstage <;> try contradiction
  case rollingBack =>
    simp only [CallOk, hstage'] at hok
    obtain ⟨session, hsession, hclosed⟩ := hok
    refine ⟨session, call, hsession, hclosed, hcall, .inl ⟨hstage', fun draw delivered => ?_⟩⟩
    have hstep : Reaches config none s (s.step host config (.advance key draw delivered)) :=
      h.step _
    have harrived : (s.step host config (.advance key draw delivered)).calls.get? key =
        some { call with stage := .rolledBack } := by
      simp only [State.step, State.writes, hcall, callWrites, hstage', hsession]
      split_ifs
      · exact FiniteMap.get?_insert_self _ _ _
      · exact FiniteMap.get?_insert_self _ _ _
    obtain ⟨session', hsession', -, hroute⟩ := hstep.wf.calls key _ harrived (by simp)
    exact hstep.wf.unroutable hsession' hroute
  case rolledBack =>
    simp only [CallOk, hstage'] at hok
    obtain ⟨session, hsession, hclosed, hroute⟩ := hok
    exact ⟨session, call, hsession, hclosed, hcall, .inr ⟨hstage', h.unroutable hsession hroute⟩⟩

end

/-- Over every run: a closed session gains neither requests nor invocations, and the invocations it
has are over, or about to be ended, and over once everything has run to its end; no more sessions
are open than the limit; a runtime that shuts down opens none; and a session whose opening could
not be answered is closed and leaves the session map with the next step of its call. -/
theorem session_lifecycle (host : Host S Q B) (config : RuntimeConfig)
    (before after : List (Event Q B)) :
    let s := before.foldl (State.step host config) State.new
    let t := after.foldl (State.step host config) s
    (∀ key session, s.table.get? key = some session → session.closed = true →
      ∃ session', t.table.get? key = some session' ∧ session'.closed = true ∧
        session'.requests ⊆ session.requests ∧
        (∀ requestId invocation, session'.invocations.get? requestId = some invocation →
          session.invocations.get? requestId = some invocation) ∧
        ∀ requestId invocation, session.invocations.get? requestId = some invocation →
          (session'.invocations.get? requestId = some invocation →
            Doomed t key requestId invocation) ∧
          (∀ source, t.cancellers.get? (source, invocation) = some .cancelling →
            Ended (t.step host config (.cancel source invocation)) invocation) ∧
          (Idle t → Ended t invocation)) ∧
    t.sessions.size ≤ config.maxSessions ∧ (openSessions t).card ≤ config.maxSessions ∧
    (s.shuttingDown = true → ∀ key, s.table.get? key = none → t.table.get? key = none) ∧
    ∀ key call storeId negotiated store event, s.calls.get? key = some call →
      call.stage = .sendOpen storeId negotiated store →
      (event = .drop key ∨ ∃ draw, event = .advance key draw false) →
      let u := after.foldl (State.step host config) (s.step host config event)
      ∃ session call', u.table.get? key = some session ∧ session.closed = true ∧
        u.calls.get? key = some call' ∧
        (call'.stage = .rollingBack ∧ (∀ draw delivered id,
            (u.step host config (.advance key draw delivered)).sessions.get? id ≠ some key) ∨
          call'.stage = .rolledBack ∧ ∀ id, u.sessions.get? id ≠ some key) := by
  intro s t
  have hrun : Reaches config none State.new s := (wf_new config).run before
  have hs : Wf config none s := hrun.wf
  have ht : Reaches config none s t := hs.run after
  refine ⟨?_, ?_, ht.wf.card_openSessions, ?_, ?_⟩
  · intro key session hsession hclosed
    obtain ⟨session', hsession', hlater⟩ := ht.ext.table key session hsession
    refine ⟨session', hsession', hlater.closed hclosed, hlater.requests hclosed,
      hlater.invocations hclosed, fun requestId invocation hinvocation => ?_⟩
    refine ⟨ht.wf.doomed key session' requestId invocation hsession' (hlater.closed hclosed),
      fun source => ht.wf.cancel_ends, fun hidle => ?_⟩
    obtain ⟨task, htask, htarget, -⟩ :=
      hs.registered key session requestId invocation hsession hinvocation
    obtain ⟨task', htask', htask_later⟩ := ht.ext.tasks invocation task htask
    refine ht.wf.ended_of_idle hidle htask' fun other hother => ?_
    rw [htask_later.session_eq, htarget, hsession'] at hother
    cases hother
    exact hlater.closed hclosed
  · rw [← FiniteMap.card_keys]
    exact ht.wf.routes.size
  · exact fun hdown => (ht.ext.shutdown hdown).2
  · intro key call storeId negotiated store event hcall hstage hevent u
    have hstep : Reaches config none s (s.step host config event) := hs.step event
    have hu : Reaches config none (s.step host config event) u := hstep.wf.run after
    have hback : RolledBack (s.step host config event) key :=
      Wf.rolledBack_of_undelivered hcall hstage hevent
    exact hu.wf.undone (hback.mono hu.ext)

end Router
