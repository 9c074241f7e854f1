import Reframe.Lib.Run
import Reframe.Runtime.SessionLifecycle

/-! Owners of sessions do not meet: what a request of one owner can touch, what it learns of the
sessions of another, and what changes for it when the other makes no requests. -/
namespace Router
open Runtime

variable {S Q B : Type}

/-! Everything belongs to an owner. -/

/-- On whose behalf the step is taken; the shutdown is everybody's. -/
def Event.owner : Event Q B → Option (Option ℕ)
  | .dispatch key _ | .advance key _ _ | .drop key => some key.owner
  | .closeOwner _ owner => some (some owner)
  | .shutdown _ => none
  | .closer _ session => some session.owner
  | .cancel _ invocation | .emit invocation _ | .finish invocation _ | .finishTask invocation
  | .release invocation => some invocation.owner

/-- The invocations that the call waits for. -/
def Stage.invocations : Stage S B → List Key
  | .cancelWait _ invocation _ => [invocation]
  | .closing _ _ _ cancelled => cancelled
  | _ => []

/-- A call has only a session and invocations of its owner in its hands. -/
structure Stage.Mine (key : Key) (stage : Stage S B) : Prop where
  session : ∀ target, stage.session? key = some target → target.owner = key.owner
  invocations : ∀ invocation ∈ stage.invocations, invocation.owner = key.owner

/-- The write is to something of the owner's, and leaves only things of the owner's in it. -/
def Write.Mine (owner : Option ℕ) : Write S Q B → Prop
  | .open key opened => key.owner = owner ∧ opened.invocations = ∅
  | .unroute key => key.owner = owner
  | .session key op => key.owner = owner ∧
      ∀ requestId invocation maximum, op = .addInvocation requestId invocation maximum →
        invocation.owner = owner
  | .task key started => key.owner = owner ∧ started.session.owner = owner
  | .closer _ key _ => key.owner = owner
  | .canceller _ invocation _ => invocation.owner = owner
  | .call key next => key.owner = owner ∧ next.stage.Mine key
  | .send key _ => key.owner = owner
  | .shutDown => False

structure Owned (s : State S Q B) : Prop where
  calls : ∀ key call, s.calls.get? key = some call → call.stage.Mine key
  invocations : ∀ key session requestId invocation, s.table.get? key = some session →
    session.invocations.get? requestId = some invocation → invocation.owner = key.owner
  tasks : ∀ key task, s.tasks.get? key = some task → task.session.owner = key.owner

theorem owned_new : Owned (State.new : State S Q B) :=
  ⟨fun _ _ h => (by cases h), fun _ _ _ _ h => (by cases h), fun _ _ h => (by cases h)⟩

theorem Owned.write {s : State S Q B} {owner : Option ℕ} {write : Write S Q B} (h : Owned s)
    (hmine : write.Mine owner) : Owned (s.write write) := by
  cases write with
  | «open» key session =>
    refine ⟨h.calls, fun other session' requestId invocation hget hinvocation => ?_, h.tasks⟩
    change (s.table.insert key session).get? other = some session' at hget
    rw [FiniteMap.get?_insert] at hget
    split at hget
    · cases hget
      rw [hmine.2] at hinvocation
      cases hinvocation
    · exact h.invocations other session' requestId invocation hget hinvocation
  | unroute key =>
    simp only [State.write]
    split
    · exact ⟨h.calls, h.invocations, h.tasks⟩
    · exact h
  | session key op =>
    simp only [State.write]
    split
    · rename_i session hsession
      refine ⟨h.calls, fun other session' requestId invocation hget hinvocation => ?_, h.tasks⟩
      change (s.table.insert key (session.apply op)).get? other = some session' at hget
      rw [FiniteMap.get?_insert] at hget
      split at hget
      · rename_i heq
        cases hget
        rw [heq]
        rcases Session.invocations_apply hinvocation with hold | ⟨maximum, hop⟩
        · exact h.invocations key session requestId invocation hsession hold
        · exact (hmine.2 requestId invocation maximum hop).trans hmine.1.symm
      · exact h.invocations other session' requestId invocation hget hinvocation
    · exact h
  | task key task =>
    refine ⟨h.calls, h.invocations, fun other task' hget => ?_⟩
    change (s.tasks.insert key task).get? other = some task' at hget
    rw [FiniteMap.get?_insert] at hget
    split at hget
    · rename_i heq
      cases hget
      rw [heq]
      exact hmine.2.trans hmine.1.symm
    · exact h.tasks other task' hget
  | call key call =>
    refine ⟨fun other call' hget => ?_, h.invocations, h.tasks⟩
    change (s.calls.insert key call).get? other = some call' at hget
    rw [FiniteMap.get?_insert] at hget
    split at hget
    · rename_i heq
      cases hget
      rw [heq]
      exact hmine.2
    · exact h.calls other call' hget
  | closer _ _ _ => exact ⟨h.calls, h.invocations, h.tasks⟩
  | canceller _ _ _ => exact ⟨h.calls, h.invocations, h.tasks⟩
  | send _ _ => exact ⟨h.calls, h.invocations, h.tasks⟩
  | shutDown => exact hmine.elim

theorem Owned.writeAll {s : State S Q B} {owner : Option ℕ} {writes : List (Write S Q B)}
    (h : Owned s) (hmine : ∀ write ∈ writes, write.Mine owner) : Owned (s.writeAll writes) := by
  induction writes generalizing s with
  | nil => exact h
  | cons write writes ih =>
    rw [List.forall_mem_cons] at hmine
    exact ih (h.write hmine.1) hmine.2

section

variable {host : Host S Q B} {config : RuntimeConfig} {s : State S Q B} {key : Key}
  {call : Call S Q B} {draw : String} {delivered : Bool}

theorem mine_one {owner : Option ℕ} {write : Write S Q B} (h : write.Mine owner) :
    ∀ other ∈ [write], other.Mine owner := by
  simpa using h

theorem mine_pair {owner : Option ℕ} {write write' : Write S Q B} (h : write.Mine owner)
    (h' : write'.Mine owner) : ∀ other ∈ [write, write'], other.Mine owner := by
  simpa using ⟨h, h'⟩

theorem mine_goto {stage : Stage S B}
    (hsession : ∀ target, stage.session? key = some target → target.owner = key.owner)
    (hinvocations : stage.invocations = []) :
    (Write.call key { call with stage := stage } : Write S Q B).Mine key.owner :=
  ⟨rfl, hsession, by simp [hinvocations]⟩

theorem Finish.mine {target : Key} {op : SessionOp} {requestId : String} {finish : Finish}
    (hop : finish.op requestId = some op) :
    (Write.session target op : Write S Q B).Mine target.owner := by
  refine ⟨rfl, ?_⟩
  rintro _ _ _ rfl
  cases finish <;> cases hop

theorem Owned.mine_closingStep {source : Source} {target : Key} {session : Session S}
    {op : ClosingOp} (h : Owned s) (hsession : s.table.get? target = some session) :
    ∀ write ∈ (closingStep s source target session op).1, write.Mine target.owner := by
  cases op with
  | close =>
    exact mine_one ⟨rfl, by rintro _ _ _ ⟨⟩⟩
  | remove =>
    exact mine_one rfl
  | cancelAll => simp [closingStep]
  | cancel requestId =>
    simp only [closingStep]
    split
    · rename_i invocation hinvocation
      split
      · simp
      · exact mine_one (h.invocations target session requestId invocation hsession hinvocation)
    · simp

theorem Owned.mine_routed {target : Key} {session : Session S} (h : Owned s)
    (htarget : target.owner = key.owner) (hsession : s.table.get? target = some session) :
    ∀ write ∈ routedWrites host config s key call target session, write.Mine key.owner := by
  have hgoto : ∀ stage : Stage S B, (∀ other, stage.session? key = some other → other = target) →
      stage.invocations = [] →
      (Write.call key { call with stage := stage } : Write S Q B).Mine key.owner := by
    intro stage hstage hnone
    exact mine_goto (fun other hother => by rw [hstage other hother, htarget]) hnone
  unfold routedWrites
  simp only
  split
  · split
    · exact mine_one (hgoto _ (by rintro _ ⟨⟩; rfl) rfl)
    · exact mine_one (hgoto _ (by rintro _ ⟨⟩; rfl) rfl)
  · split
    · exact mine_one (hgoto _ (by rintro _ ⟨⟩; rfl) rfl)
    · split_ifs
      · exact mine_one (hgoto _ (by rintro _ ⟨⟩; rfl) rfl)
      · exact mine_pair ⟨rfl, htarget⟩ (hgoto _ (by rintro _ ⟨⟩; rfl) rfl)
  · split
    · rename_i invocation hinvocation
      have howner : invocation.owner = key.owner :=
        (h.invocations target session _ invocation hsession hinvocation).trans htarget
      refine mine_pair howner ⟨rfl, ?_, ?_⟩
      · rintro _ ⟨⟩
        exact htarget
      · simpa [Stage.invocations] using howner
    · exact mine_one (hgoto _ (by rintro _ ⟨⟩; rfl) rfl)
  · exact mine_pair (hgoto _ (by rintro _ ⟨⟩; rfl) rfl) ⟨htarget, by rintro _ _ _ ⟨⟩⟩
  · exact mine_one (hgoto _ (by rintro _ ⟨⟩; rfl) rfl)

theorem mine_route (host : Host S Q B) (s : State S Q B) (call : Call S Q B) :
    (Write.call key { call with stage := route host s key call.envelope } :
      Write S Q B).Mine key.owner := by
  rcases route_cases host s key call.envelope with
    ⟨fault, heq⟩ | ⟨store, storeId, negotiated, heq⟩ | ⟨target, heq, howner⟩
  · rw [heq]
    exact mine_goto (by rintro _ ⟨⟩) rfl
  · rw [heq]
    exact mine_goto (by rintro _ ⟨⟩) rfl
  · rw [heq]
    exact mine_goto (by rintro _ ⟨⟩; exact howner) rfl

/-- The closing goes on with invocations of the session. -/
theorem Owned.mine_startedBy {target : Key} {session : Session S} {cancelled : List Key}
    {op : ClosingOp} (h : Owned s) (hsession : s.table.get? target = some session)
    (hcancelled : ∀ invocation ∈ cancelled, invocation.owner = target.owner) :
    ∀ invocation ∈ startedBy session cancelled op, invocation.owner = target.owner := by
  unfold startedBy
  split
  · rename_i requestId
    cases hinvocation : session.invocations.get? requestId with
    | none => exact hcancelled
    | some started =>
      intro invocation hmem
      rcases List.mem_cons.mp hmem with rfl | hmem
      · exact h.invocations target session requestId invocation hsession hinvocation
      · exact hcancelled invocation hmem
  · exact hcancelled

/-- All that a call writes is its owner's. -/
theorem Owned.mine_call (h : Owned s) (hcall : s.calls.get? key = some call) :
    ∀ write ∈ callWrites host config s key call draw delivered, write.Mine key.owner := by
  have hmine := h.calls key call hcall
  cases hstage : call.stage with
  | routing =>
    simp only [callWrites, hstage]
    exact mine_one (mine_route host s call)
  | openGate store storeId negotiated =>
    simp only [callWrites, hstage]
    split_ifs
    · exact mine_one (mine_goto (by rintro _ ⟨⟩) rfl)
    · exact mine_one (mine_goto (by rintro _ ⟨⟩) rfl)
    · simp
    · exact mine_pair ⟨rfl, rfl⟩ (mine_goto (by rintro _ ⟨⟩; rfl) rfl)
  | sendOpen storeId negotiated store =>
    simp only [callWrites, hstage]
    split_ifs
    · split
      · exact mine_pair rfl (mine_goto (by rintro _ ⟨⟩) rfl)
      · simp
    · exact mine_pair (mine_goto (by rintro _ ⟨⟩; rfl) rfl) ⟨rfl, by rintro _ _ _ ⟨⟩⟩
  | rollingBack =>
    simp only [callWrites, hstage]
    split
    · split_ifs
      · exact mine_pair rfl (mine_goto (by rintro _ ⟨⟩) rfl)
      · exact mine_one (mine_goto (by rintro _ ⟨⟩) rfl)
    · simp
  | «begin» target =>
    have htarget := hmine.session target (by rw [hstage]; rfl)
    simp only [callWrites, hstage]
    split
    · split_ifs
      · exact mine_pair ⟨htarget, by rintro _ _ _ ⟨⟩⟩ (mine_goto (by rintro _ ⟨⟩; exact htarget) rfl)
      · exact mine_one (mine_goto (by rintro _ ⟨⟩; exact htarget) rfl)
    · simp
  | beginRefused target =>
    simp only [callWrites, hstage]
    split
    · split_ifs
      · exact mine_one (mine_goto (by rintro _ ⟨⟩) rfl)
      · exact mine_one (mine_goto (by rintro _ ⟨⟩) rfl)
    · simp
  | routed target =>
    have htarget := hmine.session target (by rw [hstage]; rfl)
    simp only [callWrites, hstage]
    split
    · exact h.mine_routed htarget ‹_›
    · simp
  | adding target =>
    have htarget := hmine.session target (by rw [hstage]; rfl)
    simp only [callWrites, hstage]
    split
    · split_ifs
      · exact mine_pair ⟨htarget, by rintro _ _ _ ⟨⟩; rfl⟩
          (mine_goto (by rintro _ ⟨⟩; exact htarget) rfl)
      · exact mine_one (mine_goto (by rintro _ ⟨⟩; exact htarget) rfl)
    · simp
  | addRefused target =>
    have htarget := hmine.session target (by rw [hstage]; rfl)
    simp only [callWrites, hstage]
    split
    · rename_i task htask
      split
      · exact mine_pair ⟨rfl, h.tasks key task htask⟩
          (mine_goto (by rintro _ ⟨⟩; exact htarget) rfl)
      · simp
    · simp
  | starting target =>
    have htarget := hmine.session target (by rw [hstage]; rfl)
    simp only [callWrites, hstage]
    split
    · rename_i task htask
      split_ifs
      · exact mine_one (mine_goto (by rintro _ ⟨⟩; exact htarget) rfl)
      · exact mine_pair ⟨rfl, h.tasks key task htask⟩ (mine_goto (by rintro _ ⟨⟩) rfl)
    · simp
  | notStarted target finish =>
    have htarget := hmine.session target (by rw [hstage]; rfl)
    simp only [callWrites, hstage]
    split
    · rename_i op hop
      exact mine_pair (htarget ▸ Finish.mine hop) (mine_goto (by rintro _ ⟨⟩; exact htarget) rfl)
    · exact mine_one (mine_goto (by rintro _ ⟨⟩; exact htarget) rfl)
  | cancelWait target invocation requestId =>
    have htarget := hmine.session target (by rw [hstage]; rfl)
    simp only [callWrites, hstage]
    split
    · exact mine_one (mine_goto (by rintro _ ⟨⟩; exact htarget) rfl)
    · simp
  | completedCheck target requestId =>
    have htarget := hmine.session target (by rw [hstage]; rfl)
    simp only [callWrites, hstage]
    split
    · exact mine_one (mine_goto (by rintro _ ⟨⟩; exact htarget) rfl)
    · simp
  | closing target ops first cancelled =>
    have htarget := hmine.session target (by rw [hstage]; rfl)
    cases ops with
    | cons op ops =>
      simp only [callWrites, hstage]
      split
      · rename_i session hsession
        rw [List.forall_mem_append]
        refine ⟨htarget ▸ h.mine_closingStep hsession, mine_one ⟨rfl, ?_, ?_⟩⟩
        · rintro _ ⟨⟩
          exact htarget
        · rw [← htarget]
          refine h.mine_startedBy hsession fun invocation hmem => ?_
          rw [htarget]
          exact hmine.invocations invocation (by rw [hstage]; exact hmem)
      · simp
    | nil =>
      simp only [callWrites, hstage]
      split_ifs
      · exact mine_one (mine_goto (by rintro _ ⟨⟩; exact htarget) rfl)
      · simp
  | replying target message =>
    have htarget := hmine.session target (by rw [hstage]; rfl)
    simp only [callWrites, hstage]
    split_ifs
    · split
      · exact mine_pair rfl (mine_goto (by rintro _ ⟨⟩; exact htarget) rfl)
      · simp
    · exact mine_one (mine_goto (by rintro _ ⟨⟩; exact htarget) rfl)
  | leaving target =>
    have htarget := hmine.session target (by rw [hstage]; rfl)
    simp only [callWrites, hstage]
    exact mine_pair ⟨htarget, by rintro _ _ _ ⟨⟩⟩ (mine_goto (by rintro _ ⟨⟩) rfl)
  | failing fault armed =>
    cases armed with
    | some target =>
      have htarget := hmine.session target (by rw [hstage]; rfl)
      simp only [callWrites, hstage]
      exact mine_pair ⟨htarget, by rintro _ _ _ ⟨⟩⟩ (mine_goto (by rintro _ ⟨⟩) rfl)
    | none =>
      simp only [callWrites, hstage]
      split_ifs
      · exact mine_pair rfl (mine_goto (by rintro _ ⟨⟩) rfl)
      · exact mine_one (mine_goto (by rintro _ ⟨⟩) rfl)
  | rolledBack | opened | done => simp [callWrites, hstage]

theorem Owned.mine_drop (h : Owned s) (hcall : s.calls.get? key = some call) :
    ∀ write ∈ dropWrites key call, write.Mine key.owner := by
  have hmine := h.calls key call hcall
  unfold dropWrites
  simp only
  split <;> rename_i hstage
  · exact mine_one (mine_goto (by rintro _ ⟨⟩) rfl)
  · exact mine_one (mine_goto (by rintro _ ⟨⟩) rfl)
  · exact mine_pair (mine_goto (by rintro _ ⟨⟩; rfl) rfl) ⟨rfl, by rintro _ _ _ ⟨⟩⟩
  all_goals first
    | exact mine_one (mine_goto
        (by rintro _ ⟨⟩; exact hmine.session _ (by rw [hstage]; rfl)) rfl)
    | simp

theorem mine_closersFor {serial : ℕ} {ops : List ClosingOp} {select : Key → Bool}
    {owner : Option ℕ} (hselect : ∀ key, select key = true → key.owner = owner) :
    ∀ write ∈ closersFor s serial ops select, write.Mine owner := by
  intro write hmem
  obtain ⟨entry, hentry, rfl⟩ := List.mem_map.mp hmem
  have hkept := (List.mem_filter.mp hentry).2
  exact hselect entry.2 (Bool.and_eq_true_iff.mp hkept).1

/-- All that a step writes belongs to the owner on whose behalf it is taken. -/
theorem Owned.mine_writes {owner : Option ℕ} {event : Event Q B} (h : Owned s)
    (howner : event.owner = some owner) :
    ∀ write ∈ s.writes host config event, write.Mine owner := by
  unfold State.writes
  cases event with
  | dispatch key envelope =>
    cases howner
    simp only
    split_ifs
    · simp
    · exact mine_one ⟨rfl, by rintro _ ⟨⟩, by simp [Stage.invocations]⟩
  | closeOwner serial owner' =>
    cases howner
    exact mine_closersFor fun key hkey => by simpa using hkey
  | shutdown serial => cases howner
  | advance key draw delivered =>
    cases howner
    simp only
    split
    · exact h.mine_call ‹_›
    · simp
  | drop key =>
    cases howner
    simp only
    split
    · exact h.mine_drop ‹_›
    · simp
  | closer serial key =>
    cases howner
    simp only
    split
    · rw [List.forall_mem_append]
      exact ⟨h.mine_closingStep ‹_›, mine_one rfl⟩
    · simp
  | cancel source invocation =>
    cases howner
    simp only
    split
    · rename_i canceller task _ htask
      have hsession := h.tasks invocation task htask
      unfold cancellerWrites
      cases canceller with
      | cancelling =>
        simp only
        split_ifs
        · exact mine_one rfl
        · simp
        · rw [List.forall_mem_cons]
          exact ⟨⟨rfl, hsession⟩, mine_pair rfl rfl⟩
      | finishing result finish =>
        simp only
        split
        · exact mine_pair (hsession ▸ Finish.mine ‹_›) rfl
        · exact mine_one rfl
      | done result => simp
    · simp
  | emit invocation body =>
    cases howner
    simp only
    split
    · split_ifs
      · exact mine_one rfl
      · simp
    · simp
  | finish invocation finished =>
    cases howner
    simp only
    split
    · rename_i task htask
      split_ifs
      · exact mine_one ⟨rfl, h.tasks invocation task htask⟩
      · simp
    · simp
  | finishTask invocation =>
    cases howner
    simp only
    split
    · rename_i task htask
      have hsession := h.tasks invocation task htask
      split
      · split
        · exact mine_pair (hsession ▸ Finish.mine ‹_›) ⟨rfl, hsession⟩
        · simp
      · simp
    · simp
  | release invocation =>
    cases howner
    simp only
    split
    · rename_i task htask
      split_ifs
      · simp
      · exact mine_one ⟨rfl, h.tasks invocation task htask⟩
    · simp

theorem Owned.step (h : Owned s) (event : Event Q B) : Owned (s.step host config event) := by
  cases howner : event.owner with
  | some owner => exact h.writeAll (h.mine_writes howner)
  | none =>
    cases event with
    | shutdown serial =>
      -- the closings belong to several owners, but change nothing that is owned
      have hclosers : ∀ (entries : List (String × Key)) (t : State S Q B), Owned t →
          Owned (t.writeAll (entries.map fun entry =>
            .closer serial entry.2 [.close, .cancelAll, .remove])) := by
        intro entries
        induction entries with
        | nil => exact fun t ht => ht
        | cons entry entries ih => exact fun t ht => ih _ ⟨ht.calls, ht.invocations, ht.tasks⟩
      exact hclosers _ _ ⟨h.calls, h.invocations, h.tasks⟩
    | _ => cases howner

end

/-! What an owner can see. -/

def repliesTo (owner : Option ℕ) (s : State S Q B) : List (Key × Reply B) :=
  s.sent.filter fun entry => entry.1.owner = owner

/-- The two states are the same in all that belongs to the owner. -/
structure SameFor (owner : Option ℕ) (s t : State S Q B) : Prop where
  shuttingDown : s.shuttingDown = t.shuttingDown
  routes : ∀ id key, key.owner = owner →
    (s.sessions.get? id = some key ↔ t.sessions.get? id = some key)
  table : ∀ key, key.owner = owner → s.table.get? key = t.table.get? key
  calls : ∀ key, key.owner = owner → s.calls.get? key = t.calls.get? key
  tasks : ∀ key, key.owner = owner → s.tasks.get? key = t.tasks.get? key
  closers : ∀ serial key, key.owner = owner →
    s.closers.get? (serial, key) = t.closers.get? (serial, key)
  cancellers : ∀ source invocation, invocation.owner = owner →
    s.cancellers.get? (source, invocation) = t.cancellers.get? (source, invocation)
  replies : repliesTo owner s = repliesTo owner t

theorem SameFor.refl (owner : Option ℕ) (s : State S Q B) : SameFor owner s s :=
  ⟨rfl, fun _ _ _ => Iff.rfl, fun _ _ => rfl, fun _ _ => rfl, fun _ _ => rfl, fun _ _ _ => rfl,
    fun _ _ _ => rfl, rfl⟩

theorem SameFor.symm {owner : Option ℕ} {s t : State S Q B} (h : SameFor owner s t) :
    SameFor owner t s :=
  ⟨h.shuttingDown.symm, fun id key hkey => (h.routes id key hkey).symm,
    fun key hkey => (h.table key hkey).symm, fun key hkey => (h.calls key hkey).symm,
    fun key hkey => (h.tasks key hkey).symm,
    fun serial key hkey => (h.closers serial key hkey).symm,
    fun source invocation hkey => (h.cancellers source invocation hkey).symm, h.replies.symm⟩

theorem SameFor.trans {owner : Option ℕ} {s t u : State S Q B} (h : SameFor owner s t)
    (h' : SameFor owner t u) : SameFor owner s u :=
  ⟨h.shuttingDown.trans h'.shuttingDown,
    fun id key hkey => (h.routes id key hkey).trans (h'.routes id key hkey),
    fun key hkey => (h.table key hkey).trans (h'.table key hkey),
    fun key hkey => (h.calls key hkey).trans (h'.calls key hkey),
    fun key hkey => (h.tasks key hkey).trans (h'.tasks key hkey),
    fun serial key hkey => (h.closers serial key hkey).trans (h'.closers serial key hkey),
    fun source invocation hkey =>
      (h.cancellers source invocation hkey).trans (h'.cancellers source invocation hkey),
    h.replies.trans h'.replies⟩

/-- The write opens no session and takes none out of the session map. -/
def Write.keepsRoutes : Write S Q B → Bool
  | .open _ _ | .unroute _ => false
  | _ => true

section

variable {owner other : Option ℕ} {s t : State S Q B} {write : Write S Q B}

/-- What belongs to another owner is not seen, the session map apart. -/
theorem SameFor.foreign (hmine : write.Mine other) (hne : other ≠ owner)
    (hroutes : ∀ id key, key.owner = owner →
      (s.sessions.get? id = some key ↔ (s.write write).sessions.get? id = some key)) :
    SameFor owner s (s.write write) := by
  have hkeys : ∀ key key' : Key, key.owner = other → key'.owner = owner → key' ≠ key := by
    rintro key _ hkey hkey' rfl
    exact hne (hkey.symm.trans hkey')
  cases write with
  | «open» key session =>
    exact { SameFor.refl owner s with
      routes := hroutes
      table := fun key' hkey' => (FiniteMap.get?_insert_ne _ (hkeys key key' hmine.1 hkey') _).symm }
  | unroute key =>
    simp only [State.write] at hroutes ⊢
    split at hroutes <;> exact { SameFor.refl owner s with routes := hroutes }
  | session key op =>
    simp only [State.write]
    split
    · exact { SameFor.refl owner s with
        table := fun key' hkey' =>
          (FiniteMap.get?_insert_ne _ (hkeys key key' hmine.1 hkey') _).symm }
    · exact .refl owner s
  | task key task =>
    exact { SameFor.refl owner s with
      tasks := fun key' hkey' => (FiniteMap.get?_insert_ne _ (hkeys key key' hmine.1 hkey') _).symm }
  | closer serial key ops =>
    refine { SameFor.refl owner s with closers := fun serial' key' hkey' => ?_ }
    have hpair : (serial', key') ≠ (serial, key) :=
      fun heq => hkeys key key' hmine hkey' (congrArg Prod.snd heq)
    exact (FiniteMap.get?_insert_ne _ hpair _).symm
  | canceller source invocation canceller =>
    refine { SameFor.refl owner s with cancellers := fun source' invocation' hkey' => ?_ }
    have hpair : (source', invocation') ≠ (source, invocation) :=
      fun heq => hkeys invocation invocation' hmine hkey' (congrArg Prod.snd heq)
    exact (FiniteMap.get?_insert_ne _ hpair _).symm
  | call key call =>
    exact { SameFor.refl owner s with
      calls := fun key' hkey' => (FiniteMap.get?_insert_ne _ (hkeys key key' hmine.1 hkey') _).symm }
  | send key reply =>
    refine { SameFor.refl owner s with replies := ?_ }
    have hkey : key.owner ≠ owner := fun heq => hne (hmine.symm.trans heq)
    simp [repliesTo, State.write, List.filter_append, hkey]
  | shutDown => exact hmine.elim

theorem SameFor.foreign_all {writes : List (Write S Q B)}
    (hmine : ∀ write ∈ writes, write.Mine other) (hne : other ≠ owner)
    (hplain : ∀ write ∈ writes, write.keepsRoutes = true) :
    SameFor owner s (s.writeAll writes) := by
  induction writes generalizing s with
  | nil => exact .refl owner s
  | cons write writes ih =>
    rw [List.forall_mem_cons] at hmine hplain
    have hroutes : (s.write write).sessions = s.sessions := by
      cases write <;> first | rfl | exact absurd hplain.1 Bool.false_ne_true | skip
      simp only [State.write]
      split <;> rfl
    have hfirst : SameFor owner s (s.write write) :=
      .foreign hmine.1 hne fun id key _ => by rw [hroutes]
    exact hfirst.trans (ih hmine.2 hplain.2)

/-- The same write of the owner's keeps both states the same for the owner. -/
theorem SameFor.own (h : SameFor owner s t) (hmine : write.Mine owner) :
    SameFor owner (s.write write) (t.write write) := by
  have hinsert : ∀ {κ ν : Type} [DecidableEq κ] (m m' : FiniteMap κ ν) (k k' : κ) (v : ν),
      m.get? k' = m'.get? k' → (m.insert k v).get? k' = (m'.insert k v).get? k' := by
    intro κ ν _ m m' k k' v heq
    rw [FiniteMap.get?_insert, FiniteMap.get?_insert, heq]
  cases write with
  | «open» key session =>
    refine { h with routes := fun id key' hkey' => ?_, table := fun key' hkey' => ?_ }
    · change (s.sessions.insert session.id key).get? id = some key' ↔
        (t.sessions.insert session.id key).get? id = some key'
      rw [FiniteMap.get?_insert, FiniteMap.get?_insert]
      split
      · exact Iff.rfl
      · exact h.routes id key' hkey'
    · exact hinsert _ _ _ _ _ (h.table key' hkey')
  | unroute key =>
    have hkey := h.table key hmine
    simp only [State.write, ← hkey]
    split
    · rename_i session hsession
      refine { h with routes := fun id key' hkey' => ?_ }
      change (s.sessions.erase session.id).get? id = some key' ↔
        (t.sessions.erase session.id).get? id = some key'
      rw [FiniteMap.get?_erase, FiniteMap.get?_erase]
      split
      · exact Iff.rfl
      · exact h.routes id key' hkey'
    · exact h
  | session key op =>
    have hkey := h.table key hmine.1
    simp only [State.write, ← hkey]
    split
    · exact { h with table := fun key' hkey' => hinsert _ _ _ _ _ (h.table key' hkey') }
    · exact h
  | task key task =>
    exact { h with tasks := fun key' hkey' => hinsert _ _ _ _ _ (h.tasks key' hkey') }
  | closer serial key ops =>
    exact { h with
      closers := fun serial' key' hkey' => hinsert _ _ _ _ _ (h.closers serial' key' hkey') }
  | canceller source invocation canceller =>
    exact { h with
      cancellers := fun source' invocation' hkey' =>
        hinsert _ _ _ _ _ (h.cancellers source' invocation' hkey') }
  | call key call =>
    exact { h with calls := fun key' hkey' => hinsert _ _ _ _ _ (h.calls key' hkey') }
  | send key reply =>
    refine { h with replies := ?_ }
    have hreplies := h.replies
    simp only [repliesTo] at hreplies
    simp only [repliesTo, State.write, List.filter_append, hreplies]
  | shutDown => exact hmine.elim

theorem SameFor.own_all {writes : List (Write S Q B)} (h : SameFor owner s t)
    (hmine : ∀ write ∈ writes, write.Mine owner) :
    SameFor owner (s.writeAll writes) (t.writeAll writes) := by
  induction writes generalizing s t with
  | nil => exact h
  | cons write writes ih =>
    rw [List.forall_mem_cons] at hmine
    exact ih (h.own hmine.1) hmine.2

end

/-! A step of another owner is not seen. -/

/-- Only the first write of a step opens a session or takes one out of the session map, and an
opened session has a new id. -/
structure Tidy (s : State S Q B) (writes : List (Write S Q B)) : Prop where
  tail : ∀ write ∈ writes.tail, write.keepsRoutes = true
  fresh : ∀ key session, .open key session ∈ writes → session.id ∉ s.drawn

section

variable {host : Host S Q B} {config : RuntimeConfig} {s : State S Q B} {key : Key}
  {call : Call S Q B} {draw : String} {delivered : Bool}

theorem Tidy.of_keepsRoutes {writes : List (Write S Q B)}
    (h : ∀ write ∈ writes, write.keepsRoutes = true) : Tidy s writes := by
  refine ⟨fun write hmem => h write (List.mem_of_mem_tail hmem), fun key session hmem => ?_⟩
  exact absurd (h _ hmem) Bool.false_ne_true

theorem Tidy.of_first {write : Write S Q B} {writes : List (Write S Q B)}
    (hfresh : ∀ key session, write = .open key session → session.id ∉ s.drawn)
    (h : ∀ write ∈ writes, write.keepsRoutes = true) : Tidy s (write :: writes) := by
  refine ⟨h, fun key session hmem => ?_⟩
  rcases List.mem_cons.mp hmem with heq | hmem
  · exact hfresh key session heq.symm
  · exact absurd (h _ hmem) Bool.false_ne_true

theorem tidy_closingStep {source : Source} {target : Key} {session : Session S} {op : ClosingOp}
    {write : Write S Q B} (hwrite : write.keepsRoutes = true) :
    Tidy s ((closingStep s source target session op).1 ++ [write]) := by
  cases op with
  | close => exact .of_first (by rintro _ _ ⟨⟩) (by simpa using hwrite)
  | remove => exact .of_first (by rintro _ _ ⟨⟩) (by simpa using hwrite)
  | cancelAll => exact .of_keepsRoutes (by simpa [closingStep] using hwrite)
  | cancel requestId =>
    simp only [closingStep]
    split
    · split
      · exact .of_keepsRoutes (by simpa using hwrite)
      · exact .of_first (by rintro _ _ ⟨⟩) (by simpa using hwrite)
    · exact .of_keepsRoutes (by simpa using hwrite)

theorem keepsRoutes_routed {target : Key} {session : Session S} :
    ∀ write ∈ routedWrites host config s key call target session, write.keepsRoutes = true := by
  unfold routedWrites
  simp only
  split
  · split <;> simp [Write.keepsRoutes]
  · split
    · simp [Write.keepsRoutes]
    · split_ifs <;> simp [Write.keepsRoutes]
  · split <;> simp [Write.keepsRoutes]
  · simp [Write.keepsRoutes]
  · simp [Write.keepsRoutes]

theorem tidy_call : Tidy s (callWrites host config s key call draw delivered) := by
  cases hstage : call.stage with
  | openGate store storeId negotiated =>
    simp only [callWrites, hstage]
    split_ifs with _ _ hdrawn
    · exact .of_keepsRoutes (by simp [Write.keepsRoutes])
    · exact .of_keepsRoutes (by simp [Write.keepsRoutes])
    · exact .of_keepsRoutes (by simp)
    · refine .of_first ?_ (by simp [Write.keepsRoutes])
      rintro _ _ ⟨⟩
      exact hdrawn
  | rollingBack =>
    simp only [callWrites, hstage]
    split
    · split_ifs
      · exact .of_first (by rintro _ _ ⟨⟩) (by simp [Write.keepsRoutes])
      · exact .of_keepsRoutes (by simp [Write.keepsRoutes])
    · exact .of_keepsRoutes (by simp)
  | closing target ops first cancelled =>
    cases ops with
    | cons op ops =>
      simp only [callWrites, hstage]
      split
      · exact tidy_closingStep rfl
      · exact .of_keepsRoutes (by simp)
    | nil =>
      simp only [callWrites, hstage]
      split_ifs <;> exact .of_keepsRoutes (by simp [Write.keepsRoutes])
  | routed target =>
    simp only [callWrites, hstage]
    split
    · exact .of_keepsRoutes keepsRoutes_routed
    · exact .of_keepsRoutes (by simp)
  | failing fault armed =>
    cases armed with
    | some target =>
      simp only [callWrites, hstage]
      exact .of_keepsRoutes (by simp [Write.keepsRoutes])
    | none =>
      simp only [callWrites, hstage]
      split_ifs <;> exact .of_keepsRoutes (by simp [Write.keepsRoutes])
  | routing | leaving target | rolledBack | opened | done =>
    simp only [callWrites, hstage]
    exact .of_keepsRoutes (by simp [Write.keepsRoutes])
  | starting target | notStarted target finish | cancelWait target invocation requestId
  | completedCheck target requestId =>
    simp only [callWrites, hstage]
    split <;> (try split_ifs) <;> exact .of_keepsRoutes (by simp [Write.keepsRoutes])
  | sendOpen storeId negotiated store | replying target message =>
    simp only [callWrites, hstage]
    split_ifs <;> (try split) <;> exact .of_keepsRoutes (by simp [Write.keepsRoutes])
  | «begin» target | beginRefused target | adding target =>
    simp only [callWrites, hstage]
    split <;> (try split_ifs) <;> exact .of_keepsRoutes (by simp [Write.keepsRoutes])
  | addRefused target =>
    simp only [callWrites, hstage]
    split <;> (try split) <;> exact .of_keepsRoutes (by simp [Write.keepsRoutes])

theorem tidy_writes (event : Event Q B) : Tidy s (s.writes host config event) := by
  have hclosers : ∀ serial ops select, ∀ write ∈ closersFor s serial ops select,
      write.keepsRoutes = true := by
    intro serial ops select write hmem
    obtain ⟨entry, -, rfl⟩ := List.mem_map.mp hmem
    rfl
  cases event with
  | advance key draw delivered =>
    simp only [State.writes]
    split
    · exact tidy_call
    · exact .of_keepsRoutes (by simp)
  | closer serial key =>
    simp only [State.writes]
    split
    · exact tidy_closingStep rfl
    · exact .of_keepsRoutes (by simp)
  | closeOwner serial owner =>
    simp only [State.writes]
    exact .of_keepsRoutes (hclosers _ _ _)
  | shutdown serial =>
    simp only [State.writes]
    exact .of_first (by rintro _ _ ⟨⟩) (hclosers _ _ _)
  | dispatch key envelope =>
    simp only [State.writes]
    split_ifs <;> exact .of_keepsRoutes (by simp [Write.keepsRoutes])
  | drop key =>
    simp only [State.writes]
    split
    · refine .of_keepsRoutes ?_
      unfold dropWrites
      simp only
      split <;> simp [Write.keepsRoutes]
    · exact .of_keepsRoutes (by simp)
  | cancel source invocation =>
    simp only [State.writes]
    split
    · refine .of_keepsRoutes ?_
      unfold cancellerWrites
      split
      · split_ifs <;> simp [Write.keepsRoutes]
      · split <;> simp [Write.keepsRoutes]
      · simp
    · exact .of_keepsRoutes (by simp)
  | emit invocation body | finish invocation finished | release invocation =>
    simp only [State.writes]
    split <;> (try split_ifs) <;> exact .of_keepsRoutes (by simp [Write.keepsRoutes])
  | finishTask invocation =>
    simp only [State.writes]
    split <;> (try split) <;> (try split) <;>
      exact .of_keepsRoutes (by simp [Write.keepsRoutes])

/-- A write of another owner leaves the owner's routes: a new id is nobody's, and an id in the
session map leads to the one session that has it. -/
theorem Wf.routes_foreign {owner other : Option ℕ} {write : Write S Q B} (h : Wf config none s)
    (hmine : write.Mine other) (hne : other ≠ owner)
    (hfresh : ∀ key session, write = .open key session → session.id ∉ s.drawn) (id : String)
    (key : Key) (hkey : key.owner = owner) :
    s.sessions.get? id = some key ↔ (s.write write).sessions.get? id = some key := by
  cases write with
  | «open» key' session =>
    have hid := hfresh key' session rfl
    have hkeys : key ≠ key' := by
      rintro rfl
      exact hne (hmine.1.symm.trans hkey)
    change _ ↔ (s.sessions.insert session.id key').get? id = some key
    rw [FiniteMap.get?_insert]
    split
    · rename_i heq
      subst heq
      constructor
      · intro hroute
        obtain ⟨session', hsession', heq⟩ := h.routes.routed session.id key hroute
        exact absurd (heq ▸ h.routes.drawn key session' hsession') hid
      · intro heq
        exact absurd (Option.some.inj heq).symm hkeys
    · exact Iff.rfl
  | unroute key' =>
    simp only [State.write]
    split
    · rename_i session hsession
      change _ ↔ (s.sessions.erase session.id).get? id = some key
      rw [FiniteMap.get?_erase]
      split
      · rename_i heq
        subst heq
        refine ⟨fun hroute => ?_, fun hnone => by cases hnone⟩
        obtain ⟨session', hsession', heq⟩ := h.routes.routed session.id key hroute
        have hsame := h.routes.unique key key' session' session hsession' hsession heq
        rw [hsame] at hkey
        exact absurd (hmine.symm.trans hkey) hne
      · exact Iff.rfl
    · exact Iff.rfl
  | session key' op =>
    simp only [State.write]
    split <;> exact Iff.rfl
  | task _ _ | closer _ _ _ | canceller _ _ _ | call _ _ | send _ _ | shutDown => exact Iff.rfl

/-- A step on behalf of another owner leaves all that belongs to an owner as it was. -/
theorem sameFor_foreign {owner other : Option ℕ} {event : Event Q B} (h : Wf config none s)
    (howned : Owned s) (hevent : event.owner = some other) (hne : other ≠ owner) :
    SameFor owner s (s.step host config event) := by
  have hmine : ∀ write ∈ s.writes host config event, write.Mine other := howned.mine_writes hevent
  have htidy : Tidy s (s.writes host config event) := tidy_writes event
  unfold State.step
  cases hwrites : s.writes host config event with
  | nil => exact .refl owner s
  | cons write writes =>
    rw [hwrites, List.forall_mem_cons] at hmine
    rw [hwrites] at htidy
    have hfirst : SameFor owner s (s.write write) := by
      refine .foreign hmine.1 hne (h.routes_foreign hmine.1 hne fun key session heq => ?_)
      exact htidy.fresh key session (heq ▸ List.mem_cons_self)
    exact hfirst.trans (.foreign_all hmine.2 hne htidy.tail)

end

/-! Steps of the owner's. -/

/-- What a call that is about to open asks of what all owners share. -/
def sessionChecks (config : RuntimeConfig) (s : State S Q B) : Event Q B → List Bool
  | .advance key draw _ =>
    match s.calls.get? key with
    | some call =>
      match call.stage with
      | .openGate _ _ _ =>
        if s.shuttingDown then []
        else [config.maxSessions ≤ s.sessions.size, draw ∈ s.drawn]
      | _ => []
    | none => []
  | _ => []

/-- What a call that is about to start an invocation asks of what all owners share. -/
def invocationChecks (config : RuntimeConfig) (s : State S Q B) : Event Q B → List Bool
  | .advance key _ _ =>
    match s.calls.get? key with
    | some call =>
      match call.stage, call.envelope.message with
      | .routed _, some (.execute _) => [s.slotsTaken config]
      | _, _ => []
    | none => []
  | _ => []

section

variable {host : Host S Q B} {config : RuntimeConfig} {s t : State S Q B} {key : Key}
  {call : Call S Q B} {draw : String} {delivered : Bool}

theorem SameFor.route_eq (h : SameFor key.owner s t) (envelope : Envelope Q) :
    route host s key envelope = route host t key envelope := by
  have hsession : routeSession s key envelope = (routeSession t key envelope : Stage S B) := by
    have hown : ∀ target, target.owner = key.owner →
        (s.sessions.get? envelope.sessionId = some target ↔
          t.sessions.get? envelope.sessionId = some target) :=
      fun target => h.routes envelope.sessionId target
    unfold routeSession
    cases hs : s.sessions.get? envelope.sessionId with
    | none =>
      cases ht : t.sessions.get? envelope.sessionId with
      | none => rfl
      | some target =>
        have hforeign : target.owner ≠ key.owner := by
          intro howner
          have hsome := (hown target howner).mpr ht
          rw [hs] at hsome
          cases hsome
        simp only [if_pos hforeign]
    | some target =>
      by_cases howner : target.owner = key.owner
      · rw [(hown target howner).mp hs]
        simp only [h.table target howner]
      · simp only [if_pos howner]
        cases ht : t.sessions.get? envelope.sessionId with
        | none => rfl
        | some target' =>
          have hforeign : target'.owner ≠ key.owner := by
            intro howner'
            have hsome := (hown target' howner').mpr ht
            rw [hs] at hsome
            cases hsome
            exact howner howner'
          simp only [if_pos hforeign]
  have hopen : ∀ storeId offered required, routeOpen host s envelope storeId offered required =
      routeOpen host t envelope storeId offered required := by
    intro storeId offered required
    unfold routeOpen
    rw [h.shuttingDown]
  unfold route
  simp only [hsession, hopen]

theorem SameFor.closingStep_eq {source : Source} {target : Key} {session : Session S}
    {op : ClosingOp} {owner : Option ℕ} (h : SameFor owner s t) (howned : Owned s)
    (htarget : target.owner = owner) (hsession : s.table.get? target = some session) :
    closingStep s source target session op = closingStep t source target session op := by
  cases op with
  | close | remove | cancelAll => rfl
  | cancel requestId =>
    simp only [closingStep]
    split
    · rename_i invocation hinvocation
      have howner : invocation.owner = owner :=
        (howned.invocations target session requestId invocation hsession hinvocation).trans htarget
      rw [h.cancellers source invocation howner]
    · rfl

theorem SameFor.routed_eq {target : Key} {session : Session S}
    (hchecks : ∀ operation, call.envelope.message = some (.execute operation) →
      s.slotsTaken config = t.slotsTaken config) :
    routedWrites host config s key call target session =
      routedWrites host config t key call target session := by
  unfold routedWrites
  simp only
  split
  · rfl
  · rename_i operation hmessage
    rw [hchecks operation hmessage]
  · rfl
  · rfl
  · rfl

/-- A call takes the same step where all that is its owner's, and what it asks of the shared
limits, is the same. -/
theorem SameFor.call_eq (h : SameFor key.owner s t) (howned : Owned s)
    (hcall : s.calls.get? key = some call)
    (hsessions : sessionChecks config s (.advance key draw delivered : Event Q B) =
      sessionChecks config t (.advance key draw delivered : Event Q B))
    (hinvocations : invocationChecks config s (.advance key draw delivered : Event Q B) =
      invocationChecks config t (.advance key draw delivered : Event Q B)) :
    callWrites host config s key call draw delivered =
      callWrites host config t key call draw delivered := by
  have hmine := howned.calls key call hcall
  have hcall' : t.calls.get? key = some call := (h.calls key rfl).symm.trans hcall
  have htarget : ∀ target, call.stage.session? key = some target →
      s.table.get? target = t.table.get? target :=
    fun target hsession => h.table target (hmine.session target hsession)
  cases hstage : call.stage with
  | routing => simp only [callWrites, hstage, h.route_eq]
  | openGate store storeId negotiated =>
    simp only [sessionChecks, hcall, hcall', hstage, ← h.shuttingDown] at hsessions
    simp only [callWrites, hstage, ← h.shuttingDown]
    split_ifs at hsessions ⊢ <;> simp_all
  | sendOpen storeId negotiated store =>
    simp only [callWrites, hstage, htarget key (by rw [hstage]; rfl)]
  | rollingBack =>
    simp only [callWrites, hstage, htarget key (by rw [hstage]; rfl), h.routes _ key rfl]
  | «begin» target =>
    simp only [callWrites, hstage, htarget target (by rw [hstage]; rfl)]
  | beginRefused target =>
    simp only [callWrites, hstage, htarget target (by rw [hstage]; rfl)]
  | routed target =>
    have hroutes : ∀ session, routedWrites host config s key call target session =
        routedWrites host config t key call target session := by
      intro session
      refine SameFor.routed_eq fun operation hmessage => ?_
      simp only [invocationChecks, hcall, hcall', hstage, hmessage] at hinvocations
      exact List.head_eq_of_cons_eq hinvocations
    simp only [callWrites, hstage, htarget target (by rw [hstage]; rfl), hroutes]
  | adding target =>
    simp only [callWrites, hstage, htarget target (by rw [hstage]; rfl)]
  | addRefused target =>
    simp only [callWrites, hstage, htarget target (by rw [hstage]; rfl), h.tasks key rfl]
  | starting target => simp only [callWrites, hstage, h.tasks key rfl]
  | cancelWait target invocation requestId =>
    have howner : invocation.owner = key.owner :=
      hmine.invocations invocation (by rw [hstage]; exact List.mem_singleton_self _)
    simp only [callWrites, hstage, h.cancellers _ invocation howner]
  | completedCheck target requestId =>
    simp only [callWrites, hstage, htarget target (by rw [hstage]; rfl)]
  | closing target ops first cancelled =>
    have howner : target.owner = key.owner := hmine.session target (by rw [hstage]; rfl)
    cases ops with
    | cons op ops =>
      have hsame := htarget target (by rw [hstage]; rfl)
      simp only [callWrites, hstage, ← hsame]
      cases hsession : s.table.get? target with
      | none => rfl
      | some session =>
        have hstep : closingStep s (.call key) target session op =
            closingStep t (.call key) target session op :=
          h.closingStep_eq howned howner hsession
        simp only [hstep]
    | nil =>
      have hall : cancelled.all (fun invocation =>
          ((s.cancellers.get? (.call key, invocation)).bind Canceller.result).isSome) =
          cancelled.all (fun invocation =>
            ((t.cancellers.get? (.call key, invocation)).bind Canceller.result).isSome) := by
        rw [Bool.eq_iff_iff, List.all_eq_true, List.all_eq_true]
        refine forall_congr' fun invocation => forall_congr' fun hmem => ?_
        rw [h.cancellers _ invocation (hmine.invocations invocation (by rw [hstage]; exact hmem))]
      simp only [callWrites, hstage, hall]
  | replying target message =>
    simp only [callWrites, hstage, htarget target (by rw [hstage]; rfl)]
  | failing fault armed =>
    cases armed with
    | some target => simp only [callWrites, hstage]
    | none => simp only [callWrites, hstage]
  | notStarted target finish | leaving target | rolledBack | opened | done =>
    simp only [callWrites, hstage]

theorem SameFor.refersTo {owner : Option ℕ} {target : Key} (h : SameFor owner s t)
    (howned : Owned s) (htarget : target.owner = owner) (hrefers : s.refersTo target = true) :
    t.refersTo target = true := by
  simp only [State.refersTo, Bool.or_eq_true, List.any_eq_true, Bool.and_eq_true,
    decide_eq_true_eq] at hrefers ⊢
  rcases hrefers with ((hroute | ⟨⟨other, call⟩, hmem, hsession⟩) | ⟨⟨⟨serial, other⟩, ops⟩, hmem,
    heq, hne⟩) | ⟨⟨⟨source, invocation⟩, canceller⟩, hmem, hnone, htask⟩
  · refine .inl (.inl (.inl ?_))
    rw [← h.table target htarget]
    cases hget : s.table.get? target with
    | none => simp [hget] at hroute
    | some session =>
      simp only [hget, Option.any_some, decide_eq_true_eq] at hroute ⊢
      exact (h.routes session.id target htarget).mp hroute
  · refine .inl (.inl (.inr ⟨(other, call), ?_, hsession⟩))
    have hcall := FiniteMap.mem_toList.mp hmem
    have hother : other.owner = owner :=
      ((howned.calls other call hcall).session target hsession).symm.trans htarget
    rw [FiniteMap.mem_toList, ← h.calls other hother]
    exact hcall
  · refine .inl (.inr ⟨((serial, other), ops), ?_, heq, hne⟩)
    have hother : other = target := heq
    rw [FiniteMap.mem_toList, ← h.closers serial other (hother ▸ htarget)]
    exact FiniteMap.mem_toList.mp hmem
  · refine .inr ⟨((source, invocation), canceller), ?_, hnone, ?_⟩
    all_goals
      simp only at htask
      cases hget : s.tasks.get? invocation with
      | none => simp [hget] at htask
      | some task =>
        have hinvocation : invocation.owner = owner := by
          simp only [hget, Option.any_some, decide_eq_true_eq] at htask
          rw [← howned.tasks invocation task hget, htask, htarget]
        first
          | rw [FiniteMap.mem_toList, ← h.cancellers source invocation hinvocation]
            exact FiniteMap.mem_toList.mp hmem
          | rwa [← h.tasks invocation hinvocation]

theorem SameFor.held {owner : Option ℕ} {invocation : Key} {task : Task} (h : SameFor owner s t)
    (howned : Owned s) (hinvocation : invocation.owner = owner)
    (htarget : task.session.owner = owner) (hheld : s.held invocation task = true) :
    t.held invocation task = true := by
  simp only [State.held, Bool.or_eq_true, List.any_eq_true, Bool.and_eq_true,
    decide_eq_true_eq] at hheld ⊢
  rcases hheld with (⟨hrefers, hregistered⟩ | hstarting) | ⟨⟨⟨source, other⟩, canceller⟩, hmem, heq,
    hnone⟩
  · refine .inl (.inl ⟨h.refersTo howned htarget hrefers, ?_⟩)
    rwa [← h.table task.session htarget]
  · refine .inl (.inr ?_)
    rwa [← h.calls invocation hinvocation]
  · refine .inr ⟨((source, other), canceller), ?_, heq, hnone⟩
    have hother : other = invocation := heq
    rw [FiniteMap.mem_toList, ← h.cancellers source other (hother ▸ hinvocation)]
    exact FiniteMap.mem_toList.mp hmem

theorem writeAll_closers (serial : ℕ) (ops : List ClosingOp) (entries : List (String × Key))
    (s : State S Q B) :
    s.writeAll (entries.map fun entry => .closer serial entry.2 ops) =
      { s with
        closers := s.closers.extend (entries.map fun entry => ((serial, entry.2), ops)) } := by
  induction entries generalizing s with
  | nil => rfl
  | cons entry entries ih => exact ih (s.write (.closer serial entry.2 ops))

/-- The closings of the owner's sessions start in both states. -/
theorem SameFor.closersFor {owner : Option ℕ} (h : SameFor owner s t) (serial : ℕ)
    (ops : List ClosingOp) (select : Key → Bool) :
    SameFor owner (s.writeAll (closersFor s serial ops select))
      (t.writeAll (closersFor t serial ops select)) := by
  classical
  -- which sessions get one
  have hget : ∀ (u : State S Q B) serial' key,
      (u.writeAll (Router.closersFor u serial ops select)).closers.get? (serial', key) =
        if serial' = serial ∧ select key = true ∧ u.closers.get? (serial, key) = none ∧
          ∃ id, u.sessions.get? id = some key then some ops
        else u.closers.get? (serial', key) := by
    intro u serial' key
    rw [Router.closersFor, writeAll_closers]
    split_ifs with hstarts
    · obtain ⟨rfl, hselect, hnone, id, hroute⟩ := hstarts
      refine FiniteMap.get?_extend_of_mem _ (List.mem_map.mpr ⟨(id, key), ?_, rfl⟩) ?_
      · rw [List.mem_filter, FiniteMap.mem_toList]
        simp [hroute, hselect, FiniteMap.contains, hnone]
      · intro pair hmem _
        obtain ⟨entry, -, rfl⟩ := List.mem_map.mp hmem
        rfl
    · refine FiniteMap.get?_extend_of_notMem _ fun pair hmem heq => hstarts ?_
      obtain ⟨⟨id, other⟩, hentry, rfl⟩ := List.mem_map.mp hmem
      obtain ⟨hroute, hkept⟩ := List.mem_filter.mp hentry
      cases heq
      rw [Bool.and_eq_true, Bool.not_eq_true', FiniteMap.contains_eq_false] at hkept
      exact ⟨rfl, hkept.1, hkept.2, id, FiniteMap.mem_toList.mp hroute⟩
  refine ⟨?_, ?_, ?_, ?_, ?_, ?_, ?_, ?_⟩
  case refine_6 =>
    intro serial' key hkey
    rw [hget, hget, h.closers serial key hkey, h.closers serial' key hkey]
    simp only [h.routes _ key hkey]
  all_goals rw [Router.closersFor, Router.closersFor, writeAll_closers, writeAll_closers]
  · exact h.shuttingDown
  · exact h.routes
  · exact h.table
  · exact h.calls
  · exact h.tasks
  · exact h.cancellers
  · exact h.replies

/-- A step of the owner's writes the same in both states, unless it starts closings. -/
theorem SameFor.writes_eq {owner : Option ℕ} {event : Event Q B} (h : SameFor owner s t)
    (hs : Owned s) (ht : Owned t) (hevent : event.owner = some owner)
    (hcloses : ∀ serial closed, event ≠ .closeOwner serial closed)
    (hsessions : sessionChecks config s event = sessionChecks config t event)
    (hinvocations : invocationChecks config s event = invocationChecks config t event) :
    s.writes host config event = t.writes host config event := by
  cases event with
  | dispatch key envelope =>
    cases hevent
    have hcontains : s.calls.contains key = t.calls.contains key := by
      rw [FiniteMap.contains, FiniteMap.contains, h.calls key rfl]
    simp only [State.writes, hcontains]
  | closeOwner serial closed => exact absurd rfl (hcloses serial closed)
  | shutdown serial => cases hevent
  | advance key draw delivered =>
    cases hevent
    simp only [State.writes, ← h.calls key rfl]
    split
    · exact h.call_eq hs ‹_› hsessions hinvocations
    · rfl
  | drop key =>
    cases hevent
    simp only [State.writes, h.calls key rfl]
  | closer serial key =>
    cases hevent
    simp only [State.writes, ← h.closers serial key rfl, ← h.table key rfl]
    split
    · rename_i op ops session _ hsession
      have hstep : closingStep s (.closer serial key) key session op =
          closingStep t (.closer serial key) key session op := h.closingStep_eq hs rfl hsession
      rw [hstep]
    · rfl
  | cancel source invocation =>
    cases hevent
    simp only [State.writes, h.cancellers source invocation rfl, h.tasks invocation rfl]
  | emit invocation body =>
    cases hevent
    simp only [State.writes, h.tasks invocation rfl]
  | finish invocation finished =>
    cases hevent
    simp only [State.writes, h.tasks invocation rfl]
  | finishTask invocation =>
    cases hevent
    simp only [State.writes, h.tasks invocation rfl]
  | release invocation =>
    cases hevent
    simp only [State.writes, ← h.tasks invocation rfl]
    split
    · rename_i task htask
      have htarget := hs.tasks invocation task htask
      have hheld : s.held invocation task = t.held invocation task := by
        rw [Bool.eq_iff_iff]
        exact ⟨h.held hs rfl htarget, h.symm.held ht rfl htarget⟩
      rw [hheld]
    · rfl

/-- Every step keeps two states the same for an owner, as long as the owner's calls get the same
answers from the shared limits. -/
theorem SameFor.step {owner : Option ℕ} {event : Event Q B} (h : SameFor owner s t)
    (hs : Wf config none s ∧ Owned s) (ht : Wf config none t ∧ Owned t)
    (hchecks : event.owner = some owner → sessionChecks config s event =
      sessionChecks config t event ∧
        invocationChecks config s event = invocationChecks config t event) :
    SameFor owner (s.step host config event) (t.step host config event) := by
  cases hevent : event.owner with
  | none =>
    cases event with
    | shutdown serial =>
      have hdown : SameFor owner (s.write .shutDown) (t.write .shutDown) :=
        { h with shuttingDown := rfl }
      exact hdown.closersFor serial [.close, .cancelAll, .remove] fun _ => true
    | _ => cases hevent
  | some other =>
    by_cases hne : other = owner
    · subst hne
      obtain ⟨hsessions, hinvocations⟩ := hchecks hevent
      by_cases hcloses : ∃ serial closed, event = .closeOwner serial closed
      · obtain ⟨serial, closed, rfl⟩ := hcloses
        exact h.closersFor serial [.close, .remove, .cancelAll] fun key => key.owner = some closed
      · have hwrites : s.writes host config event = t.writes host config event := by
          refine h.writes_eq hs.2 ht.2 hevent (fun serial closed heq => ?_) hsessions hinvocations
          exact hcloses ⟨serial, closed, heq⟩
        unfold State.step
        rw [← hwrites]
        exact h.own_all (hs.2.mine_writes hevent)
    · have hleft : SameFor owner s (s.step host config event) :=
        sameFor_foreign hs.1 hs.2 hevent hne
      have hright : SameFor owner t (t.step host config event) :=
        sameFor_foreign ht.1 ht.2 hevent hne
      exact (hleft.symm.trans h).trans hright

end

/-! Isolation. -/

/-- The requests of an owner. -/
def isRequestOf (owner : Option ℕ) : Event Q B → Bool
  | .dispatch key _ => key.owner = owner
  | _ => false

theorem owned_run (host : Host S Q B) (config : RuntimeConfig) (events : List (Event Q B)) :
    Wf config none (events.foldl (State.step host config) State.new) ∧
      Owned (events.foldl (State.step host config) State.new) := by
  have hrun : ∀ (events : List (Event Q B)) (s : State S Q B), Owned s →
      Owned (events.foldl (State.step host config) s) := by
    intro events
    induction events with
    | nil => exact fun s hs => hs
    | cons event events ih => exact fun s hs => ih _ (hs.step event)
  have hreach : Reaches config none State.new (events.foldl (State.step host config) State.new) :=
    (wf_new config).run events
  exact ⟨hreach.wf, hrun events State.new owned_new⟩

/-- The two runs give the owner's calls the same answers from the shared limits. -/
def SameAnswers (config : RuntimeConfig) (owner : Option ℕ) (s t : State S Q B)
    (event : Event Q B) : Prop :=
  event.owner = some owner → sessionChecks config s event = sessionChecks config t event ∧
    invocationChecks config s event = invocationChecks config t event

instance (config : RuntimeConfig) (owner : Option ℕ) (s t : State S Q B) (event : Event Q B) :
    Decidable (SameAnswers config owner s t event) :=
  inferInstanceAs (Decidable (_ → _))

/-- For two owners and every run: no step on behalf of one changes anything of the other's; a
session id of the other's is answered as one that is not there; and without the other's requests
the replies are the same, as long as the shared limits on sessions and on invocations give the same
answers. -/
theorem session_isolation (host : Host S Q B) (config : RuntimeConfig) {x y : Option ℕ}
    (hne : x ≠ y) (events : List (Event Q B)) :
    let s := events.foldl (State.step host config) State.new
    (∀ event, event.owner = some x → SameFor y s (s.step host config event)) ∧
    (∀ key envelope target, key.owner = x → s.sessions.get? envelope.sessionId = some target →
      target.owner = y → route host s key envelope =
        route host { s with sessions := s.sessions.erase envelope.sessionId } key envelope) ∧
    (Run.AlongBoth (SameAnswers config x) (isRequestOf y) (State.step host config) State.new
        State.new events →
      repliesTo x s = repliesTo x ((events.filter fun event => !isRequestOf y event).foldl
        (State.step host config) State.new)) := by
  intro s
  obtain ⟨hwf, howned⟩ : Wf config none s ∧ Owned s := owned_run host config events
  refine ⟨fun event hevent => sameFor_foreign hwf howned hevent hne, ?_, fun hanswers => ?_⟩
  · intro key envelope target hkey hroute htarget
    have hsame : SameFor key.owner s
        { s with sessions := s.sessions.erase envelope.sessionId } := by
      refine { SameFor.refl key.owner s with routes := fun id other hother => ?_ }
      rw [FiniteMap.get?_erase]
      split
      · rename_i heq
        subst heq
        refine ⟨fun hsome => ?_, fun hnone => by cases hnone⟩
        rw [hroute] at hsome
        cases hsome
        exact absurd (hkey.symm.trans (hother.symm.trans htarget)) hne
      · exact Iff.rfl
    exact hsame.route_eq envelope
  · have hsame : SameFor x s ((events.filter fun event => !isRequestOf y event).foldl
        (State.step host config) State.new) := by
      refine Run.foldl_unwinding (C := SameAnswers config x)
        (I := fun s => Wf config none s ∧ Owned s) ?_ ?_ ?_ events State.new State.new
        ⟨wf_new config, owned_new⟩ ⟨wf_new config, owned_new⟩ (.refl x State.new) hanswers
      · intro s event hs
        have hstep : Reaches config none s (s.step host config event) := hs.1.step event
        exact ⟨hstep.wf, hs.2.step event⟩
      · intro s t event hs hleft h
        have hevent : event.owner = some y := by
          cases event with
          | dispatch key envelope => exact congrArg some (of_decide_eq_true hleft)
          | _ => cases hleft
        have hforeign : SameFor x s (s.step host config event) :=
          sameFor_foreign hs.1 hs.2 hevent hne.symm
        exact hforeign.symm.trans h
      · intro s t event hs ht _ hchecks h
        exact h.step hs ht hchecks
    exact hsame.replies

/-! Two owners and one permit. -/

namespace Contention

def host : Host Unit Unit Unit where
  registry := fun storeId => if storeId = "store" then some () else none
  minimumProtocolVersion := fun _ => ⟨1, 0⟩
  semanticInterfaceVersion := fun _ => ⟨1, 0⟩
  catalogRevision := fun _ => []
  catalog := fun _ _ => .ok ()
  executionContract := fun _ _ => .ok ()
  validate := fun _ => none
  replyMetadata := fun envelope => ⟨currentProtocolVersion, envelope.requestId, envelope.sessionId⟩

def config : RuntimeConfig := ⟨8, 8, 1, 8⟩

def opening (key : Key) (draw : String) : List (Event Unit Unit) :=
  [.dispatch key ⟨some ⟨1, 0⟩, "", "open", some (.openStore "store" (some ⟨1, 0⟩)
      (some ⟨1, 0, none⟩))⟩,
    .advance key "" true, .advance key draw true, .advance key "" true]

def execute (key : Key) (sessionId : String) : List (Event Unit Unit) :=
  .dispatch key ⟨some ⟨1, 0⟩, sessionId, "run", some (.execute ())⟩ ::
    List.replicate 5 (.advance key "" true)

/-- The other owner runs an invocation, then this one is to start one. -/
def run : List (Event Unit Unit) :=
  opening ⟨some 2, 0⟩ "b" ++ execute ⟨some 2, 1⟩ "b" ++ opening ⟨some 1, 0⟩ "a" ++
    execute ⟨some 1, 1⟩ "a"

end Contention

open Contention in
/-- The session limit gives the same answers in both runs, and still the reply is another. -/
theorem invocation_limit_seen :
    Run.AlongBoth (fun s t event => event.owner = some (some 1) →
        sessionChecks config s event = sessionChecks config t event)
      (isRequestOf (some 2)) (State.step host config) State.new State.new run ∧
    repliesTo (some 1) (run.foldl (State.step host config) State.new) ≠
      repliesTo (some 1) ((run.filter fun event => !isRequestOf (some 2) event).foldl
        (State.step host config) State.new) := by
  refine ⟨by decide +kernel, fun heq => ?_⟩
  have hlength := congrArg List.length heq
  revert hlength
  decide +kernel

open Contention in
theorem session_isolation_opening :
    (some 1 : Option ℕ) ≠ some 2 ∧
    repliesTo (some 1)
        ((opening ⟨some 2, 0⟩ "b" ++ opening ⟨some 1, 0⟩ "a").foldl (State.step host config)
          State.new) =
      repliesTo (some 1) (((opening ⟨some 2, 0⟩ "b" ++ opening ⟨some 1, 0⟩ "a").filter fun event =>
        !isRequestOf (some 2) event).foldl (State.step host config) State.new) := by
  have hne : (some 1 : Option ℕ) ≠ some 2 := by decide
  exact ⟨hne, (session_isolation host config hne _).2.2 (by decide +kernel)⟩

end Router
