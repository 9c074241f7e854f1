import Reframe.Transport.StreamIntegrity

/-! The permits of a server over its runs: what the calls, the queues, the writers and the handlers
hold and what is left add up to the budgets, and no queued frame waits for a permit of another. -/
namespace Transport
open Holdings (held held_set held_eraseIdx held_append held_cons held_nil held_mul)

namespace Connection

variable {config : TransportConfig} {pools pools' : Pools} {c c' : Connection}
  {action : ConnectionAction}

/-- What a connection holds of the inbound budget. -/
def inboundBytes (config : TransportConfig) (c : Connection) : ℕ := config.maxFrameSize * c.admissions

/-! The bytes of the calls and of the frames. -/

theorem frameBytes_none (hwriting : c.writing = none) : c.frameBytes = held List.length c.queue := by
  rw [frameBytes, hwriting]
  rfl

theorem frameBytes_some {writing : Writing} (hwriting : c.writing = some writing) :
    c.frameBytes = held List.length c.queue + writing.payload.length := by
  rw [frameBytes, hwriting]
  rfl

/-- What a step does with permits: a call takes some on its way, hands them to its frame or gives
them back, and so does a frame with those it has. -/
inductive Moves (pools : Pools) (c : Connection) (pools' : Pools) (c' : Connection) : Prop where
  | take (call : ℕ) (payload : List UInt8) (before stage : Stage)
    (hget : c.sendings[call]? = some ⟨payload, before⟩)
    (hcalls : c'.sendings = c.sendings.set call ⟨payload, stage⟩) (hframes : c'.frameBytes = c.frameBytes)
    (hconnection : c'.byteBudget + Sending.connectionBytes ⟨payload, stage⟩ =
      c.byteBudget + Sending.connectionBytes ⟨payload, before⟩)
    (haggregate : pools'.aggregate + Sending.aggregateBytes ⟨payload, stage⟩ =
      pools.aggregate + Sending.aggregateBytes ⟨payload, before⟩)
  | hand (call : ℕ) (payload : List UInt8) (hget : c.sendings[call]? = some ⟨payload, .ready⟩)
    (hcalls : c'.sendings = c.sendings.eraseIdx call)
    (hframes : c'.frameBytes = c.frameBytes + payload.length)
    (hconnection : c'.byteBudget = c.byteBudget) (haggregate : pools'.aggregate = pools.aggregate)
  | abandon (call : ℕ) (sending : Sending) (hget : c.sendings[call]? = some sending)
    (hcalls : c'.sendings = c.sendings.eraseIdx call) (hframes : c'.frameBytes = c.frameBytes)
    (hconnection : c'.byteBudget = c.byteBudget + sending.connectionBytes)
    (haggregate : pools'.aggregate = pools.aggregate + sending.aggregateBytes)
  | release (bytes : ℕ) (hcalls : ∀ amount : Sending → ℕ, (∀ payload, amount ⟨payload, .checked⟩ = 0) →
      held amount c'.sendings = held amount c.sendings)
    (hframes : c'.frameBytes + bytes = c.frameBytes) (hconnection : c'.byteBudget = c.byteBudget + bytes)
    (haggregate : pools'.aggregate = pools.aggregate + bytes)

theorem Outbound.moves (h : Outbound config pools c pools' c') : Moves pools c pools' c' := by
  cases h with
  | send payload =>
    refine .release 0 (fun amount hchecked => ?_) rfl rfl rfl
    rw [held_append, held_cons, hchecked, held_nil, Nat.zero_add, Nat.add_zero]
  | reserve call payload hget => exact .take call payload .checked .reserved hget rfl rfl rfl rfl
  | acquireBytes call payload hget hroom =>
    exact .take call payload .reserved .budgeted hget rfl rfl (Nat.sub_add_cancel hroom) rfl
  | acquireAggregate call payload hget hroom =>
    exact .take call payload .budgeted .ready hget rfl rfl rfl (Nat.sub_add_cancel hroom)
  | enqueue call payload hget =>
    refine .hand call payload hget rfl ?_ rfl rfl
    change held List.length (c.queue ++ [payload]) + held _ c.writing.toList =
      held List.length c.queue + held _ c.writing.toList + _
    rw [held_append, held_cons, held_nil]
    omega
  | abandon call sending hget => exact .abandon call sending hget rfl rfl rfl rfl
  | start payload queue hended hwriting hqueue =>
    refine .release 0 (fun _ _ => rfl) ?_ rfl rfl
    rw [frameBytes_some rfl, frameBytes_none hwriting, hqueue, held_cons]
    exact (Nat.add_zero _).trans (Nat.add_comm _ _)
  | refuse payload queue poisoned hended hwriting hqueue =>
    refine .release payload.length (fun _ _ => rfl) ?_ rfl rfl
    rw [frameBytes_none rfl, frameBytes_none hwriting, hqueue, held_cons]
    exact Nat.add_comm _ _
  | write payload written count hwriting =>
    refine .release 0 (fun _ _ => rfl) ?_ rfl rfl
    rw [frameBytes_some rfl, frameBytes_some hwriting]
    rfl
  | finish payload hwriting =>
    refine .release payload.length (fun _ _ => rfl) ?_ rfl rfl
    rw [frameBytes_none rfl, frameBytes_some hwriting]
  | fail writing poisoned hwriting =>
    refine .release writing.payload.length (fun _ _ => rfl) ?_ rfl rfl
    rw [frameBytes_none rfl, frameBytes_some hwriting]
    rfl
  | dropReceiver hended =>
    refine .release (held List.length c.queue) (fun _ _ => rfl) ?_ rfl rfl
    rw [frameBytes, frameBytes, Nat.add_comm]
    exact congrArg (held List.length c.queue + ·) (Nat.zero_add _)
  | dropSenders hsendings hreceiving =>
    refine .release (held List.length c.queue) (fun _ _ => rfl) ?_ rfl rfl
    rw [frameBytes, frameBytes, Nat.add_comm]
    exact congrArg (held List.length c.queue + ·) (Nat.zero_add _)
  | _ => exact .release 0 (fun _ _ => rfl) rfl rfl rfl

theorem Moves.connectionBytes (h : Moves pools c pools' c') :
    c'.byteBudget + c'.connectionBytes = c.byteBudget + c.connectionBytes := by
  rw [Connection.connectionBytes, Connection.connectionBytes]
  cases h with
  | take call payload before stage hget hcalls hframes hconnection =>
    have hset := held_set Sending.connectionBytes ⟨payload, stage⟩ hget
    rw [hcalls]
    omega
  | hand call payload hget hcalls hframes hconnection =>
    have herase : held Sending.connectionBytes (c.sendings.eraseIdx call) + payload.length =
      held Sending.connectionBytes c.sendings := held_eraseIdx _ hget
    rw [hcalls]
    omega
  | abandon call sending hget hcalls hframes hconnection =>
    have herase : held Sending.connectionBytes (c.sendings.eraseIdx call) + sending.connectionBytes =
      held Sending.connectionBytes c.sendings := held_eraseIdx _ hget
    rw [hcalls]
    omega
  | release bytes hcalls hframes hconnection =>
    rw [hcalls _ fun _ => rfl]
    omega

theorem Moves.aggregateBytes (h : Moves pools c pools' c') :
    pools'.aggregate + c'.aggregateBytes = pools.aggregate + c.aggregateBytes := by
  rw [Connection.aggregateBytes, Connection.aggregateBytes]
  cases h with
  | take call payload before stage hget hcalls hframes hconnection haggregate =>
    have hset := held_set Sending.aggregateBytes ⟨payload, stage⟩ hget
    rw [hcalls]
    omega
  | hand call payload hget hcalls hframes hconnection haggregate =>
    have herase : held Sending.aggregateBytes (c.sendings.eraseIdx call) + payload.length =
      held Sending.aggregateBytes c.sendings := held_eraseIdx _ hget
    rw [hcalls]
    omega
  | abandon call sending hget hcalls hframes hconnection haggregate =>
    have herase : held Sending.aggregateBytes (c.sendings.eraseIdx call) + sending.aggregateBytes =
      held Sending.aggregateBytes c.sendings := held_eraseIdx _ hget
    rw [hcalls]
    omega
  | release bytes hcalls hframes hconnection haggregate =>
    rw [hcalls _ fun _ => rfl]
    omega

/-- The queue never holds more than its capacity. -/
theorem Outbound.places (h : Outbound config pools c pools' c')
    (hplaces : c.places ≤ config.outboundCapacity) : c'.places ≤ config.outboundCapacity := by
  rw [Connection.places] at hplaces ⊢
  cases h with
  | send payload =>
    change held Sending.places (c.sendings ++ [⟨payload, .checked⟩]) + c.queue.length ≤ _
    rw [held_append]
    exact hplaces
  | reserve call payload hget hopen hroom =>
    have hset : held Sending.places (c.sendings.set call ⟨payload, .reserved⟩) + 0 =
      held Sending.places c.sendings + 1 := held_set _ _ hget
    change held Sending.places (c.sendings.set call _) + c.queue.length ≤ _
    rw [Connection.places] at hroom
    omega
  | acquireBytes call payload hget =>
    have hset : held Sending.places (c.sendings.set call ⟨payload, .budgeted⟩) + 1 =
      held Sending.places c.sendings + 1 := held_set _ _ hget
    change held Sending.places (c.sendings.set call _) + c.queue.length ≤ _
    omega
  | acquireAggregate call payload hget =>
    have hset : held Sending.places (c.sendings.set call ⟨payload, .ready⟩) + 1 =
      held Sending.places c.sendings + 1 := held_set _ _ hget
    change held Sending.places (c.sendings.set call _) + c.queue.length ≤ _
    omega
  | enqueue call payload hget =>
    have herase : held Sending.places (c.sendings.eraseIdx call) + 1 =
      held Sending.places c.sendings := held_eraseIdx _ hget
    change held Sending.places (c.sendings.eraseIdx call) + (c.queue ++ [payload]).length ≤ _
    rw [List.length_append, List.length_singleton]
    omega
  | abandon call sending hget =>
    have herase := held_eraseIdx Sending.places hget
    change held Sending.places (c.sendings.eraseIdx call) + c.queue.length ≤ _
    omega
  | start payload queue hended hwriting hqueue =>
    rw [hqueue, List.length_cons] at hplaces
    change held Sending.places c.sendings + queue.length ≤ _
    omega
  | refuse payload queue poisoned hended hwriting hqueue =>
    rw [hqueue, List.length_cons] at hplaces
    change held Sending.places c.sendings + queue.length ≤ _
    omega
  | dropReceiver hended => exact (Nat.le_add_right _ _).trans hplaces
  | dropSenders hsendings hreceiving => exact (Nat.le_add_right _ _).trans hplaces
  | _ => exact hplaces

/-- They change nothing of the reader and the handlers. -/
theorem Outbound.kept (h : Outbound config pools c pools' c') :
    pools'.inbound = pools.inbound ∧ c'.reading = c.reading ∧ c'.admitted = c.admitted ∧
      c'.handlers = c.handlers ∧ c'.running = c.running ∧ c'.closed = c.closed := by
  cases h <;> exact ⟨rfl, rfl, rfl, rfl, rfl, rfl⟩

/-! The steps of the reader and the handlers. -/

/-- What the reader and the handlers of a connection are bounded by. -/
structure Admits (config : TransportConfig) (c : Connection) : Prop where
  running : c.running ≤ c.handlers
  handlers : c.handlers ≤ config.maxInFlight
  admitted : c.admitted = true → c.reading = true
  closed : c.closed = true → c.reading = false ∧ c.handlers = 0 ∧ c.ended = true

theorem inboundBytes_admitted (h : c.admitted = true) :
    c.inboundBytes config = config.maxFrameSize * c.running + config.maxFrameSize := by
  rw [inboundBytes, admissions, if_pos h, Nat.mul_succ]

theorem inboundBytes_free (h : c.admitted = false) :
    c.inboundBytes config = config.maxFrameSize * c.running := by
  rw [inboundBytes, admissions, if_neg (Bool.eq_false_iff.mp h), Nat.add_zero]

theorem stepIn_admits (h : stepIn config pools c action = some (pools', c'))
    (hadmits : c.Admits config) :
    c'.Admits config ∧
      pools'.inbound + c'.inboundBytes config = pools.inbound + c.inboundBytes config ∧
      (c.closed = true → c'.closed = true) := by
  obtain ⟨hrunning, hhandlers, hadmitted, hclosed⟩ := hadmits
  cases action with
  | acquireInbound =>
    rw [stepIn] at h
    split_ifs at h with hroom
    cases h
    refine ⟨⟨hrunning, hhandlers, fun _ => hroom.1, hclosed⟩, ?_, fun h => h⟩
    rw [inboundBytes_admitted rfl, inboundBytes_free hroom.2.1, ← Nat.add_assoc, Nat.add_right_comm]
    exact congrArg (· + _) (Nat.sub_add_cancel hroom.2.2)
  | dispatch =>
    rw [stepIn] at h
    split_ifs at h with hroom
    cases h
    refine ⟨⟨Nat.succ_le_succ hrunning, hroom.2.2, fun h => (by cases h), fun h => ?_⟩, ?_, fun h => h⟩
    · exact absurd (hroom.1.symm.trans (hclosed h).1) (by decide)
    · rw [inboundBytes_admitted hroom.2.1, inboundBytes_free rfl]
      rfl
  | resetFrame =>
    rw [stepIn] at h
    split_ifs at h with hheld
    cases h
    refine ⟨⟨hrunning, hhandlers, fun h => (by cases h), hclosed⟩, ?_, fun h => h⟩
    rw [inboundBytes_admitted hheld, inboundBytes_free rfl, ← Nat.add_assoc, Nat.add_right_comm]
  | dropReader =>
    rw [stepIn] at h
    split_ifs at h with hheld
    cases h
    exact ⟨⟨hrunning, hhandlers, fun h => absurd h hheld, fun h => ⟨rfl, (hclosed h).2⟩⟩, rfl, fun h => h⟩
  | finishHandler =>
    rw [stepIn] at h
    split_ifs at h with hpos
    cases h
    refine ⟨⟨(Nat.sub_le _ _).trans hrunning, hhandlers, hadmitted, hclosed⟩, ?_, fun h => h⟩
    have hless : c.admissions = { c with running := c.running - 1 }.admissions + 1 := by
      rw [admissions, admissions, Nat.add_right_comm]
      exact congrArg (· + _) (Nat.sub_add_cancel hpos).symm
    rw [inboundBytes, inboundBytes, hless, Nat.mul_succ, ← Nat.add_assoc, Nat.add_right_comm]
  | joinHandler =>
    rw [stepIn] at h
    split_ifs at h with hless
    cases h
    refine ⟨⟨Nat.le_sub_one_of_lt hless, (Nat.sub_le _ _).trans hhandlers, hadmitted, fun h => ?_⟩, rfl,
      fun h => h⟩
    rw [(hclosed h).2.1] at hless
    exact absurd hless (Nat.not_lt_zero _)
  | close =>
    rw [stepIn] at h
    split_ifs at h with hdone
    cases h
    exact ⟨⟨hrunning, hhandlers, hadmitted, fun _ => hdone⟩, rfl, fun _ => rfl⟩
  | _ => cases h

/-- What holds of the permits of every connection between two steps. -/
structure Bounded (config : TransportConfig) (c : Connection) : Prop where
  flows : c.Flows config
  bytes : c.byteBudget + c.connectionBytes = config.outboundByteBudget
  places : c.places ≤ config.outboundCapacity
  admits : c.Admits config

theorem bounded_new : (new config).Bounded config :=
  ⟨flows_new, rfl, Nat.zero_le _, le_rfl, Nat.zero_le _, fun h => (by cases h), fun h => (by cases h)⟩

/-- A step keeps the bounds, and what a connection takes of a shared budget is gone from it. -/
theorem step_bounded (h : step config pools c action = some (pools', c')) (hbounded : c.Bounded config) :
    c'.Bounded config ∧
      pools'.inbound + c'.inboundBytes config = pools.inbound + c.inboundBytes config ∧
      pools'.aggregate + c'.aggregateBytes = pools.aggregate + c.aggregateBytes ∧
      (c.closed = true → c'.closed = true) := by
  obtain ⟨hflows, hextends⟩ := step_flows h hbounded.flows
  rcases step_cases h with hout | hin
  · obtain ⟨hinbound, hreading, hadmitted, hhandlers, hrunning, hclosed⟩ := hout.kept
    obtain ⟨hrun, hmax, hread, hdone⟩ := hbounded.admits
    refine ⟨⟨hflows, hout.moves.connectionBytes.trans hbounded.bytes, hout.places hbounded.places,
      ⟨by rwa [hrunning, hhandlers], by rwa [hhandlers], by rwa [hadmitted, hreading], fun h => ?_⟩⟩, ?_,
      hout.moves.aggregateBytes, fun h => hclosed.trans h⟩
    · rw [hclosed] at h
      rw [hreading, hhandlers]
      exact ⟨(hdone h).1, (hdone h).2.1, (hextends.ended (hdone h).2.2).1⟩
    · rw [inboundBytes, inboundBytes, admissions, admissions, hinbound, hadmitted, hrunning]
  · obtain ⟨hadmits, hinbound, hclosed⟩ := stepIn_admits hin hbounded.admits
    obtain ⟨haggregate, reading, admitted, handlers, running, closed, rfl⟩ := stepIn_eq hin
    exact ⟨⟨hflows, hbounded.bytes, hbounded.places, hadmits⟩, hinbound,
      congrArg (· + c.aggregateBytes) haggregate, hclosed⟩

/-! A queued frame can always be written. -/

/-- Steps of one connection that are all possible. -/
def Steps (config : TransportConfig) (pools : Pools) (c : Connection) (actions : List ConnectionAction)
    (pools' : Pools) (c' : Connection) : Prop :=
  actions.foldlM (fun (s : Pools × Connection) action => step config s.1 s.2 action) (pools, c) =
    some (pools', c')

theorem Steps.trans {pools₁ pools₂ pools₃ : Pools} {c₁ c₂ c₃ : Connection}
    {actions actions' : List ConnectionAction} (h : Steps config pools₁ c₁ actions pools₂ c₂)
    (h' : Steps config pools₂ c₂ actions' pools₃ c₃) :
    Steps config pools₁ c₁ (actions ++ actions') pools₃ c₃ := by
  rw [Steps, List.foldlM_append, h]
  exact h'

theorem validateLength_eq_ok {payload : List UInt8} (hconfig : config.Sound)
    (hfits : Fits config payload) : validateLength payload.length config.maxFrameSize = .ok () := by
  have hsmall := hfits.2
  rw [validateLength, if_neg (by omega), if_neg (Nat.not_lt.mpr (le_min hfits.1
    (hfits.1.trans hconfig.frame.2)))]

theorem step_of_stepOut (h : stepOut config pools c action = some (pools', c')) :
    step config pools c action = some (pools', c') := by
  rw [step, h]

/-- The writer can finish the frame it is writing. -/
theorem steps_finish (pools : Pools) {payload : List UInt8} {written : ℕ} (hflows : c.Flows config)
    (hended : c.ended = false) (hwriting : c.writing = some ⟨payload, written⟩)
    (hwritten : written ≤ (frameOf payload).length) :
    ∃ actions pools' c', Steps config pools c actions pools' c' ∧ c'.Flows config ∧ c'.ended = false ∧
      c'.writing = none ∧ c'.queue = c.queue ∧ c'.sent = c.sent := by
  have hall : written + ((frameOf payload).length - written) = (frameOf payload).length :=
    Nat.add_sub_cancel' hwritten
  have hwrite : step config pools c (.write ((frameOf payload).length - written)) = some (pools,
      { c with
        wire := c.wire ++ ((frameOf payload).drop written).take ((frameOf payload).length - written)
        writing := some ⟨payload, (frameOf payload).length⟩ }) := by
    refine step_of_stepOut ?_
    rw [stepOut, hwriting]
    simp only [hall, le_refl, if_true]
  have hwriteFlows := (step_flows hwrite hflows).1
  have hfinish := step_of_stepOut (c := { c with
      wire := c.wire ++ ((frameOf payload).drop written).take ((frameOf payload).length - written)
      writing := some ⟨payload, (frameOf payload).length⟩ })
    (show stepOut config pools _ .finish = _ from if_pos rfl)
  exact ⟨[.write ((frameOf payload).length - written), .finish], _, _,
    (congrArg (· >>= _) hwrite).trans ((congrArg (· >>= _) hfinish).trans rfl),
    (step_flows hfinish hwriteFlows).1, hended, rfl, rfl, rfl⟩

/-- The writer alone can write what is queued. -/
theorem steps_drain (hconfig : config.Sound) (queue : List (List UInt8)) :
    ∀ (pools : Pools) (c : Connection), c.Flows config → c.ended = false → c.writing = none →
      c.queue = queue →
      ∃ actions pools' c', Steps config pools c actions pools' c' ∧ c'.Flows config ∧
        c'.ended = false ∧ c'.writing = none ∧ c'.queue = [] ∧ c'.sent = c.sent := by
  induction queue with
  | nil =>
    intro pools c hflows hended hwriting hqueue
    exact ⟨[], pools, c, rfl, hflows, hended, hwriting, hqueue, rfl⟩
  | cons payload queue ih =>
    intro pools c hflows hended hwriting hqueue
    have hfits : Fits config payload := by
      cases hflows.stream with
      | idle done _ _ _ hsent =>
        refine hflows.sent payload ?_
        rw [hsent, hqueue]
        exact List.mem_append_right _ List.mem_cons_self
      | writing _ _ _ _ _ hno => rw [hno] at hwriting; cases hwriting
      | ended hno => rw [hno] at hended; cases hended
    have hpoisoned : c.poisoned = false := Bool.eq_false_iff.mpr fun h =>
      absurd (hended.symm.trans (hflows.poisoned h)) (by decide)
    have hreceive : step config pools c .receive = some (pools,
        { c with queue := queue, writing := some ⟨payload, 0⟩ }) := by
      refine step_of_stepOut ?_
      rw [stepOut, hwriting, hqueue]
      simp only [hended, Bool.false_eq_true, if_false, receive, validateLength_eq_ok hconfig hfits,
        hpoisoned]
    obtain ⟨actions, pools₁, c₁, hsteps, hflows₁, hended₁, hwriting₁, hqueue₁, hsent₁⟩ :=
      steps_finish pools (step_flows hreceive hflows).1 hended rfl (Nat.zero_le _)
    obtain ⟨actions', pools₂, c₂, hsteps', hflows₂, hended₂, hwriting₂, hqueue₂, hsent₂⟩ :=
      ih pools₁ c₁ hflows₁ hended₁ hwriting₁ hqueue₁
    have hfirst : Steps config pools c [.receive] pools
        { c with queue := queue, writing := some ⟨payload, 0⟩ } :=
      (congrArg (· >>= _) hreceive).trans rfl
    exact ⟨[.receive] ++ actions ++ actions', pools₂, c₂, (hfirst.trans hsteps).trans hsteps', hflows₂,
      hended₂, hwriting₂, hqueue₂, hsent₂.trans hsent₁⟩

/-- While the writer has not ended, it can write every frame that was queued, without a step of
anyone else. -/
theorem steps_written (hconfig : config.Sound) (pools : Pools) (hflows : c.Flows config)
    (hended : c.ended = false) :
    ∃ actions pools' c', Steps config pools c actions pools' c' ∧ c'.sent = c.sent ∧
      c'.wire = c.sent.flatMap frameOf := by
  have hidle : ∃ actions pools' c', Steps config pools c actions pools' c' ∧ c'.Flows config ∧
      c'.ended = false ∧ c'.writing = none ∧ c'.queue = c.queue ∧ c'.sent = c.sent := by
    cases hflows.stream with
    | idle _ _ _ hwriting => exact ⟨[], pools, c, rfl, hflows, hended, hwriting, rfl, rfl⟩
    | writing _ _ _ _ _ hwriting _ hwritten =>
      exact steps_finish pools hflows hended hwriting hwritten
    | ended hno => rw [hno] at hended; cases hended
  obtain ⟨actions, pools₁, c₁, hsteps, hflows₁, hended₁, hwriting₁, hqueue₁, hsent₁⟩ := hidle
  obtain ⟨actions', pools₂, c₂, hsteps', hflows₂, hended₂, hwriting₂, hqueue₂, hsent₂⟩ :=
    steps_drain hconfig c.queue pools₁ c₁ hflows₁ hended₁ hwriting₁ hqueue₁
  refine ⟨actions ++ actions', pools₂, c₂, hsteps.trans hsteps', hsent₂.trans hsent₁, ?_⟩
  cases hflows₂.stream with
  | idle done _ _ _ hsent hwire => rw [hwire, ← hsent₁, ← hsent₂, hsent, hqueue₂, List.append_nil]
  | writing _ _ _ _ _ hno => rw [hno] at hwriting₂; cases hwriting₂
  | ended hno => rw [hno] at hended₂; cases hended₂

end Connection

namespace Server

variable {config : TransportConfig}

/-- Steps of one connection are steps of the server. -/
theorem foldl_on {i : ℕ} (actions : List ConnectionAction) :
    ∀ (server : Server) {c c' : Connection} {pools' : Pools}, server.connections[i]? = some c →
      Connection.Steps config server.pools c actions pools' c' →
      (actions.map (Action.on i)).foldl (step config) server =
        ⟨pools', server.connections.set i c'⟩ := by
  induction actions with
  | nil =>
    intro server c c' pools' hget hsteps
    cases hsteps
    rw [List.map_nil, List.foldl_nil]
    obtain ⟨hlt, hsame⟩ := List.getElem?_eq_some_iff.mp hget
    rw [← hsame, List.set_getElem_self]
  | cons action actions ih =>
    intro server c c' pools' hget hsteps
    rw [Connection.Steps, List.foldlM_cons] at hsteps
    cases hstep : c.step config server.pools action with
    | none => rw [hstep] at hsteps; cases hsteps
    | some next =>
      rw [hstep] at hsteps
      have hserver : server.step config (.on i action) =
          ⟨next.1, server.connections.set i next.2⟩ := by
        rw [step, hget]
        simp only [hstep]
      have hrest := ih ⟨next.1, server.connections.set i next.2⟩ (List.getElem?_set_self
        (List.getElem?_eq_some_iff.mp hget).1) hsteps
      rw [List.map_cons, List.foldl_cons, hserver, hrest, List.set_set]

/-! Every run. -/

/-- What holds of the permits of a server between two steps. -/
structure Bounded (config : TransportConfig) (server : Server) : Prop where
  connections : ∀ c ∈ server.connections, c.Bounded config
  aggregate : server.pools.aggregate + held Connection.aggregateBytes server.connections =
    config.aggregateOutboundByteBudget
  inbound : server.pools.inbound + held (Connection.inboundBytes config) server.connections =
    config.inboundByteBudget
  active : server.active ≤ config.maxConnections

theorem bounded_new : (new config).Bounded config :=
  ⟨fun _ h => absurd h List.not_mem_nil, rfl, rfl, Nat.zero_le _⟩

/-- The connections that are open, as what they hold together. -/
theorem active_eq (server : Server) :
    server.active = held (fun c => if c.closed then 0 else 1) server.connections := by
  rw [active, ← List.countP_eq_length_filter]
  induction server.connections with
  | nil => rfl
  | cons c connections ih =>
    rw [List.countP_cons, ih, held_cons, Nat.add_comm]
    cases c.closed <;> rfl

theorem step_bounded (server : Server) (action : Action) (h : server.Bounded config) :
    (server.step config action).Bounded config := by
  rcases step_eq server action with heq | ⟨hroom, heq⟩ | ⟨i, c, pools, c', connectionAction, hget, hstep, heq⟩
  · rwa [heq]
  · rw [heq]
    refine ⟨fun c hmem => ?_, ?_, ?_, ?_⟩
    · rcases List.mem_append.mp hmem with hmem | hmem
      · exact h.connections c hmem
      · rw [List.mem_singleton.mp hmem]
        exact Connection.bounded_new
    · rw [held_append]
      exact h.aggregate
    · rw [held_append]
      exact h.inbound
    · rw [active_eq] at hroom ⊢
      rw [held_append]
      exact hroom
  · have hmem := List.mem_of_getElem? hget
    obtain ⟨hbounded, hinbound, haggregate, hclosed⟩ :=
      Connection.step_bounded hstep (h.connections c hmem)
    rw [heq]
    refine ⟨fun d hd => ?_, ?_, ?_, ?_⟩
    · rcases List.mem_or_eq_of_mem_set hd with hd | rfl
      · exact h.connections d hd
      · exact hbounded
    · have hset := held_set Connection.aggregateBytes c' hget
      have hbefore := h.aggregate
      change pools.aggregate + held _ (server.connections.set i c') = _
      omega
    · have hset := held_set (Connection.inboundBytes config) c' hget
      have hbefore := h.inbound
      change pools.inbound + held _ (server.connections.set i c') = _
      omega
    · have hbefore := h.active
      rw [active_eq] at hbefore ⊢
      have hset := held_set (fun d : Connection => if d.closed then 0 else 1) c' hget
      have hle : (if c'.closed then 0 else 1) ≤ if c.closed then 0 else 1 := by
        cases hc : c.closed with
        | true => rw [hclosed hc]
        | false => exact (by split <;> decide)
      change held _ (server.connections.set i c') ≤ _
      omega

/-- In every state of every run, what the calls, the frames and the handlers hold of a budget and what
is left of it add up to the budget; the queues, the handlers and the connections stay within their
limits. Any frame of a size that is sent or read fits what is left when nothing else is held, and a
writer that has not ended can write all that was queued whatever the others hold. -/
theorem transport_permits {clock : ℕ → Option ℕ} (hconfig : config.Built clock) (actions : List Action) :
    (run config actions).Bounded config ∧
    (∀ payload, Fits config payload →
      (held Connection.aggregateBytes (run config actions).connections = 0 →
        payload.length ≤ (run config actions).pools.aggregate) ∧
      ∀ c ∈ (run config actions).connections, c.connectionBytes = 0 → payload.length ≤ c.byteBudget) ∧
    (held Connection.admissions (run config actions).connections = 0 →
      config.maxFrameSize ≤ (run config actions).pools.inbound) ∧
    ∀ i c, (run config actions).connections[i]? = some c → c.ended = false →
      ∃ (later : List ConnectionAction) (c' : Connection),
        (run config (actions ++ later.map (Action.on i))).connections =
          (run config actions).connections.set i c' ∧
        c'.sent = c.sent ∧ c'.wire = c.sent.flatMap frameOf := by
  have hbounded : (run config actions).Bounded config :=
    Run.foldl_keeps step_bounded actions _ bounded_new
  have hsound := hconfig.sound
  refine ⟨hbounded, fun payload hfits => ⟨fun hnone => ?_, fun c hmem hnone => ?_⟩, fun hnone => ?_,
    fun i c hget hended => ?_⟩
  · have hall := hbounded.aggregate
    rw [hnone, Nat.add_zero] at hall
    rw [hall]
    exact hfits.1.trans hsound.aggregate
  · have hall := (hbounded.connections c hmem).bytes
    rw [hnone, Nat.add_zero] at hall
    rw [hall]
    exact hfits.1.trans hsound.outbound
  · have hzero : held (Connection.inboundBytes config) (run config actions).connections = 0 :=
      (held_mul config.maxFrameSize).trans (by rw [hnone, Nat.mul_zero])
    have hall := hbounded.inbound
    rw [hzero, Nat.add_zero] at hall
    rw [hall]
    exact hsound.inbound
  · obtain ⟨later, pools', c', hsteps, hsent, hwire⟩ := Connection.steps_written hsound
      (run config actions).pools (hbounded.connections c (List.mem_of_getElem? hget)).flows hended
    refine ⟨later, c', ?_, hsent, hwire⟩
    rw [run, List.foldl_append]
    exact congrArg Server.connections (foldl_on later _ hget hsteps)

namespace TestVectors

/-- Calls of two connections wait, one with its bytes and one before a frame that was begun. -/
def waiting : List Action :=
  [.accept, .accept] ++
    [.send [7], .reserve 0, .acquireBytes 0, .acquireAggregate 0, .enqueue 0, .receive, .write 2].map
      (.on 0) ++ [.send [8, 9], .reserve 0, .acquireBytes 0].map (.on 1)

theorem transport_permits_waiting :
    (run .default waiting).pools.aggregate + 1 = TransportConfig.default.aggregateOutboundByteBudget ∧
      ∃ (later : List ConnectionAction) (c' : Connection),
        (run .default (waiting ++ later.map (Action.on 0))).connections =
          (run .default waiting).connections.set 0 c' ∧ c'.wire = frameOf [7] := by
  have hpermits := @transport_permits .default some ⟨_, [], .inl rfl, rfl⟩ waiting
  obtain ⟨later, c', hlater, hsent, hwire⟩ := hpermits.2.2.2 0 _ rfl (by decide)
  exact ⟨by decide, later, c', hlater, hwire⟩

end TestVectors

end Server

end Transport
