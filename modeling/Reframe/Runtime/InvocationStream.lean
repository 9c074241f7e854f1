import Reframe.Runtime.EventStream

/-! One invocation: the task that drives the guest, the output it shares with a cancellation, and
the envelopes that reach the client. The task can be aborted whenever it waits; a sink hands an
envelope over in the poll in which its `send` returns. -/
namespace Runtime

structure ProtocolVersion where
  major : ℕ
  minor : ℕ
  deriving DecidableEq, Repr

structure Envelope where
  protocolVersion : ProtocolVersion
  sessionId : String
  requestId : String
  sequenceNumber : ℕ
  event : InvocationEvent
  deriving DecidableEq, Repr

inductive DispatchError where
  | closed
  | rejected (reason : String)
  | timedOut
  deriving DecidableEq, Repr

/-- How `send_bounded` ends. A sink may report an error for an envelope that the client gets. -/
inductive SinkOutcome where
  | delivered
  | failed (error : DispatchError) (reached : Bool)
  deriving DecidableEq, Repr

inductive InvocationOutputError where
  | sequence (error : EventSequenceError)
  | dispatch (error : DispatchError)
  | closed
  deriving DecidableEq, Repr

/-- The output of an invocation. `finished` is the flag that the active invocation shares. -/
structure InvocationOutput where
  closed : Bool
  finished : Bool
  protocol : ProtocolVersion
  sequence : EventSequence
  sessionId : String
  deriving DecidableEq, Repr

/-- The result of sending an event: the output after it, and the envelope if the client got it. -/
structure Sent where
  output : InvocationOutput
  result : Except InvocationOutputError Unit
  envelope : Option Envelope

namespace InvocationOutput

def new (requestId sessionId : String) (protocol : ProtocolVersion) (mode : InvocationMode) :
    InvocationOutput :=
  ⟨false, false, protocol, .new requestId mode, sessionId⟩

def envelopeOf (output : InvocationOutput) (event : InvocationEvent) : Envelope :=
  ⟨output.protocol, output.sessionId, event.requestId, event.sequenceNumber, event⟩

def abandon (output : InvocationOutput) : InvocationOutput :=
  { output with closed := true, finished := true }

def startedEvent (output : InvocationOutput) : InvocationEvent :=
  ⟨output.sequence.requestId, 0, some .started⟩

def failureEvent (output : InvocationOutput) (code : FailureCode) (message : String) :
    InvocationEvent :=
  ⟨output.sequence.requestId, output.sequence.nextSequence,
    some (.failure ⟨code.toInt, message, false, none⟩)⟩

variable [UuidParser]

def validateCandidate (output : InvocationOutput) (event : InvocationEvent) :
    Except InvocationOutputError Unit :=
  if output.closed then .error .closed
  else
    match output.sequence.accept event with
    | .ok _ => .ok ()
    | .error error => .error (.sequence error)

def sendEvent (output : InvocationOutput) (event : InvocationEvent) (outcome : SinkOutcome) :
    Sent :=
  if output.closed then ⟨output, .error .closed, none⟩
  else
    match output.sequence.accept event with
    | .error error => ⟨output, .error (.sequence error), none⟩
    | .ok candidate =>
      match outcome with
      | .delivered =>
        ⟨{ output with
            sequence := candidate
            finished := output.finished || candidate.isTerminal },
          .ok (), some (output.envelopeOf event)⟩
      | .failed error reached =>
        ⟨output.abandon, .error (.dispatch error),
          if reached then some (output.envelopeOf event) else none⟩

end InvocationOutput

inductive InvocationRunError where
  | component
  | decode
  | catalog
  | output (error : InvocationOutputError)
  | prematureEnd
  | eventAfterTerminal
  | missingData
  | eventTooLarge (actual maximum : ℕ)
  deriving DecidableEq, Repr

def InvocationRunError.clientMessage : InvocationRunError → String
  | .component => "Store component execution failed"
  | .decode | .catalog | .output _ | .prematureEnd | .eventAfterTerminal | .missingData
  | .eventTooLarge _ _ => "Store component violated the invocation contract"

/-- What the driver is given: the generated decoder of events, the catalog's validation of an
output value against the contract, and the configured limit. -/
structure Contract where
  decode : List UInt8 → Option InvocationEvent
  validateOutput : AnyValue → Bool
  maximumEventBytes : ℕ

def Contract.validate (contract : Contract) (event : InvocationEvent) :
    Except InvocationRunError Unit :=
  match event.event with
  | some (.data none) => .error .missingData
  | some (.data (some value)) => if contract.validateOutput value then .ok () else .error .catalog
  | _ => .ok ()

/-- `InvocationOutput::fail`, or the failure that a cancellation sends. -/
structure HostFailure where
  code : FailureCode
  message : String
  deriving DecidableEq, Repr

def InvocationRunError.failure (error : InvocationRunError) : HostFailure :=
  ⟨.internal, error.clientMessage⟩

def cancelledFailure : HostFailure := ⟨.cancelled, "invocation was cancelled"⟩

/-- Where the task, or the supervised `cancel` of the output, stands. -/
inductive Progress where
  | waiting
  | invoking
  | polling
  | validating (event : InvocationEvent)
  -- a terminal event is held back until the guest stream ends
  | ending (event : InvocationEvent)
  | sending (event : InvocationEvent)
  | failing (failure : HostFailure)
  -- `fail` has sent `Started`
  | failingStarted (failure : HostFailure)
  | abandoning
  | done
  deriving DecidableEq, Repr

inductive Origin where
  | guest
  | host
  deriving DecidableEq, Repr

/-- An envelope that reached the client, who made its event, and whether the guest stream had
ended by then. -/
structure Delivery where
  envelope : Envelope
  origin : Origin
  guestEnded : Bool
  deriving DecidableEq, Repr

structure InvocationRun where
  output : InvocationOutput
  task : Progress
  cancellation : Progress
  cancellationStarted : Bool
  guestEnded : Bool
  delivered : List Delivery
  deriving DecidableEq, Repr

def InvocationRun.new (requestId sessionId : String) (protocol : ProtocolVersion)
    (mode : InvocationMode) : InvocationRun :=
  ⟨.new requestId sessionId protocol mode, .waiting, .done, false, false, []⟩

/-- What `ComponentInvocation::next` returns. -/
inductive GuestPoll where
  | failed
  | ended
  | event (bytes : List UInt8)
  deriving DecidableEq, Repr

/-- A choice of the environment. -/
inductive RunEvent where
  | start
  -- the start signal is dropped
  | discard
  | invoked (ok : Bool)
  | guest (poll : GuestPoll)
  | validate
  | send (outcome : SinkOutcome)
  | connectionClosed
  | abandon
  | abort
  -- `ActiveInvocation::cancel` behind its gate
  | cancel
  | sendCancelled (outcome : SinkOutcome)
  deriving DecidableEq, Repr

namespace InvocationRun

def failWith (run : InvocationRun) (error : InvocationRunError) : InvocationRun :=
  { run with task := .failing error.failure }

def receive (run : InvocationRun) (contract : Contract) (bytes : List UInt8) : InvocationRun :=
  if contract.maximumEventBytes < bytes.length then
    run.failWith (.eventTooLarge bytes.length contract.maximumEventBytes)
  else
    match contract.decode bytes with
    | none => run.failWith .decode
    | some event => { run with task := .validating event }

def isTerminalEvent (event : InvocationEvent) : Bool :=
  match event.event with
  | some .complete | some (.failure _) => true
  | _ => false

def guest (run : InvocationRun) (contract : Contract) (poll : GuestPoll) : InvocationRun :=
  match run.task, poll with
  | .polling, .failed => run.failWith .component
  | .polling, .ended => { run with guestEnded := true }.failWith .prematureEnd
  | .polling, .event bytes => run.receive contract bytes
  | .ending _, .failed => run.failWith .component
  | .ending event, .ended => { run with guestEnded := true, task := .sending event }
  | .ending _, .event _ => run.failWith .eventAfterTerminal
  | _, _ => run

/-- Take over the result of a send. -/
def deliver (run : InvocationRun) (origin : Origin) (sent : Sent) : InvocationRun :=
  { run with
    output := sent.output
    delivered := run.delivered ++
      (sent.envelope.map fun envelope => ⟨envelope, origin, run.guestEnded⟩).toList }

variable [UuidParser]

def validate (run : InvocationRun) (contract : Contract) : InvocationRun :=
  match run.task with
  | .validating event =>
    match run.output.validateCandidate event with
    | .error error => run.failWith (.output error)
    | .ok () =>
      match contract.validate event with
      | .error error => run.failWith error
      | .ok () =>
        { run with task := if isTerminalEvent event then .ending event else .sending event }
  | _ => run

/-- One send of `fail`, and where it goes on. -/
def fail (output : InvocationOutput) (failure : HostFailure) (started : Bool)
    (outcome : SinkOutcome) : Sent × Progress :=
  if !started && output.sequence.nextSequence = 0 then
    let sent := output.sendEvent output.startedEvent outcome
    (sent, match sent.result with
      | .ok () => .failingStarted failure
      | .error _ => .done)
  else
    (output.sendEvent (output.failureEvent failure.code failure.message) outcome, .done)

def send (run : InvocationRun) (outcome : SinkOutcome) : InvocationRun :=
  match run.task with
  | .sending event =>
    let sent := run.output.sendEvent event outcome
    match sent.result with
    | .ok () =>
      { run.deliver .guest sent with task := if isTerminalEvent event then .done else .polling }
    | .error error => (run.deliver .guest sent).failWith (.output error)
  | .failing failure =>
    if run.output.finished then { run with task := .done }
    else
      let (sent, next) := fail run.output failure false outcome
      { run.deliver .host sent with task := next }
  | .failingStarted failure =>
    let (sent, next) := fail run.output failure true outcome
    { run.deliver .host sent with task := next }
  | _ => run

/-- A failed `cancel` closes the output. -/
def closeOnError (sent : Sent) : Sent :=
  match sent.result with
  | .ok () => sent
  | .error _ => { sent with output := { sent.output with closed := true } }

def sendCancelled (run : InvocationRun) (outcome : SinkOutcome) : InvocationRun :=
  match run.cancellation with
  | .failing failure =>
    if run.output.finished then { run with cancellation := .done }
    else
      let (sent, next) := fail run.output failure false outcome
      { run.deliver .host (closeOnError sent) with cancellation := next }
  | .failingStarted failure =>
    let (sent, next) := fail run.output failure true outcome
    { run.deliver .host (closeOnError sent) with cancellation := next }
  | _ => run

/-- The cancellation has aborted and reaped the task. -/
def cancel (run : InvocationRun) : InvocationRun :=
  if run.task ≠ .done || run.output.finished || run.cancellationStarted then run
  else { run with cancellationStarted := true, cancellation := .failing cancelledFailure }

def step (contract : Contract) (run : InvocationRun) : RunEvent → InvocationRun
  | .start => if run.task = .waiting then { run with task := .invoking } else run
  | .discard => if run.task = .waiting then { run with task := .done } else run
  | .invoked ok =>
    if run.task = .invoking then
      if ok then { run with task := .polling } else run.failWith .component
    else run
  | .guest poll => run.guest contract poll
  | .validate => run.validate contract
  | .send outcome => run.send outcome
  | .connectionClosed =>
    if run.task = .waiting || run.task = .done then run else { run with task := .abandoning }
  | .abandon =>
    if run.task = .abandoning then { run with output := run.output.abandon, task := .done }
    else run
  | .abort => { run with task := .done }
  | .cancel => run.cancel
  | .sendCancelled outcome => run.sendCancelled outcome

/-- What has reached the client was accepted in this order, and the output goes on from there
unless it is closed. -/
structure Traced (mode : InvocationMode) (output : InvocationOutput) (delivered : List Delivery) :
    Prop where
  accepted : ∃ sequence : EventSequence, sequence.mode = mode ∧
    sequence.Accepted (delivered.map fun delivery => delivery.envelope.event) ∧
      (output.closed = false → output.sequence = sequence)
  stamped : ∀ delivery ∈ delivered,
    delivery.envelope.sequenceNumber = delivery.envelope.event.sequenceNumber
  guest_terminal : ∀ delivery ∈ delivered, delivery.origin = .guest →
    isTerminalEvent delivery.envelope.event = true → delivery.guestEnded = true

section Traced

variable {mode : InvocationMode} {output : InvocationOutput} {delivered : List Delivery}

omit [UuidParser] in
theorem Traced.closed (h : Traced mode output delivered) (output' : InvocationOutput)
    (hclosed : output'.closed = true) : Traced mode output' delivered := by
  obtain ⟨sequence, hmode, haccepted, -⟩ := h.accepted
  exact ⟨⟨sequence, hmode, haccepted, fun hopen => (by simp [hclosed] at hopen)⟩, h.stamped,
    h.guest_terminal⟩

/-- The client gets one more event, which the output's validator accepts. -/
theorem Traced.snoc (h : Traced mode output delivered) (hopen : output.closed = false)
    {event : InvocationEvent} {candidate : EventSequence}
    (haccept : output.sequence.accept event = .ok candidate) {origin : Origin} {guestEnded : Bool}
    (hterminal : origin = .guest → isTerminalEvent event = true → guestEnded = true)
    {output' : InvocationOutput} (hnext : output'.closed = false → output'.sequence = candidate) :
    Traced mode output' (delivered ++ [⟨output.envelopeOf event, origin, guestEnded⟩]) := by
  obtain ⟨sequence, hmode, haccepted, hsequence⟩ := h.accepted
  rw [hsequence hopen] at haccept
  constructor
  · refine ⟨candidate, (EventSequence.accept_mode haccept).trans hmode, ?_, hnext⟩
    rw [List.map_append]
    exact haccepted.accept haccept
  · intro delivery hmem
    rcases List.mem_append.mp hmem with hmem | hmem
    · exact h.stamped delivery hmem
    · rw [List.mem_singleton.mp hmem]
      rfl
  · intro delivery hmem
    rcases List.mem_append.mp hmem with hmem | hmem
    · exact h.guest_terminal delivery hmem
    · rw [List.mem_singleton.mp hmem]
      exact hterminal

theorem Traced.sendEvent (h : Traced mode output delivered) (event : InvocationEvent)
    (outcome : SinkOutcome) {origin : Origin} {guestEnded : Bool}
    (hterminal : origin = .guest → isTerminalEvent event = true → guestEnded = true) :
    Traced mode (output.sendEvent event outcome).output (delivered ++
      ((output.sendEvent event outcome).envelope.map fun envelope =>
        (⟨envelope, origin, guestEnded⟩ : Delivery)).toList) := by
  unfold InvocationOutput.sendEvent
  cases hopen : output.closed with
  | true => simpa using h
  | false =>
    cases haccept : output.sequence.accept event with
    | error error => simpa using h
    | ok candidate =>
      cases outcome with
      | delivered => exact h.snoc hopen haccept hterminal fun _ => rfl
      | failed error reached =>
        cases reached with
        | true => exact h.snoc hopen haccept hterminal fun hclosed => (by cases hclosed)
        | false => simpa using h.closed output.abandon rfl

end Traced

/-- The state of an invocation: what it has delivered, and a terminal event of the guest waits for
the end of the guest stream before it is sent. -/
structure Sound (mode : InvocationMode) (run : InvocationRun) : Prop where
  traced : Traced mode run.output run.delivered
  held : ∀ event, run.task = .sending event → isTerminalEvent event = true →
    run.guestEnded = true

section Sound

variable {mode : InvocationMode} {run : InvocationRun}

omit [UuidParser] in
/-- A step that delivers nothing and does not start to send a guest event. -/
theorem Sound.move (h : Sound mode run) {run' : InvocationRun}
    (houtput : run'.output = run.output) (hdelivered : run'.delivered = run.delivered)
    (htask : ∀ event, run'.task ≠ .sending event) : Sound mode run' :=
  ⟨by rw [houtput, hdelivered]; exact h.traced, fun event hsending => absurd hsending (htask event)⟩

omit [UuidParser] in
theorem Sound.failWith (h : Sound mode run) (error : InvocationRunError) :
    Sound mode (run.failWith error) :=
  h.move rfl rfl fun _ hsending => by cases hsending

omit [UuidParser] in
theorem Sound.guest (h : Sound mode run) (contract : Contract) (poll : GuestPoll) :
    Sound mode (run.guest contract poll) := by
  unfold InvocationRun.guest
  split
  · exact h.failWith _
  · exact h.move rfl rfl fun _ hsending => by cases hsending
  · unfold receive
    split
    · exact h.failWith _
    · split
      · exact h.failWith _
      · exact h.move rfl rfl fun _ hsending => by cases hsending
  · exact h.failWith _
  · exact ⟨h.traced, fun _ _ _ => rfl⟩
  · exact h.failWith _
  · exact h

theorem Sound.validate (h : Sound mode run) (contract : Contract) :
    Sound mode (run.validate contract) := by
  unfold InvocationRun.validate
  split
  · split
    · exact h.failWith _
    · split
      · exact h.failWith _
      · refine ⟨h.traced, fun sent hsending hterminal => ?_⟩
        split_ifs at hsending with hheld
        cases hsending
        exact absurd hterminal hheld
  · exact h

/-- `fail` sends one event of the host at a time. -/
theorem fail_sends (output : InvocationOutput) (failure : HostFailure) (started : Bool)
    (outcome : SinkOutcome) :
    ∃ event, (fail output failure started outcome).1 = output.sendEvent event outcome := by
  unfold fail
  split
  · exact ⟨_, rfl⟩
  · exact ⟨_, rfl⟩

theorem fail_not_sending (output : InvocationOutput) (failure : HostFailure) (started : Bool)
    (outcome : SinkOutcome) (event : InvocationEvent) :
    (fail output failure started outcome).2 ≠ .sending event := by
  unfold fail
  split
  · dsimp only
    split <;> exact fun h => (by cases h)
  · exact fun h => by cases h

theorem Traced.fail (h : Traced mode run.output run.delivered) (failure : HostFailure)
    (started : Bool) (outcome : SinkOutcome) :
    Traced mode (run.deliver .host (fail run.output failure started outcome).1).output
      (run.deliver .host (fail run.output failure started outcome).1).delivered := by
  obtain ⟨event, hsent⟩ := fail_sends run.output failure started outcome
  rw [hsent]
  exact h.sendEvent event outcome fun horigin => by cases horigin

theorem Sound.send (h : Sound mode run) (outcome : SinkOutcome) :
    Sound mode (run.send outcome) := by
  unfold InvocationRun.send
  split <;> rename_i htask
  · rename_i event
    have hsent := h.traced.sendEvent event outcome fun (_ : Origin.guest = .guest) =>
      h.held event htask
    dsimp only
    split
    · refine ⟨hsent, fun other hsending => ?_⟩
      dsimp only at hsending
      split at hsending <;> cases hsending
    · exact ⟨hsent, fun _ hsending => (by cases hsending)⟩
  · rename_i failure
    split
    · exact h.move rfl rfl fun _ hsending => by cases hsending
    · exact ⟨h.traced.fail failure false outcome, fun other hsending =>
        absurd hsending (fail_not_sending run.output failure false outcome other)⟩
  · rename_i failure
    exact ⟨h.traced.fail failure true outcome, fun other hsending =>
      absurd hsending (fail_not_sending run.output failure true outcome other)⟩
  · exact h

omit [UuidParser] in
theorem Traced.closeOnError {sent : Sent}
    (h : Traced mode (run.deliver .host sent).output (run.deliver .host sent).delivered) :
    Traced mode (run.deliver .host (closeOnError sent)).output
      (run.deliver .host (closeOnError sent)).delivered := by
  unfold InvocationRun.closeOnError
  split
  · exact h
  · exact h.closed _ rfl

theorem Sound.sendCancelled (h : Sound mode run) (outcome : SinkOutcome) :
    Sound mode (run.sendCancelled outcome) := by
  unfold InvocationRun.sendCancelled
  split
  · rename_i failure _
    split
    · exact ⟨h.traced, h.held⟩
    · exact ⟨(h.traced.fail failure false outcome).closeOnError, h.held⟩
  · rename_i failure _
    exact ⟨(h.traced.fail failure true outcome).closeOnError, h.held⟩
  · exact h

/-- Every choice of the environment keeps the invocation's stream. -/
theorem Sound.step (contract : Contract) (h : Sound mode run) (event : RunEvent) :
    Sound mode (run.step contract event) := by
  cases event with simp only [InvocationRun.step]
  | start | discard =>
    split
    · exact h.move rfl rfl fun _ hsending => by cases hsending
    · exact h
  | invoked ok =>
    split_ifs
    · exact h.move rfl rfl fun _ hsending => by cases hsending
    · exact h.failWith _
    · exact h
  | guest poll => exact h.guest contract poll
  | validate => exact h.validate contract
  | send outcome => exact h.send outcome
  | connectionClosed =>
    split
    · exact h
    · exact h.move rfl rfl fun _ hsending => by cases hsending
  | abandon =>
    split
    · exact ⟨h.traced.closed _ rfl, fun _ hsending => (by cases hsending)⟩
    · exact h
  | abort => exact h.move rfl rfl fun _ hsending => by cases hsending
  | cancel =>
    unfold InvocationRun.cancel
    split
    · exact h
    · exact ⟨h.traced, h.held⟩
  | sendCancelled outcome => exact h.sendCancelled outcome

end Sound

omit [UuidParser] in
theorem new_sound (requestId sessionId : String) (protocol : ProtocolVersion)
    (mode : InvocationMode) : Sound mode (new requestId sessionId protocol mode) where
  traced := ⟨⟨.new requestId mode, rfl, ⟨EventSequence.new_describes requestId mode, rfl⟩,
    fun _ => rfl⟩, by simp [new], by simp [new]⟩
  held := fun _ hsending => by cases hsending

/-- For every guest, every sink and every point of failure or cancellation, the envelopes that
reach the client are a prefix of one stream, numbered from zero, and a terminal event of the guest
comes only after the end of the guest stream. -/
theorem delivered_stream (contract : Contract) (requestId sessionId : String)
    (protocol : ProtocolVersion) (mode : InvocationMode) (events : List RunEvent) :
    let run := events.foldl (step contract) (new requestId sessionId protocol mode)
    StreamPrefix mode (run.delivered.map fun delivery => delivery.envelope.event) ∧
      (run.delivered.map fun delivery => delivery.envelope.sequenceNumber) =
        List.range run.delivered.length ∧
      ∀ delivery ∈ run.delivered, delivery.origin = .guest →
        isTerminalEvent delivery.envelope.event = true → delivery.guestEnded = true := by
  have hsound : Sound mode (events.foldl (step contract) (new requestId sessionId protocol mode)) :=
    List.foldlRecOn events _ (new_sound requestId sessionId protocol mode)
      fun _ h event _ => h.step contract event
  obtain ⟨sequence, rfl, haccepted, -⟩ := hsound.traced.accepted
  refine ⟨haccepted.streamPrefix, ?_, hsound.traced.guest_terminal⟩
  have hnumbered := haccepted.numbered
  rw [List.map_map, List.length_map] at hnumbered
  rw [← hnumbered]
  exact List.map_congr_left hsound.traced.stamped

end InvocationRun

namespace TestVectors

def streamId : String := "9f2c1f0a-52c5-4be5-8c26-3d8c1b0d7a55"

/-- Three guest events, each of one byte. -/
def unaryContract : Contract where
  decode
    | [0] => some ⟨streamId, 0, some .started⟩
    | [1] => some ⟨streamId, 1, some (.data (some ⟨"type.googleapis.com/test.Value", []⟩))⟩
    | [2] => some ⟨streamId, 2, some .complete⟩
    | _ => none
  validateOutput _ := true
  maximumEventBytes := 4

def unaryRun : List RunEvent :=
  [.start, .invoked true, .guest (.event [0]), .validate, .send .delivered, .guest (.event [1]),
    .validate, .send .delivered, .guest (.event [2]), .validate, .guest .ended, .send .delivered]

local instance : UuidParser := ⟨fun text => text = streamId⟩

example : ((unaryRun.foldl (InvocationRun.step unaryContract)
    (.new streamId "session" ⟨1, 0⟩ .unary)).delivered.map fun delivery =>
      delivery.envelope.event.kind) = [some .started, some .data, some .complete] := by
  decide +kernel

end TestVectors

end Runtime
