import Reframe.Runtime.SessionState

/-! The runtime that opens sessions and routes requests to them. Each request is a call with an
owner; its operations on the shared maps are separate steps, and so are those of the tasks,
cancellations and closings that it starts. A step is given by the writes it makes. -/
namespace Router
open Runtime

/-- A call, told apart from all others. A session is named by the call that opened it, an
invocation by the call that started it. -/
structure Key where
  owner : Option ℕ
  serial : ℕ
  deriving DecidableEq, Repr

structure ProtocolVersion where
  major : ℕ
  minor : ℕ
  deriving DecidableEq, Repr

def currentProtocolVersion : ProtocolVersion := ⟨1, 0⟩

def ProtocolVersion.supports (version required : ProtocolVersion) : Bool :=
  version.major = required.major && required.minor ≤ version.minor

structure InterfaceRequirement where
  major : ℕ
  minMinor : ℕ
  maxMinor : Option ℕ
  deriving DecidableEq, Repr

structure InterfaceVersion where
  major : ℕ
  minor : ℕ
  deriving DecidableEq, Repr

def InterfaceVersion.satisfies (version : InterfaceVersion) (requirement : InterfaceRequirement) :
    Bool :=
  version.major = requirement.major && requirement.minMinor ≤ version.minor &&
    requirement.maxMinor.all (version.minor ≤ ·)

inductive ErrorCode where
  | invalidEnvelope
  | invalidRequest
  | invalidSession
  | sessionClosed
  | requestConflict
  | unsupportedProtocolVersion
  | storeNotFound
  | interfaceVersionMismatch
  | capabilityNotFound
  | typeNotFound
  | typeMismatch
  | invalidCursor
  | staleCursor
  | invalidBudget
  | budgetExceeded
  | runtimeError
  deriving DecidableEq, Repr

structure ProtocolFault where
  code : ErrorCode
  message : String
  retryable : Bool
  fieldViolations : List (String × String)
  deriving DecidableEq, Repr

namespace ProtocolFault

def new (code : ErrorCode) (message : String) : ProtocolFault := ⟨code, message, false, []⟩

def asRetryable (fault : ProtocolFault) : ProtocolFault := { fault with retryable := true }

def withField (fault : ProtocolFault) (field description : String) : ProtocolFault :=
  { fault with fieldViolations := fault.fieldViolations ++ [(field, description)] }

def ofRequest (message : String) : ProtocolFault := new .invalidRequest message

def requestConflict (requestId : String) : ProtocolFault :=
  new .requestConflict ("request " ++ requestId.quote ++ " is already active in this session")

def unknownSession : ProtocolFault := new .invalidSession "the Store session does not exist"

def closedSession : ProtocolFault := new .sessionClosed "the Store session is closed"

def shuttingDown : ProtocolFault := (new .runtimeError "the runtime is shutting down").asRetryable

def sessionLimit : ProtocolFault :=
  (new .runtimeError "the runtime session limit has been reached").asRetryable

def invocationLimit : ProtocolFault :=
  (new .runtimeError "the runtime invocation limit has been reached").asRetryable

def sessionInvocationLimit : ProtocolFault :=
  (new .runtimeError "the session invocation limit has been reached").asRetryable

def notStarted : ProtocolFault := (new .runtimeError "invocation task did not start").asRetryable

end ProtocolFault

/-- The requests of a client: `Q` are the contents of discovery and execution requests. -/
inductive Message (Q : Type) where
  | openStore (storeId : String) (offered : Option ProtocolVersion)
      (required : Option InterfaceRequirement)
  | discover (query : Q)
  | execute (operation : Q)
  | cancelInvocation (target : String)
  | closeStore
  -- a message that only the host sends
  | hostMessage

structure Envelope (Q : Type) where
  protocolVersion : Option ProtocolVersion
  sessionId : String
  requestId : String
  message : Option (Message Q)

inductive CancellationState where
  | cancelled
  | alreadyFinished
  | notFound
  deriving DecidableEq, Repr

/-- What the host sends: `B` are the contents of discovery responses and invocation events. -/
inductive ReplyMessage (B : Type) where
  | error (fault : ProtocolFault)
  | opened (storeId : String) (negotiated : ProtocolVersion) (interface : InterfaceVersion)
      (catalogRevision : List UInt8)
  | discovered (body : B)
  | cancelled (target : String) (state : CancellationState)
  | closed (closed : Bool)
  | event (body : B)
  | cancelledEvent

structure ReplyMetadata where
  protocol : ProtocolVersion
  requestId : String
  sessionId : String
  deriving DecidableEq, Repr

structure Reply (B : Type) where
  metadata : ReplyMetadata
  message : ReplyMessage B

/-- What the runtime is given: the installed stores with their catalogs, and the validation of
envelopes. -/
structure Host (S Q B : Type) where
  registry : String → Option S
  minimumProtocolVersion : S → ProtocolVersion
  semanticInterfaceVersion : S → InterfaceVersion
  catalogRevision : S → List UInt8
  catalog : S → Q → Except ProtocolFault B
  executionContract : S → Q → Except ProtocolFault Unit
  validate : Envelope Q → Option ProtocolFault
  replyMetadata : Envelope Q → ReplyMetadata

structure RuntimeConfig where
  maxSessions : ℕ
  maxInvocationsPerSession : ℕ
  maxActiveInvocations : ℕ
  completionHistory : ℕ

/-- A session with its state. The lifecycle mutex makes `begin_request`, `try_add_invocation` and
`close` one operation each. -/
structure Session (S : Type) where
  id : String
  protocol : ProtocolVersion
  store : S
  closed : Bool
  requests : Finset String
  invocations : FiniteMap String Key
  completed : CompletionHistory
  activeInvocations : ℕ

def Session.new {S : Type} (id : String) (protocol : ProtocolVersion) (store : S)
    (completionHistory : ℕ) : Session S :=
  ⟨id, protocol, store, false, ∅, ∅, .new completionHistory, 0⟩

/-- The operations of a session's state. -/
inductive SessionOp where
  | close
  | beginRequest (requestId : String)
  | finishRequest (requestId : String)
  | addInvocation (requestId : String) (invocation : Key) (maximum : ℕ)
  | complete (requestId : String)
  | removeInvocation (requestId : String)
  deriving DecidableEq, Repr

namespace Session

variable {S : Type}

/-- `begin_request` and `try_add_invocation` succeed. -/
def admits (session : Session S) : SessionOp → Bool
  | .beginRequest requestId => !session.closed && requestId ∉ session.requests
  | .addInvocation requestId _ maximum =>
    session.activeInvocations < maximum && !session.closed &&
      !session.invocations.contains requestId
  | _ => true

def apply (session : Session S) (op : SessionOp) : Session S :=
  if session.admits op then
    match op with
    | .close => { session with closed := true }
    | .beginRequest requestId => { session with requests := insert requestId session.requests }
    | .finishRequest requestId => { session with requests := session.requests.erase requestId }
    | .addInvocation requestId invocation _ =>
      { session with
        invocations := session.invocations.insert requestId invocation
        activeInvocations := session.activeInvocations + 1 }
    | .complete requestId => { session with completed := session.completed.insert requestId }
    | .removeInvocation requestId =>
      if session.invocations.contains requestId then
        { session with
          invocations := session.invocations.erase requestId
          activeInvocations := fetchSub session.activeInvocations }
      else session
  else session

end Session

/-- The steps of `finish_invocation`. -/
inductive Finish where
  | request
  | complete
  | remove
  | done
  deriving DecidableEq, Repr

def Finish.op (requestId : String) : Finish → Option SessionOp
  | .request => some (.finishRequest requestId)
  | .complete => some (.complete requestId)
  | .remove => some (.removeInvocation requestId)
  | .done => none

def Finish.next : Finish → Finish
  | .request => .complete
  | .complete => .remove
  | .remove | .done => .done

/-- The task of an invocation with its `ActiveInvocation`. -/
structure Task where
  session : Key
  requestId : String
  metadata : ReplyMetadata
  /-- The start signal was sent. -/
  started : Bool
  /-- The invocation ran to its end, or was aborted. -/
  ended : Bool
  /-- Its last event is out. -/
  finished : Bool
  cancellationStarted : Bool
  /-- The runtime's permit, held by the `ActiveInvocation`. -/
  permit : Bool
  /-- `finish_task`, once the invocation has run to its end. -/
  finish : Option Finish
  deriving DecidableEq, Repr

/-- What is left to do for a session that is closed by `close_owner`, by `shutdown` or by a
request: each works off such a list. -/
inductive ClosingOp where
  | close
  | remove
  | cancelAll
  | cancel (requestId : String)
  deriving DecidableEq, Repr

/-- Who started a cancellation. -/
inductive Source where
  | call (key : Key)
  | closer (serial : ℕ) (session : Key)
  deriving DecidableEq, Repr

inductive Canceller where
  | cancelling
  | finishing (state : CancellationState) (finish : Finish)
  | done (state : CancellationState)
  deriving DecidableEq, Repr

/-- Where a call is. -/
inductive Stage (S B : Type) where
  | routing
  -- `open_store`
  | openGate (store : S) (storeId : String) (negotiated : ProtocolVersion)
  | sendOpen (storeId : String) (negotiated : ProtocolVersion) (store : S)
  | rollingBack
  | rolledBack
  | opened
  -- `route_session`
  | begin (session : Key)
  | beginRefused (session : Key)
  | routed (session : Key)
  -- `start_invocation`
  | adding (session : Key)
  | addRefused (session : Key)
  | starting (session : Key)
  | notStarted (session : Key) (finish : Finish)
  -- `cancel_one`
  | cancelWait (session invocation : Key) (target : String)
  | completedCheck (session : Key) (target : String)
  -- `CloseStoreRequest`
  | closing (session : Key) (ops : List ClosingOp) (first : Bool) (cancelled : List Key)
  | replying (session : Key) (message : ReplyMessage B)
  | leaving (session : Key)
  | failing (fault : ProtocolFault) (armed : Option Key)
  | done

structure Call (S Q B : Type) where
  envelope : Envelope Q
  stage : Stage S B

structure State (S Q B : Type) where
  sessions : FiniteMap String Key
  shuttingDown : Bool
  /-- Every session that was opened, every call and so on, also when they are through. -/
  table : FiniteMap Key (Session S)
  calls : FiniteMap Key (Call S Q B)
  closers : FiniteMap (ℕ × Key) (List ClosingOp)
  cancellers : FiniteMap (Source × Key) Canceller
  tasks : FiniteMap Key Task
  sent : List (Key × Reply B)
  /-- The session ids drawn so far. -/
  drawn : Finset String

def State.new {S Q B : Type} : State S Q B := ⟨∅, false, ∅, ∅, ∅, ∅, ∅, [], ∅⟩

/-- What a step writes: one operation on the shared state, and where the actor goes next. Everything
but the shutdown flag belongs to the owner of a key. -/
inductive Write (S Q B : Type) where
  | open (key : Key) (session : Session S)
  | unroute (key : Key)
  | session (key : Key) (op : SessionOp)
  | task (key : Key) (task : Task)
  | closer (serial : ℕ) (session : Key) (ops : List ClosingOp)
  | canceller (source : Source) (invocation : Key) (canceller : Canceller)
  | call (key : Key) (call : Call S Q B)
  | send (key : Key) (reply : Reply B)
  | shutDown

variable {S Q B : Type}

namespace State

def write (state : State S Q B) : Write S Q B → State S Q B
  | .open key session =>
    { state with
      sessions := state.sessions.insert session.id key
      table := state.table.insert key session
      drawn := insert session.id state.drawn }
  | .unroute key =>
    match state.table.get? key with
    | some session => { state with sessions := state.sessions.erase session.id }
    | none => state
  | .session key op =>
    match state.table.get? key with
    | some session => { state with table := state.table.insert key (session.apply op) }
    | none => state
  | .task key task => { state with tasks := state.tasks.insert key task }
  | .closer serial session ops =>
    { state with closers := state.closers.insert (serial, session) ops }
  | .canceller source invocation canceller =>
    { state with cancellers := state.cancellers.insert (source, invocation) canceller }
  | .call key call => { state with calls := state.calls.insert key call }
  | .send key reply => { state with sent := state.sent ++ [(key, reply)] }
  | .shutDown => { state with shuttingDown := true }

def writeAll (state : State S Q B) (writes : List (Write S Q B)) : State S Q B :=
  writes.foldl write state

end State

/-! Opening a session. -/

def showVersion (major minor : ℕ) : String := toString major ++ "." ++ toString minor

def negotiateProtocol (offered minimum : ProtocolVersion) :
    Except ProtocolFault ProtocolVersion :=
  if offered.major ≠ currentProtocolVersion.major then
    .error (.new .unsupportedProtocolVersion
      ("client protocol " ++ showVersion offered.major offered.minor ++
        " is incompatible with host protocol " ++
        showVersion currentProtocolVersion.major currentProtocolVersion.minor))
  else
    let negotiated : ProtocolVersion :=
      ⟨currentProtocolVersion.major, min offered.minor currentProtocolVersion.minor⟩
    if negotiated.supports minimum then .ok negotiated
    else
      .error (.new .unsupportedProtocolVersion
        ("Store requires protocol " ++ showVersion minimum.major minimum.minor ++
          ", but the negotiated version is " ++ showVersion negotiated.major negotiated.minor))

section

variable (host : Host S Q B) (config : RuntimeConfig)

/-- `open_store` up to the session gate. -/
def routeOpen (state : State S Q B) (envelope : Envelope Q) (storeId : String)
    (offered : Option ProtocolVersion) (required : Option InterfaceRequirement) : Stage S B :=
  if state.shuttingDown then .failing .shuttingDown none
  else if envelope.sessionId ≠ "" then
    .failing ((ProtocolFault.ofRequest "OpenStore must not carry an existing session ID").withField
      "session_id" "must be empty for OpenStore") none
  else
    match host.registry storeId with
    | none => .failing (.new .storeNotFound "requested Store is not installed") none
    | some store =>
      match offered with
      | none => .failing (.ofRequest "supported protocol version is missing") none
      | some offered =>
        match negotiateProtocol offered (host.minimumProtocolVersion store) with
        | .error fault => .failing fault none
        | .ok negotiated =>
          match required with
          | none => .failing (.ofRequest "required semantic interface range is missing") none
          | some required =>
            let interface := host.semanticInterfaceVersion store
            if interface.satisfies required then .openGate store storeId negotiated
            else
              .failing (.new .interfaceVersionMismatch
                ("installed interface " ++ showVersion interface.major interface.minor ++
                  " does not satisfy the requested range")) none

/-- The lookup of `route_session`: a session of another owner is answered as none. -/
def routeSession (state : State S Q B) (key : Key) (envelope : Envelope Q) : Stage S B :=
  match state.sessions.get? envelope.sessionId with
  | none => .failing .unknownSession none
  | some session =>
    if session.owner ≠ key.owner then .failing .unknownSession none
    else
      match state.table.get? session with
      | none => .failing .unknownSession none
      | some record =>
        if envelope.protocolVersion = some record.protocol then .begin session
        else
          .failing (.new .unsupportedProtocolVersion
            ("session uses protocol " ++
              showVersion record.protocol.major record.protocol.minor)) none

def route (state : State S Q B) (key : Key) (envelope : Envelope Q) : Stage S B :=
  match host.validate envelope with
  | some fault => .failing fault none
  | none =>
    match envelope.message with
    | none => .failing (.ofRequest "request message is missing") none
    | some (.openStore storeId offered required) =>
      routeOpen host state envelope storeId offered required
    | some .hostMessage =>
      .failing (.ofRequest "clients may send only protocol request messages") none
    | some _ => routeSession state key envelope

/-- The metadata of replies and events of an open session. -/
def sessionMetadata (session : Session S) (envelope : Envelope Q) : ReplyMetadata :=
  ⟨session.protocol, envelope.requestId, session.id⟩

/-- The runtime's permits are all taken. -/
def State.slotsTaken (state : State S Q B) : Bool :=
  config.maxActiveInvocations ≤
    (state.tasks.toList.filter fun entry => entry.2.permit).length

/-! Closing a session: what one operation writes, and what is left to do. -/

def closingStep (state : State S Q B) (source : Source) (key : Key) (session : Session S) :
    ClosingOp → List (Write S Q B) × List ClosingOp
  | .close => ([.session key .close], [])
  | .remove => ([.unroute key], [])
  | .cancelAll => ([], session.invocations.toList.map fun entry => .cancel entry.1)
  | .cancel requestId =>
    match session.invocations.get? requestId with
    | some invocation =>
      match state.cancellers.get? (source, invocation) with
      | some _ => ([], [])
      | none => ([.canceller source invocation .cancelling], [])
    | none => ([], [])

/-- The cancellations that a closing request has started. -/
def startedBy (session : Session S) (cancelled : List Key) : ClosingOp → List Key
  | .cancel requestId => ((session.invocations.get? requestId).map (· :: cancelled)).getD cancelled
  | _ => cancelled

def Canceller.result : Canceller → Option CancellationState
  | .done state => some state
  | _ => none

/-! A call's next operation. -/

def routedWrites (state : State S Q B) (key : Key) (call : Call S Q B) (target : Key)
    (session : Session S) : List (Write S Q B) :=
  let goto := fun stage => Write.call key { call with stage := stage }
  match call.envelope.message with
  | some (.discover query) =>
    match host.catalog session.store query with
    | .error fault => [goto (.failing fault (some target))]
    | .ok body => [goto (.replying target (.discovered body))]
  | some (.execute operation) =>
    match host.executionContract session.store operation with
    | .error fault => [goto (.failing fault (some target))]
    | .ok () =>
      if state.slotsTaken config then [goto (.failing .invocationLimit (some target))]
      else
        [.task key ⟨target, call.envelope.requestId, sessionMetadata session call.envelope, false,
            false, false, false, true, none⟩,
          goto (.adding target)]
  | some (.cancelInvocation requestId) =>
    match session.invocations.get? requestId with
    | some invocation =>
      [.canceller (.call key) invocation .cancelling,
        goto (.cancelWait target invocation requestId)]
    | none => [goto (.completedCheck target requestId)]
  | some .closeStore =>
    [goto (.closing target [.remove, .cancelAll] (!session.closed) []), .session target .close]
  | _ => [goto (.failing (.ofRequest "message is not valid for an open Store session")
      (some target))]

/-- `draw` is the next version 4 UUID and `delivered` how a send ends. -/
def callWrites (state : State S Q B) (key : Key) (call : Call S Q B) (draw : String)
    (delivered : Bool) : List (Write S Q B) :=
  let goto := fun stage => Write.call key { call with stage := stage }
  let fault := fun fault armed => [goto (.failing fault armed)]
  let onSession := fun target (f : Session S → List (Write S Q B)) =>
    match state.table.get? target with
    | some session => f session
    | none => []
  match call.stage with
  | .routing => [goto (route host state key call.envelope)]
  | .openGate store storeId negotiated =>
    if state.shuttingDown then fault .shuttingDown none
    else if config.maxSessions ≤ state.sessions.size then fault .sessionLimit none
    -- a version 4 UUID that was drawn before is not drawn again
    else if draw ∈ state.drawn then []
    else
      [.open key (.new draw negotiated store config.completionHistory),
        goto (.sendOpen storeId negotiated store)]
  | .sendOpen storeId negotiated store =>
    if delivered then
      onSession key fun session =>
        [.send key ⟨sessionMetadata session call.envelope, .opened storeId negotiated
          (host.semanticInterfaceVersion store) (host.catalogRevision store)⟩, goto .opened]
    else [goto .rollingBack, .session key .close]
  | .rollingBack =>
    onSession key fun session =>
      if state.sessions.get? session.id = some key then [.unroute key, goto .rolledBack]
      else [goto .rolledBack]
  | .begin target =>
    onSession target fun session =>
      if session.admits (.beginRequest call.envelope.requestId) then
        [.session target (.beginRequest call.envelope.requestId), goto (.routed target)]
      else [goto (.beginRefused target)]
  | .beginRefused target =>
    onSession target fun session =>
      if session.closed then fault .closedSession none
      else fault (.requestConflict call.envelope.requestId) none
  | .routed target => onSession target (routedWrites host config state key call target)
  | .adding target =>
    onSession target fun session =>
      let op := .addInvocation call.envelope.requestId key config.maxInvocationsPerSession
      if session.admits op then [.session target op, goto (.starting target)]
      else [goto (.addRefused target)]
  | .addRefused target =>
    match state.tasks.get? key with
    | some task =>
      onSession target fun session =>
        [.task key { task with ended := true },
          goto (.failing (if session.closed then .closedSession else .sessionInvocationLimit)
            (some target))]
    | none => []
  | .starting target =>
    match state.tasks.get? key with
    | some task =>
      if task.ended then [goto (.notStarted target .request)]
      else [.task key { task with started := true }, goto .done]
    | none => []
  | .notStarted target finish =>
    match finish.op call.envelope.requestId with
    | some op => [.session target op, goto (.notStarted target finish.next)]
    | none => fault .notStarted (some target)
  | .cancelWait target invocation requestId =>
    match (state.cancellers.get? (.call key, invocation)).bind Canceller.result with
    | some result => [goto (.replying target (.cancelled requestId result))]
    | none => []
  | .completedCheck target requestId =>
    onSession target fun session =>
      [goto (.replying target (.cancelled requestId
        (if requestId ∈ session.completed.values then .alreadyFinished else .notFound)))]
  | .closing target (op :: ops) first cancelled =>
    onSession target fun session =>
      let step := closingStep state (.call key) target session op
      step.1 ++ [goto (.closing target (step.2 ++ ops) first (startedBy session cancelled op))]
  | .closing target [] first cancelled =>
    if cancelled.all fun invocation =>
        ((state.cancellers.get? (.call key, invocation)).bind Canceller.result).isSome then
      [goto (.replying target (.closed first))]
    else []
  | .replying target message =>
    if delivered then
      onSession target fun session =>
        [.send key ⟨sessionMetadata session call.envelope, message⟩, goto (.leaving target)]
    else [goto (.leaving target)]
  | .leaving target => [.session target (.finishRequest call.envelope.requestId), goto .done]
  | .failing reason (some target) =>
    [.session target (.finishRequest call.envelope.requestId), goto (.failing reason none)]
  | .failing reason none =>
    if delivered then
      [.send key ⟨host.replyMetadata call.envelope, .error reason⟩, goto .done]
    else [goto .done]
  | .opened | .rolledBack | .done => []

/-- The call is dropped while it waits: what its guards do. -/
def dropWrites (key : Key) (call : Call S Q B) : List (Write S Q B) :=
  let goto := fun stage => Write.call key { call with stage := stage }
  match call.stage with
  | .openGate _ _ _ | .failing _ none => [goto .done]
  | .sendOpen _ _ _ => [goto .rollingBack, .session key .close]
  | .addRefused target | .notStarted target .complete | .cancelWait target _ _
  | .completedCheck target _ | .closing target [] _ _ | .replying target _ =>
    [goto (.leaving target)]
  | _ => []

/-! Invocations and their cancellation. -/

/-- The call has the session in its hands. -/
def Stage.session? (key : Key) : Stage S B → Option Key
  | .sendOpen _ _ _ | .rollingBack => some key
  | .begin target | .beginRefused target | .routed target | .adding target | .addRefused target
  | .starting target | .notStarted target _ | .cancelWait target _ _ | .completedCheck target _
  | .closing target _ _ _ | .replying target _ | .leaving target
  | .failing _ (some target) => some target
  | _ => none

/-- `start_invocation` has the `ActiveInvocation` in its hands. -/
def Stage.isStarting : Stage S B → Bool
  | .adding _ | .addRefused _ | .starting _ | .notStarted _ _ => true
  | _ => false

/-- The session is routable, or an unfinished call, closing or cancellation has it. -/
def State.refersTo (state : State S Q B) (target : Key) : Bool :=
  ((state.table.get? target).any fun session => state.sessions.get? session.id = some target) ||
    state.calls.toList.any (fun entry => entry.2.stage.session? entry.1 = some target) ||
    state.closers.toList.any (fun entry => entry.1.2 = target && entry.2 ≠ []) ||
    state.cancellers.toList.any fun entry => entry.2.result.isNone &&
      (state.tasks.get? entry.1.2).any fun task => task.session = target

/-- Someone holds the `ActiveInvocation`: the registry of a session that is still there, its own
call or a cancellation. -/
def State.held (state : State S Q B) (invocation : Key) (task : Task) : Bool :=
  (state.refersTo task.session && (state.table.get? task.session).any fun session =>
      session.invocations.get? task.requestId = some invocation) ||
    ((state.calls.get? invocation).any fun call => call.stage.isStarting) ||
    state.cancellers.toList.any fun entry => entry.1.2 = invocation && entry.2.result.isNone

def cancellerWrites (source : Source) (invocation : Key) (task : Task) :
    Canceller → List (Write S Q B)
  | .cancelling =>
    if task.finished || task.cancellationStarted then
      -- the task is awaited, not aborted
      if task.ended then
        [.canceller source invocation (.finishing .alreadyFinished .request)]
      else []
    else
      [.task invocation { task with ended := true, cancellationStarted := true, finish := none },
        .send invocation ⟨task.metadata, .cancelledEvent⟩,
        .canceller source invocation (.finishing .cancelled .request)]
  | .finishing result finish =>
    match finish.op task.requestId with
    | some op =>
      [.session task.session op, .canceller source invocation (.finishing result finish.next)]
    | none => [.canceller source invocation (.done result)]
  | .done _ => []

/-- A choice of the environment. -/
inductive Event (Q B : Type) where
  | dispatch (key : Key) (envelope : Envelope Q)
  | closeOwner (serial : ℕ) (owner : ℕ)
  | shutdown (serial : ℕ)
  | advance (key : Key) (draw : String) (delivered : Bool)
  | drop (key : Key)
  | closer (serial : ℕ) (session : Key)
  | cancel (source : Source) (invocation : Key)
  -- the task of an invocation: an event, its end, and `finish_task`
  | emit (invocation : Key) (body : B)
  | finish (invocation : Key) (finished : Bool)
  | finishTask (invocation : Key)
  -- the `ActiveInvocation` is dropped
  | release (invocation : Key)

/-- Closings for the sessions that are routable and belong to it. -/
def closersFor (state : State S Q B) (serial : ℕ) (ops : List ClosingOp) (select : Key → Bool) :
    List (Write S Q B) :=
  (state.sessions.toList.filter fun entry =>
    select entry.2 && !state.closers.contains (serial, entry.2)).map fun entry =>
      .closer serial entry.2 ops

def State.writes (state : State S Q B) : Event Q B → List (Write S Q B)
  | .dispatch key envelope =>
    if state.calls.contains key then [] else [.call key ⟨envelope, .routing⟩]
  | .closeOwner serial owner =>
    closersFor state serial [.close, .remove, .cancelAll] fun key => key.owner = some owner
  | .shutdown serial =>
    .shutDown :: closersFor state serial [.close, .cancelAll, .remove] fun _ => true
  | .advance key draw delivered =>
    match state.calls.get? key with
    | some call => callWrites host config state key call draw delivered
    | none => []
  | .drop key =>
    match state.calls.get? key with
    | some call => dropWrites key call
    | none => []
  | .closer serial key =>
    match state.closers.get? (serial, key), state.table.get? key with
    | some (op :: ops), some session =>
      let step := closingStep state (.closer serial key) key session op
      step.1 ++ [.closer serial key (step.2 ++ ops)]
    | _, _ => []
  | .cancel source invocation =>
    match state.cancellers.get? (source, invocation), state.tasks.get? invocation with
    | some canceller, some task => cancellerWrites source invocation task canceller
    | _, _ => []
  | .emit invocation body =>
    match state.tasks.get? invocation with
    | some task =>
      if task.started && !task.ended then
        [.send invocation ⟨task.metadata, .event body⟩]
      else []
    | none => []
  | .finish invocation finished =>
    match state.tasks.get? invocation with
    | some task =>
      if task.started && !task.ended then
        [.task invocation { task with
          ended := true, finished := finished, finish := some .request }]
      else []
    | none => []
  | .finishTask invocation =>
    match state.tasks.get? invocation with
    | some task =>
      match task.finish with
      | some finish =>
        match finish.op task.requestId with
        | some op =>
          [.session task.session op, .task invocation { task with finish := some finish.next }]
        | none => []
      | none => []
    | none => []
  | .release invocation =>
    match state.tasks.get? invocation with
    | some task =>
      if state.held invocation task then []
      else [.task invocation { task with ended := true, permit := false, finish := none }]
    | none => []

def State.step (state : State S Q B) (event : Event Q B) : State S Q B :=
  state.writeAll (state.writes host config event)

end

end Router
