import Reframe.Workspace.AtMostOnce

/-! A call of the client, `WorkspaceDaemon._request`, with the daemon behind it: every attempt has a
connection of its own, frames and replies can be late or lost, and the daemon serves others between
the attempts, crashes and is opened again. -/
namespace Workspace

section

variable [SerdeJson]

def requestAttempts : ℕ := 2

/-- How a call ends. -/
inductive CallOutcome where
  | result (value : Option SerdeJson.Value)
  | remoteError (error : ProtocolError)
  /-- The response has another request id, or its envelope is not valid. -/
  | protocolError
  | transportError
  /-- `WorkspaceOutcomeUnknownError`. -/
  | outcomeUnknown
  /-- An exception of `_ensure_connection` that is not retried. -/
  | startError

inductive CallPhase where
  | ready (attempt : ℕ)
  | connected (attempt : ℕ)
  /-- The frame was written. -/
  | waiting (attempt : ℕ)
  | returned (outcome : CallOutcome)

def attempts (request : Request) : ℕ :=
  if request.operation.idempotencyScope = .processLocal then 1 else requestAttempts

/-- After an attempt that failed on its way. -/
def retry (request : Request) (attempt : ℕ) : CallPhase :=
  if attempt + 1 < attempts request then .ready (attempt + 1)
  else .returned (if request.operation.idempotencyScope = .processLocal then .outcomeUnknown
    else .transportError)

/-- What `_request` makes of a response. -/
def conclude (request : Request) (reply : Reply) : CallOutcome :=
  match reply.ok, reply.error with
  | true, some _ => .protocolError
  | false, none => .protocolError
  | true, none =>
    if reply.requestId = request.requestId then .result reply.result else .protocolError
  | false, some error =>
    if reply.requestId = request.requestId then .remoteError error else .protocolError

structure System where
  server : TracedServer
  call : CallPhase
  /-- The attempts whose frame the daemon can still read. -/
  inbox : List ℕ
  /-- The attempt whose request the daemon is handling. -/
  serving : Option ℕ
  /-- What was written to the connection of an attempt. -/
  replies : List (ℕ × Reply)
  /-- How many frames were written, and how often the daemon began to execute one. -/
  written : ℕ
  begun : ℕ
  /-- What these executions returned. -/
  outcomes : List (Except String SerdeJson.Value)

inductive SystemEvent where
  | connect
  /-- All bytes of the frame are written. -/
  | write
  /-- The attempt fails: no connection, a write or a read that fails or is out of time. -/
  | fail
  | abort
  /-- A frame is lost with its connection. -/
  | lose (attempt : ℕ)
  /-- The daemon reads the frame of an attempt. -/
  | receive (attempt : ℕ) (now : ℤ) (storeError : Option String)
  /-- Another step of the daemon, which may be for another client. -/
  | daemon (event : ServerEvent)
  | read

namespace System

variable [Blake3]

def initial : System := ⟨.initial, .ready 0, [], none, [], 0, 0, []⟩

variable (request : Request)

def receive (s : System) (attempt : ℕ) (now : ℤ) (storeError : Option String) : System :=
  let next := s.server.server.step (.receive request now storeError)
  let s := { s with
    server := s.server.step (.receive request now storeError)
    inbox := s.inbox.erase attempt }
  match next.1.phase with
  | .executing _ => { s with serving := some attempt, begun := s.begun + 1 }
  | _ => { s with replies := s.replies ++ next.2.toList.map (Prod.mk attempt) }

def daemon (s : System) (event : ServerEvent) : System :=
  let next := s.server.server.step event
  let t := { s with server := s.server.step event }
  match event, s.server.server.phase with
  | .crash, _ => { t with inbox := [], serving := none }
  | .execute outcome, .executing _ =>
    { t with outcomes := if s.serving.isSome then s.outcomes ++ [outcome] else s.outcomes }
  | .finish _, .finishing _ _ =>
    { t with
      serving := none
      replies := match s.serving with
        | some attempt => s.replies ++ next.2.toList.map (Prod.mk attempt)
        | none => s.replies }
  | _, _ => t

def step (s : System) : SystemEvent → System
  | .connect =>
    match s.call with
    | .ready attempt => { s with call := .connected attempt }
    | _ => s
  | .write =>
    match s.call with
    | .connected attempt =>
      { s with call := .waiting attempt, inbox := s.inbox ++ [attempt], written := s.written + 1 }
    | _ => s
  | .fail =>
    match s.call with
    | .ready attempt | .connected attempt | .waiting attempt =>
      { s with call := retry request attempt }
    | .returned _ => s
  | .abort =>
    match s.call with
    | .ready _ => { s with call := .returned .startError }
    | _ => s
  | .lose attempt => { s with inbox := s.inbox.erase attempt }
  | .receive attempt now storeError =>
    match s.server.server.phase with
    | .idle => if attempt ∈ s.inbox then s.receive request attempt now storeError else s
    | _ => s
  | .daemon event => s.daemon event
  | .read =>
    match s.call with
    | .waiting attempt =>
      match s.replies.lookup attempt with
      | some reply => { s with call := .returned (conclude request reply) }
      | none => s
    | _ => s

def run (events : List SystemEvent) : System := events.foldl (step request) initial

/-- No one else uses the key. -/
def Fresh (key : String) (event : SystemEvent) : Prop :=
  ∀ other now storeError, event = .daemon (.receive other now storeError) → other.hasKey key = false

/-- The record of the key is not pruned. -/
def KeepsRecord (key : String) (s : System) (event : SystemEvent) : Prop :=
  (s.server.server.rows.get? key).isSome →
    ((s.step request event).server.server.rows.get? key).isSome

instance (key : String) (s : System) (event : SystemEvent) :
    Decidable (s.KeepsRecord request key event) := inferInstanceAs (Decidable (_ → _))

end System

/-! What a reply to the request can be. -/

/-- The codes of replies that do not say what the operation did. -/
def silentCodes : List String :=
  [ErrorCode.idempotencyError, ErrorCode.outcomeUnknown, ErrorCode.responseTooLarge]

/-- A reply tells what the only execution returned, or it refuses. -/
inductive Answers (request : Request) (outcomes : List (Except String SerdeJson.Value))
    (reply : Reply) : Prop where
  | outcome (outcome : Except String SerdeJson.Value) (houtcomes : outcomes = [outcome])
    (hreply : reply = Server.outcomeResponse request outcome)
  | refused (requestId : String) (error : ProtocolError) (hcode : error.code ∈ silentCodes)
    (hid : requestId = request.requestId ∨ requestId = bounded request.requestId)
    (hreply : reply = ⟨requestId, false, none, some error⟩)

namespace Answers

variable {request : Request} {outcomes : List (Except String SerdeJson.Value)} {reply : Reply}

theorem failure {code message : String} (hcode : code ∈ silentCodes) :
    Answers request outcomes (failure request code message) :=
  .refused _ _ hcode (.inl rfl) rfl

theorem terminalFailure (error : String) :
    Answers request outcomes (terminalFailure request error) :=
  .refused _ _ (List.mem_of_getElem? (i := 2) rfl) (.inr rfl) rfl

/-- What is sent for an answer is one. -/
theorem fitted (h : Answers request outcomes reply) (maxBytes : ℕ) :
    Answers request outcomes (fitted request reply maxBytes) := by
  rw [Workspace.fitted]
  split_ifs
  · exact h
  · exact .terminalFailure _

/-- A recorded answer is sent again under the id of the request. -/
theorem withRequestId (h : Answers request outcomes reply) :
    Answers request outcomes { reply with requestId := request.requestId } := by
  cases h with
  | outcome outcome houtcomes hreply =>
    refine .outcome outcome houtcomes ?_
    cases outcome <;> rw [hreply] <;> rfl
  | refused requestId error hcode hid hreply =>
    exact .refused request.requestId error hcode (.inl rfl) (by rw [hreply])

/-- What was answered before the execution returned said nothing of it. -/
theorem grow (h : Answers request [] reply) : Answers request outcomes reply := by
  cases h with
  | outcome _ houtcomes => cases houtcomes
  | refused requestId error hcode hid hreply => exact .refused requestId error hcode hid hreply

end Answers

/-- What a call that has returned says of the execution. -/
def Concluded (request : Request) (outcomes : List (Except String SerdeJson.Value)) :
    CallOutcome → Prop
  | .result value => ∃ v, value = some v ∧ outcomes = [.ok v]
  | .remoteError error =>
    error.code ∈ silentCodes ∨ ∃ message, outcomes = [.error message] ∧
      (failure request ErrorCode.operationFailed message : Reply).error = some error
  | .protocolError => bounded request.requestId ≠ request.requestId
  | .transportError | .outcomeUnknown | .startError => True

theorem Concluded.grow {request : Request} {outcomes : List (Except String SerdeJson.Value)}
    {outcome : CallOutcome} (h : Concluded request [] outcome) :
    Concluded request outcomes outcome := by
  cases outcome with
  | result value => obtain ⟨_, -, h⟩ := h; cases h
  | remoteError error =>
    rcases h with h | ⟨_, h, -⟩
    · exact .inl h
    · cases h
  | protocolError => exact h
  | transportError | outcomeUnknown | startError => trivial

theorem Answers.conclude {request : Request} {outcomes : List (Except String SerdeJson.Value)}
    {reply : Reply} (h : Answers request outcomes reply) :
    Concluded request outcomes (conclude request reply) := by
  cases h with
  | outcome outcome houtcomes hreply =>
    subst hreply
    cases outcome with
    | ok value =>
      have hresult : Workspace.conclude request (Server.outcomeResponse request (.ok value)) =
        .result (some value) := if_pos rfl
      rw [hresult]
      exact ⟨value, rfl, houtcomes⟩
    | error message =>
      have hremote : Workspace.conclude request (Server.outcomeResponse request (.error message)) =
        .remoteError ⟨ErrorCode.operationFailed, request.operation.name,
          request.operation.workspaceId, message⟩ := if_pos rfl
      rw [hremote]
      exact .inr ⟨message, houtcomes, rfl⟩
  | refused requestId error hcode hid hreply =>
    subst hreply
    rw [Workspace.conclude]
    dsimp only
    split_ifs with hsame
    · exact .inl hcode
    · exact fun hbounded => hsame (hid.elim id fun h => h.trans hbounded)

/-! What the daemon replies. -/

variable [Blake3]

/-- A durable request that meets a store error is refused. -/
theorem receive_storeError {server : Server} (hidle : server.phase = .idle) {request : Request}
    {key : String} (hscope : request.operation.idempotencyScope = .durable)
    (hkey : request.idempotencyKey = some key) (now : ℤ) (error : String) :
    server.step (.receive request now (some error)) =
      (server, some (fitted request (failure request ErrorCode.idempotencyError
        ("could not reserve idempotent request: " ++ error)) maxFrameBytes)) := by
  rw [Server.step_receive hidle, Server.receive, if_pos (mutates_of_durable hscope),
    Server.beginIdempotent, hkey]
  dsimp only
  rw [hscope]
  dsimp only [beginDurableIdempotent]
  rw [transportableResponse_eq]

omit [Blake3] in
/-- At the end of `handle` the response is sent, or that its outcome is not recorded. -/
theorem finalizeResponse_reply {rows rows' : IdempotencyRows} {request : Request}
    {response response' : Reply} {storeError : Option String}
    (h : Server.finalizeResponse rows request response maxFrameBytes storeError =
      some (rows', response')) :
    response' = fitted request response maxFrameBytes ∨ ∃ message, response' =
      fitted request (failure request ErrorCode.outcomeUnknown message) maxFrameBytes := by
  rw [Server.finalizeResponse, transportableResponse_eq] at h
  generalize fitted request response maxFrameBytes = sent at h ⊢
  dsimp only at h
  split at h
  next key _ _ =>
    cases hcomplete : Server.completeIdempotent rows request.operation key sent.encode storeError with
    | ok rows'' =>
      rw [hcomplete] at h
      exact .inl (Prod.mk.inj (Option.some.inj h)).2.symm
    | error error =>
      rw [hcomplete] at h
      dsimp only at h
      rw [transportableResponse_eq, Option.map_some] at h
      generalize hunknown : fitted request _ maxFrameBytes = unknown at h
      exact .inr ⟨_, (Prod.mk.inj (Option.some.inj h)).2.symm.trans hunknown.symm⟩
  next => exact .inl (Prod.mk.inj (Option.some.inj h)).2.symm

namespace TracedServer

variable {key : String} {t : TracedServer}

/-- A request without the key is no execution of it. -/
theorem executions_receive {request : Request} {now : ℤ} {storeError : Option String}
    (hkey : request.hasKey key = false) :
    (t.step (.receive request now storeError)).executions key = t.executions key := by
  have hstarted : (t.step (.receive request now storeError)).started = t.started ∨
      (t.step (.receive request now storeError)).started = t.started ++ [request] := by
    cases hphase : t.server.phase with
    | down | executing | finishing => exact .inl (by simp only [step, hphase])
    | idle =>
      cases hnext : (t.server.step (.receive request now storeError)).1.phase with
      | down | idle | finishing => exact .inl (by simp only [step, hphase, hnext])
      | executing =>
        simp only [step, hphase, hnext]
        split_ifs
        · exact .inr rfl
        · exact .inl rfl
  rcases hstarted with hstarted | hstarted
  · rw [executions, executions, hstarted]
  · rw [executions, executions, hstarted, filter_append_of_not hkey]

/-- Only the end of `handle` records. -/
theorem recordedFor_step {event : ServerEvent} (hevent : ∀ storeError, event ≠ .finish storeError) :
    (t.step event).recordedFor key = t.recordedFor key := by
  cases event with
  | finish storeError => exact absurd rfl (hevent storeError)
  | execute | receive | crash | reopen => rfl

/-- A request that is answered at once changes nothing when the rows stay. -/
theorem step_receive_same {request : Request} {now : ℤ} {storeError : Option String}
    (hidle : t.server.phase = .idle) (hsame : (t.server.step (.receive request now storeError)).1 = t.server) :
    t.step (.receive request now storeError) = t := by
  simp only [step, hidle, hsame]

/-- A step that does not fit the phase. -/
theorem step_stuck {event : ServerEvent} (h : t.server.step event = (t.server, none)) :
    t.step event = t := by
  cases event with
  | receive request now storeError =>
    cases hphase : t.server.phase <;> simp only [step, h, hphase]
  | finish storeError =>
    simp only [step, h]
    cases storeError with
    | none => cases hphase : t.server.phase <;> rfl
    | some error => rfl
  | execute | crash | reopen => simp only [step, h]

end TracedServer

theorem beginIdempotent_phase (server : Server) (request : Request) (now : ℤ)
    (storeError : Option String) :
    (server.beginIdempotent request now storeError).1.phase = server.phase := by
  rw [Server.beginIdempotent]
  cases request.idempotencyKey with
  | none => rfl
  | some key => cases request.operation.idempotencyScope <;> rfl

/-- A request that is received is answered or begun. -/
theorem receive_phase {server : Server} (hidle : server.phase = .idle) (request : Request) (now : ℤ)
    (storeError : Option String) :
    (server.step (.receive request now storeError)).1.phase = .idle ∨
      (server.step (.receive request now storeError)).1.phase = .executing request := by
  have hbegin := beginIdempotent_phase server request now storeError
  rw [Server.step_receive hidle, Server.receive]
  split_ifs
  · split
    · rename_i next response heq
      rw [heq] at hbegin
      rw [transportableResponse_eq]
      exact .inl (hbegin.trans hidle)
    · exact .inr rfl
  · exact .inr rfl

namespace System

variable {request : Request} {key : String} {s s' : System}

/-- What holds between two steps of a call with a durable key of its own. -/
structure Inv (request : Request) (key : String) (s : System) : Prop where
  server : s.server.Inv Set.univ key
  own : ∀ other ∈ s.server.executions key, other = request
  serving : s.serving.isSome = true → TracedServer.inFlight s.server.server.phase = some request
  others : s.serving = none → ∀ other ∈ TracedServer.inFlight s.server.server.phase,
    other.hasKey key = false
  unbegun : s.server.executions key = [] → s.outcomes = []
  once : s.outcomes.length ≤ 1
  executing : s.serving.isSome = true → ∀ other, s.server.server.phase = .executing other →
    s.outcomes = []
  finishing : s.serving.isSome = true → ∀ other reply, s.server.server.phase = .finishing other reply →
    ∃ outcome, s.outcomes = [outcome] ∧ reply = Server.outcomeResponse request outcome
  recorded : ∀ entry ∈ s.server.recordedFor key, Answers request s.outcomes entry.2
  replies : ∀ entry ∈ s.replies, Answers request s.outcomes entry.2
  call : ∀ outcome, s.call = .returned outcome → Concluded request s.outcomes outcome

theorem inv_initial : initial.Inv request key :=
  ⟨⟨fun _ h => absurd h List.not_mem_nil, fun _ => ⟨rfl, rfl⟩, fun _ h => (by cases h), fun _ h => (by cases h)⟩,
    fun _ h => absurd h List.not_mem_nil, fun h => (by cases h), fun _ _ h => (by cases h), fun _ => rfl,
    Nat.zero_le _, fun h => (by cases h), fun h => (by cases h), fun _ h => absurd h List.not_mem_nil,
    fun _ h => absurd h List.not_mem_nil, fun _ h => (by cases h)⟩

/-- A step of the client leaves the daemon alone. -/
theorem Inv.client (h : s.Inv request key) (hserver : s'.server = s.server)
    (hserving : s'.serving = s.serving) (houtcomes : s'.outcomes = s.outcomes)
    (hreplies : s'.replies = s.replies)
    (hcall : ∀ outcome, s'.call = .returned outcome → Concluded request s.outcomes outcome) :
    s'.Inv request key := by
  constructor
  · rw [hserver]; exact h.server
  · rw [hserver]; exact h.own
  · rw [hserver, hserving]; exact h.serving
  · rw [hserver, hserving]; exact h.others
  · rw [hserver, houtcomes]; exact h.unbegun
  · rw [houtcomes]; exact h.once
  · rw [hserver, hserving, houtcomes]; exact h.executing
  · rw [hserver, hserving, houtcomes]; exact h.finishing
  · rw [hserver, houtcomes]; exact h.recorded
  · rw [hreplies, houtcomes]; exact h.replies
  · rw [houtcomes]; exact hcall

/-- A repeated request is answered from what is known of the first. -/
theorem Inv.repeatAnswer (h : s.Inv request key) :
    Answers request s.outcomes (s.server.repeatAnswer key request request) := by
  rw [TracedServer.repeatAnswer, if_neg fun hne => hne rfl]
  split
  · rename_i first response rest heq
    exact (h.recorded (first, response) (heq ▸ List.mem_cons_self)).withRequestId
  · exact .failure (List.mem_of_getElem? (i := 1) rfl)

/-- No attempt is being served while the daemon is idle. -/
theorem Inv.serving_eq_none (h : s.Inv request key) (hidle : s.server.server.phase = .idle) :
    s.serving = none := by
  cases hserving : s.serving with
  | none => rfl
  | some attempt =>
    have hflight := h.serving (by rw [hserving]; rfl)
    rw [hidle] at hflight
    cases hflight

/-- The daemon answers at once. -/
theorem Inv.answered (h : s.Inv request key) (hidle : s.server.server.phase = .idle) {attempt : ℕ}
    {now : ℤ} {storeError : Option String} {reply : Reply}
    (hstep : s.server.server.step (.receive request now storeError) = (s.server.server, some reply))
    (hreply : Answers request s.outcomes reply) :
    (s.receive request attempt now storeError).Inv request key := by
  have hsame : s.server.step (.receive request now storeError) = s.server :=
    TracedServer.step_receive_same hidle (by rw [hstep])
  have hreceive : s.receive request attempt now storeError = { s with
      inbox := s.inbox.erase attempt
      replies := s.replies ++ [(attempt, reply)] } := by
    simp only [receive, hstep, hsame, hidle]
    rfl
  rw [hreceive]
  refine ⟨h.server, h.own, h.serving, h.others, h.unbegun, h.once, h.executing, h.finishing, h.recorded,
    fun entry hmem => ?_, h.call⟩
  rcases List.mem_append.mp hmem with hmem | hmem
  · exact h.replies entry hmem
  · rw [List.mem_singleton.mp hmem]
    exact hreply

theorem Inv.receive (h : s.Inv request key) (hscope : request.operation.idempotencyScope = .durable)
    (hkey : request.idempotencyKey = some key) (hidle : s.server.server.phase = .idle) (attempt : ℕ)
    (now : ℤ) (storeError : Option String) :
    (s.receive request attempt now storeError).Inv request key := by
  cases storeError with
  | some error =>
    exact h.answered hidle (receive_storeError hidle hscope hkey now error)
      (.fitted (.failure (List.mem_of_getElem? (i := 0) rfl)) _)
  | none =>
    cases hrow : s.server.server.rows.get? key with
    | some row =>
      obtain ⟨first, hfirst⟩ := h.server.row row hrow
      have hsame : first = request := h.own first (by rw [hfirst.executions]; exact List.mem_singleton_self _)
      rw [hsame] at hfirst
      have hanswer := hfirst.answer (Set.injOn_singleton _ request.operation) rfl rfl
      exact h.answered hidle (receive_reserved hidle hscope hkey hrow now hanswer)
        (h.repeatAnswer.fitted _)
    | none =>
      have hstep := receive_new hidle hscope hkey hrow now
      have hnone := (h.server.fresh hrow).1
      have hdurable : request.isDurable = true := isDurable_iff.mpr ⟨hscope, key, hasKey_iff.mpr hkey⟩
      have hstarted : (s.server.step (.receive request now none)).executions key = [request] := by
        have hfull : (s.server.step (.receive request now none)).started = s.server.started ++ [request] := by
          simp only [TracedServer.step, hstep, hidle, hdurable, if_true]
        rw [TracedServer.executions, hfull, List.filter_append,
          show s.server.started.filter _ = [] from hnone, List.nil_append,
          List.filter_cons_of_pos (hasKey_iff.mpr hkey), List.filter_nil]
      have houtcomes := h.unbegun hnone
      have hreceive : s.receive request attempt now none = { s with
          server := s.server.step (.receive request now none)
          inbox := s.inbox.erase attempt
          serving := some attempt
          begun := s.begun + 1 } := by
        simp only [System.receive, hstep]
      have hphase : (s.server.step (.receive request now none)).server.phase = .executing request :=
        congrArg (fun next => next.1.phase) hstep
      rw [hreceive]
      refine ⟨h.server.receive trivial, fun other hmem => ?_, fun _ => ?_, fun hno => (by cases hno),
        fun hempty => ?_, h.once, fun _ _ _ => houtcomes, fun _ other reply hfinish => ?_, h.recorded, h.replies,
        h.call⟩
      · rw [hstarted] at hmem
        exact List.mem_singleton.mp hmem
      · dsimp only
        rw [hphase]
        rfl
      · rw [hstarted] at hempty
        cases hempty
      · rw [hphase] at hfinish
        cases hfinish

/-- A step of the daemon that is for no one or for another. -/
theorem Inv.other (h : s.Inv request key) {event : ServerEvent}
    (hserver : (s.server.step event).Inv Set.univ key) (hnone : s.serving = none)
    (hexecutions : (s.server.step event).executions key = s.server.executions key)
    (hrecorded : (s.server.step event).recordedFor key = s.server.recordedFor key)
    (hflight : ∀ other ∈ TracedServer.inFlight (s.server.step event).server.phase,
      other.hasKey key = false) :
    ({ s with server := s.server.step event } : System).Inv request key := by
  have hno : s.serving.isSome = true → False := fun hsome => by rw [hnone] at hsome; cases hsome
  refine ⟨hserver, ?_, fun hsome => (hno hsome).elim, fun _ => hflight, ?_, h.once, fun hsome => (hno hsome).elim,
    fun hsome => (hno hsome).elim, ?_, h.replies, h.call⟩
  · rw [hexecutions]
    exact h.own
  · rw [hexecutions]
    exact h.unbegun
  · rw [hrecorded]
    exact h.recorded

/-- The execution returns. -/
theorem Inv.execute (h : s.Inv request key) (hdurable : request.isDurable = true)
    (hkey : request.hasKey key = true) {other : Request}
    (hphase : s.server.server.phase = .executing other) (outcome : Except String SerdeJson.Value)
    (hserver : (s.server.step (.execute outcome)).Inv Set.univ key) :
    (s.daemon (.execute outcome)).Inv request key := by
  have hstep := Server.step_execute hphase outcome
  have hdaemon : s.daemon (.execute outcome) = { s with
      server := s.server.step (.execute outcome)
      outcomes := if s.serving.isSome then s.outcomes ++ [outcome] else s.outcomes } := by
    simp only [daemon, hphase]
  have hnext : (s.server.step (.execute outcome)).server.phase =
      .finishing other (Server.outcomeResponse other outcome) :=
    congrArg (fun next => next.1.phase) hstep
  cases hserving : s.serving with
  | none =>
    rw [if_neg (by rw [hserving]; decide)] at hdaemon
    have hothers := h.others hserving
    rw [hdaemon]
    refine h.other hserver hserving rfl rfl fun q hq => hothers q ?_
    rw [hnext] at hq
    rw [hphase]
    exact hq
  | some attempt =>
    have hsome : s.serving.isSome = true := by rw [hserving]; rfl
    have hsame : other = request := by
      have hflight := h.serving hsome
      rw [hphase] at hflight
      exact Option.some.inj hflight
    have hempty := h.executing hsome other hphase
    subst hsame
    rw [if_pos hsome, hempty, List.nil_append] at hdaemon
    rw [hdaemon]
    have hrecorded := h.recorded
    have hreplies := h.replies
    have hcall := h.call
    rw [hempty] at hrecorded hreplies hcall
    refine ⟨hserver, h.own, fun _ => by dsimp only; rw [hnext]; rfl, fun hno => ?_, fun hnone => ?_,
      le_rfl, fun _ q hq => ?_, fun _ q reply hq => ?_, fun entry hmem => (hrecorded entry hmem).grow,
      fun entry hmem => (hreplies entry hmem).grow, fun result hreturned => (hcall result hreturned).grow⟩
    · rw [hserving] at hno
      cases hno
    · obtain ⟨-, -, -, hexecutions⟩ := h.server.inFlight other (h.serving hsome) hdurable hkey
      cases hexecutions.symm.trans hnone
    · rw [hnext] at hq
      cases hq
    · rw [hnext] at hq
      cases hq
      exact ⟨outcome, rfl, rfl⟩

/-- The daemon replies and records. -/
theorem Inv.finish (h : s.Inv request key) {other : Request} {reply : Reply}
    (hphase : s.server.server.phase = .finishing other reply) (storeError : Option String)
    (hserver : (s.server.step (.finish storeError)).Inv Set.univ key) :
    (s.daemon (.finish storeError)).Inv request key := by
  obtain ⟨rows', reply', hfinal, -⟩ :=
    TracedServer.finalizeResponse_spec s.server.server.rows other reply storeError
  have hstep := Server.step_finish_final hphase storeError hfinal
  have hdaemon : s.daemon (.finish storeError) = { s with
      server := s.server.step (.finish storeError)
      serving := none
      replies := match s.serving with
        | some attempt => s.replies ++ [(attempt, reply')]
        | none => s.replies } := by
    simp only [daemon, hphase, hstep]
    rfl
  have hflight : TracedServer.inFlight (s.server.step (.finish storeError)).server.phase = none :=
    congrArg (fun next => TracedServer.inFlight next.1.phase) hstep
  -- What is recorded besides what was is the reply, for the request that is being handled.
  have hrecorded : ∀ entry ∈ (s.server.step (.finish storeError)).recordedFor key,
      entry ∈ s.server.recordedFor key ∨ entry = (other, reply') ∧ other.hasKey key = true := by
    intro entry hmem
    obtain ⟨hmem, hhas⟩ := List.mem_filter.mp hmem
    have hcases : entry ∈ s.server.recorded ∨ entry = (other, reply') := by
      cases storeError with
      | some error => exact .inl hmem
      | none =>
        simp only [TracedServer.step, hphase, hstep] at hmem
        split_ifs at hmem
        · exact (List.mem_append.mp hmem).imp id List.mem_singleton.mp
        · exact .inl hmem
    rcases hcases with hold | rfl
    · exact .inl (List.mem_filter.mpr ⟨hold, hhas⟩)
    · exact .inr ⟨rfl, hhas⟩
  have hreply : s.serving.isSome = true → Answers request s.outcomes reply' := by
    intro hsome
    have hinFlight := h.serving hsome
    rw [hphase] at hinFlight
    have hsame : other = request := Option.some.inj hinFlight
    subst hsame
    obtain ⟨outcome, houtcomes, hresponse⟩ := h.finishing hsome other reply hphase
    rcases finalizeResponse_reply hfinal with hsent | ⟨message, hsent⟩
    · rw [hsent]
      exact .fitted (.outcome outcome houtcomes hresponse) _
    · rw [hsent]
      exact .fitted (.failure (List.mem_of_getElem? (i := 1) rfl)) _
  rw [hdaemon]
  refine ⟨hserver, h.own, fun hno => (by cases hno), fun _ q hq => ?_, h.unbegun, h.once, fun hno => (by cases hno),
    fun hno => (by cases hno), fun entry hmem => ?_, fun entry hmem => ?_, h.call⟩
  · rw [hflight] at hq
    cases hq
  · rcases hrecorded entry hmem with hold | ⟨rfl, hhas⟩
    · exact h.recorded entry hold
    · cases hserving : s.serving with
      | none =>
        have hnot := h.others hserving other (by rw [hphase]; rfl)
        rw [hnot] at hhas
        cases hhas
      | some attempt => exact hreply (by rw [hserving]; rfl)
  · cases hserving : s.serving with
    | none =>
      rw [hserving] at hmem
      exact h.replies entry hmem
    | some attempt =>
      rw [hserving] at hmem
      rcases List.mem_append.mp hmem with hmem | hmem
      · exact h.replies entry hmem
      · rw [List.mem_singleton.mp hmem]
        exact hreply (by rw [hserving]; rfl)

theorem Inv.daemon (h : s.Inv request key) (hdurable : request.isDurable = true)
    (hkey : request.hasKey key = true) {event : ServerEvent} (hfresh : Fresh key (.daemon event))
    (hserver : (s.server.step event).Inv Set.univ key) : (s.daemon event).Inv request key := by
  have hstuck : s.server.server.step event = (s.server.server, none) →
      s.daemon event = { s with server := s.server.step event } → (s.daemon event).Inv request key := by
    intro hstep hdaemon
    rw [hdaemon, TracedServer.step_stuck hstep]
    exact h
  cases event with
  | receive other now storeError =>
    have hother := hfresh other now storeError rfl
    by_cases hidle : s.server.server.phase = .idle
    · refine h.other hserver (h.serving_eq_none hidle) (TracedServer.executions_receive hother)
        (TracedServer.recordedFor_step fun _ heq => (by cases heq)) fun q hq => ?_
      have hphase : (s.server.step (.receive other now storeError)).server.phase = .idle ∨
          (s.server.step (.receive other now storeError)).server.phase = .executing other :=
        receive_phase hidle other now storeError
      rcases hphase with hphase | hphase
      · rw [hphase] at hq
        cases hq
      · rw [hphase] at hq
        cases hq
        exact hother
    · exact hstuck (Server.step_receive_busy hidle other now storeError) rfl
  | execute outcome =>
    cases hphase : s.server.server.phase with
    | executing other => exact h.execute hdurable hkey hphase outcome hserver
    | down | idle | finishing =>
      refine hstuck (Server.step_execute_other (fun _ hq => ?_) outcome) (by simp only [System.daemon, hphase])
      rw [hphase] at hq
      cases hq
  | finish storeError =>
    cases hphase : s.server.server.phase with
    | finishing other reply => exact h.finish hphase storeError hserver
    | down | idle | executing =>
      refine hstuck (Server.step_finish_other (fun _ _ hq => ?_) storeError)
        (by simp only [System.daemon, hphase])
      rw [hphase] at hq
      cases hq
  | crash =>
    have hphase : (s.server.step .crash).server.phase = .down :=
      congrArg (fun next => next.1.phase) Server.step_crash
    refine ⟨hserver, h.own, fun hno => (by cases hno), fun _ q hq => ?_, h.unbegun, h.once,
      fun hno => (by cases hno), fun hno => (by cases hno), h.recorded, h.replies, h.call⟩
    change q ∈ TracedServer.inFlight (s.server.step .crash).server.phase at hq
    rw [hphase] at hq
    cases hq
  | reopen cutoff =>
    by_cases hdown : s.server.server.phase = .down
    · have hnone : s.serving = none := by
        cases hserving : s.serving with
        | none => rfl
        | some attempt =>
          have hflight := h.serving (by rw [hserving]; rfl)
          rw [hdown] at hflight
          cases hflight
      refine h.other hserver hnone rfl rfl fun q hq => ?_
      have hphase : (s.server.step (.reopen cutoff)).server.phase = .idle :=
        congrArg (fun next => next.1.phase) (Server.step_reopen hdown cutoff)
      rw [hphase] at hq
      cases hq
    · exact hstuck (Server.step_reopen_other hdown cutoff) rfl

theorem daemon_server (s : System) (event : ServerEvent) :
    (s.daemon event).server = s.server.step event := by
  delta System.daemon
  dsimp only
  split <;> rfl

theorem Inv.step (h : s.Inv request key) (hscope : request.operation.idempotencyScope = .durable)
    (hkey : request.idempotencyKey = some key) {event : SystemEvent} (hfresh : Fresh key event)
    (hkeeps : KeepsRecord request key s event) : (s.step request event).Inv request key := by
  have hdurable : request.isDurable = true := isDurable_iff.mpr ⟨hscope, key, hasKey_iff.mpr hkey⟩
  cases event with
  | connect =>
    rw [System.step]
    split
    · exact h.client rfl rfl rfl rfl fun _ hno => (by cases hno)
    · exact h
  | write =>
    rw [System.step]
    split
    · exact h.client rfl rfl rfl rfl fun _ hno => (by cases hno)
    · exact h
  | fail =>
    have hretry : ∀ attempt, ({ s with call := retry request attempt } : System).Inv request key := by
      intro attempt
      refine h.client rfl rfl rfl rfl fun outcome hreturned => ?_
      change retry request attempt = _ at hreturned
      rw [retry] at hreturned
      split_ifs at hreturned
      · cases hreturned
        trivial
      · cases hreturned
        trivial
    rw [System.step]
    split
    · exact hretry _
    · exact hretry _
    · exact hretry _
    · exact h
  | abort =>
    rw [System.step]
    split
    · refine h.client rfl rfl rfl rfl fun outcome hreturned => ?_
      cases hreturned
      trivial
    · exact h
  | lose attempt => exact h.client rfl rfl rfl rfl h.call
  | receive attempt now storeError =>
    rw [System.step]
    split
    · rename_i hidle
      split_ifs
      · exact h.receive hscope hkey hidle attempt now storeError
      · exact h
    · exact h
  | daemon event =>
    have hrecord : s.server.KeepsRecord key event := by
      intro hsome
      have hkept := hkeeps hsome
      rwa [System.step, daemon_server] at hkept
    exact h.daemon hdurable (hasKey_iff.mpr hkey) hfresh (h.server.step hrecord fun _ _ _ _ => trivial)
  | read =>
    rw [System.step]
    split
    · rename_i attempt _
      split
      · rename_i reply hreply
        refine h.client rfl rfl rfl rfl fun outcome hreturned => ?_
        cases hreturned
        obtain ⟨_, _, hreplies, -⟩ := List.lookup_eq_some_iff.mp hreply
        exact (h.replies (attempt, reply) (by rw [hreplies]; exact List.mem_append_cons_self)).conclude
      · exact h
    · exact h

/-! How many frames are written. -/

/-- A call has attempts left for the frames that it will write. -/
def Written (request : Request) (s : System) : Prop :=
  match s.call with
  | .ready attempt | .connected attempt => s.written ≤ attempt ∧ attempt < attempts request
  | .waiting attempt => s.written ≤ attempt + 1 ∧ attempt < attempts request
  | .returned _ => s.written ≤ attempts request

/-- The executions are of frames that were written. -/
structure Counted (request : Request) (s : System) : Prop where
  begun : s.begun + s.inbox.length ≤ s.written
  written : s.Written request

omit [Blake3] in
theorem counted_initial : initial.Counted request := by
  refine ⟨Nat.le_refl 0, Nat.le_refl 0, ?_⟩
  rw [attempts]
  split_ifs <;> decide

omit [Blake3] in
theorem Written.retry {attempt : ℕ} (hwritten : s.written ≤ attempt + 1)
    (hattempt : attempt < attempts request) :
    ({ s with call := retry request attempt } : System).Written request := by
  rw [Written, Workspace.retry]
  split_ifs with hmore
  · exact ⟨hwritten, hmore⟩
  · exact hwritten.trans hattempt
  · exact hwritten.trans hattempt

theorem receive_counted (h : s.Counted request) {attempt : ℕ} (hmem : attempt ∈ s.inbox) (now : ℤ)
    (storeError : Option String) : (s.receive request attempt now storeError).Counted request := by
  have hbegun := h.begun
  have hlength := List.length_erase_of_mem hmem
  have hpos := List.length_pos_of_mem hmem
  rw [receive]
  dsimp only
  split
  · refine ⟨?_, h.written⟩
    change s.begun + 1 + (s.inbox.erase attempt).length ≤ s.written
    omega
  · refine ⟨?_, h.written⟩
    change s.begun + (s.inbox.erase attempt).length ≤ s.written
    omega

theorem daemon_counted (h : s.Counted request) (event : ServerEvent) :
    (s.daemon event).Counted request := by
  delta System.daemon
  dsimp only
  split
  · exact ⟨(Nat.le_add_right _ _).trans h.begun, h.written⟩
  · exact ⟨h.begun, h.written⟩
  · exact ⟨h.begun, h.written⟩
  · exact ⟨h.begun, h.written⟩

theorem step_counted (s : System) (event : SystemEvent) (h : s.Counted request) :
    (s.step request event).Counted request := by
  have hwritten := h.written
  rw [Written] at hwritten
  cases event with
  | connect =>
    rw [step]
    split
    · rename_i attempt hcall
      rw [hcall] at hwritten
      exact ⟨h.begun, hwritten⟩
    · exact h
  | write =>
    rw [step]
    split
    · rename_i attempt hcall
      rw [hcall] at hwritten
      refine ⟨?_, Nat.succ_le_succ hwritten.1, hwritten.2⟩
      rw [List.length_append]
      exact Nat.succ_le_succ h.begun
    · exact h
  | fail =>
    rw [step]
    split
    · rename_i attempt hcall
      rw [hcall] at hwritten
      exact ⟨h.begun, .retry (Nat.le_succ_of_le hwritten.1) hwritten.2⟩
    · rename_i attempt hcall
      rw [hcall] at hwritten
      exact ⟨h.begun, .retry (Nat.le_succ_of_le hwritten.1) hwritten.2⟩
    · rename_i attempt hcall
      rw [hcall] at hwritten
      exact ⟨h.begun, .retry hwritten.1 hwritten.2⟩
    · exact h
  | abort =>
    rw [step]
    split
    · rename_i attempt hcall
      rw [hcall] at hwritten
      exact ⟨h.begun, hwritten.1.trans hwritten.2.le⟩
    · exact h
  | lose attempt =>
    refine ⟨?_, h.written⟩
    have hle := List.length_erase_le (a := attempt) (l := s.inbox)
    have hbegun := h.begun
    change s.begun + (s.inbox.erase attempt).length ≤ s.written
    omega
  | receive attempt now storeError =>
    rw [step]
    split
    · split_ifs with hmem
      · exact receive_counted h hmem now storeError
      · exact h
    · exact h
  | daemon event => exact daemon_counted h event
  | read =>
    rw [step]
    split
    · rename_i attempt hcall
      split
      · rw [hcall] at hwritten
        exact ⟨h.begun, hwritten.1.trans hwritten.2⟩
      · exact h
    · exact h

omit [Blake3] in
theorem Counted.written_le (h : s.Counted request) : s.written ≤ attempts request := by
  have hwritten := h.written
  rw [Written] at hwritten
  split at hwritten
  · exact hwritten.1.trans hwritten.2.le
  · exact hwritten.1.trans hwritten.2.le
  · exact hwritten.1.trans hwritten.2
  · exact hwritten

end System

/-- However attempts fail, frames and replies come late or are lost, others are served, the store
fails and the daemon crashes and is opened again: a call writes at most as many frames as it has
attempts, one for an operation whose scope is the process, and the daemon begins to execute no more
than were written. With a durable key of its own, whose record is not pruned, the operation is
executed at most once; a result that the call returns is what that execution returned, a remote error
is what it failed with or one of three that do not say, never a conflict, and every response passes
the checks of the client when its request id is not too long. -/
theorem call_at_most_once (request : Request) (events : List SystemEvent) :
    (System.run request events).begun ≤ (System.run request events).written ∧
    (System.run request events).written ≤ attempts request ∧
    (request.operation.idempotencyScope = .processLocal → (System.run request events).begun ≤ 1) ∧
    ∀ key, request.operation.idempotencyScope = .durable → request.idempotencyKey = some key →
      (∀ event ∈ events, System.Fresh key event) →
      Run.Along (System.KeepsRecord request key) (System.step request) .initial events →
      ((System.run request events).server.executions key).length ≤ 1 ∧
      ((System.run request events).server.executions key = [] →
        (System.run request events).outcomes = []) ∧
      (System.run request events).outcomes.length ≤ 1 ∧
      ∀ outcome, (System.run request events).call = .returned outcome →
        Concluded request (System.run request events).outcomes outcome := by
  have hcounted : (System.run request events).Counted request :=
    Run.foldl_keeps System.step_counted events _ System.counted_initial
  have hbegun := (Nat.le_add_right _ _).trans hcounted.begun
  have hwritten := hcounted.written_le
  refine ⟨hbegun, hwritten, fun hlocal => ?_, fun key hscope hkey hfresh hkeeps => ?_⟩
  · rw [attempts, if_pos hlocal] at hwritten
    exact hbegun.trans hwritten
  · have hC := Run.along_and_of_mem (P := System.Fresh key) events _ hkeeps hfresh
    have hinv : (System.run request events).Inv request key :=
      Run.foldl_invariant (fun s event hc h => h.step hscope hkey hc.2 hc.1) events _ hC
        System.inv_initial
    exact ⟨hinv.server.executions_length, hinv.unbegun, hinv.once, hinv.call⟩

end

namespace TestVectors

/-- The reply to the first attempt is lost with the daemon; the second is answered from the row. -/
def lostReply : List SystemEvent :=
  [.daemon (.reopen 0), .connect, .write, .receive 0 0 none, .daemon (.execute (.ok "closed")),
    .daemon (.finish none), .fail, .daemon .crash, .daemon (.reopen 0), .connect, .write,
    .receive 1 1 none, .read]

def isResult : CallPhase → Bool
  | .returned (.result _) => true
  | _ => false

theorem call_at_most_once_lostReply :
    ∃ value, (System.run (closeRequest "a" "s") lostReply).call = .returned (.result (some value)) ∧
      (System.run (closeRequest "a" "s") lostReply).outcomes = [.ok value] ∧
      (System.run (closeRequest "a" "s") lostReply).written = 2 := by
  have hresult : isResult (System.run (closeRequest "a" "s") lostReply).call = true := by
    decide +kernel
  obtain ⟨value, hcall⟩ :
      ∃ value, (System.run (closeRequest "a" "s") lostReply).call = .returned (.result value) := by
    cases hcall : (System.run (closeRequest "a" "s") lostReply).call with
    | returned outcome =>
      cases outcome with
      | result value => exact ⟨value, rfl⟩
      | _ => rw [hcall] at hresult; cases hresult
    | _ => rw [hcall] at hresult; cases hresult
  have hfresh : ∀ event ∈ lostReply, System.Fresh "k" event := by
    intro event hmem other now storeError heq
    rw [heq] at hmem
    simp [lostReply] at hmem
  have hconcluded := ((call_at_most_once (closeRequest "a" "s") lostReply).2.2.2 "k" rfl rfl hfresh
    (by decide +kernel)).2.2.2 _ hcall
  obtain ⟨v, rfl, houtcomes⟩ := hconcluded
  exact ⟨v, hcall, houtcomes, by decide +kernel⟩

end TestVectors

end Workspace
