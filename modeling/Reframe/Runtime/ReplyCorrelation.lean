import Reframe.Runtime.InvocationStream
import Reframe.Runtime.SessionIsolation

/-! The ids of replies. Responses and events carry the texts of the request's ids; a protocol fault
carries the ids as they are rendered after parsing. -/
namespace Router
open Runtime (Contract EventSequence HostFailure InvocationEvent InvocationMode InvocationOutput
  InvocationRun RunEvent Sent SinkOutcome UuidParser ValidationError validateUuid)

/-! Envelope validation, as far as it concerns the ids and the version. -/

/-- The `uuid` crate: parsing and rendering. The empty text is no UUID. -/
class UuidText (U : outParam Type) where
  parse : String → Option U
  render : U → String
  parse_empty : parse "" = none

instance {U : Type} [UuidText U] : UuidParser := ⟨fun text => (UuidText.parse text).isSome⟩

inductive EnvelopeError where
  | field (error : ValidationError)
  | invalidVersion (version : ProtocolVersion) (reason : String)
  | unsupportedVersion (found supported : ProtocolVersion)
  deriving DecidableEq, Repr

def EnvelopeError.toString : EnvelopeError → String
  | .field error => error.toString
  | .invalidVersion version reason =>
    "invalid protocol version " ++ showVersion version.major version.minor ++ ": " ++ reason
  | .unsupportedVersion found supported =>
    "protocol version " ++ showVersion found.major found.minor ++
      " is unsupported; host supports " ++ showVersion supported.major supported.minor

def validationFault (error : EnvelopeError) : ProtocolFault :=
  match error with
  | .unsupportedVersion _ _ => .new .unsupportedProtocolVersion error.toString
  | _ => .new .invalidEnvelope error.toString

def ProtocolVersion.validate (version : ProtocolVersion) : Except EnvelopeError Unit :=
  if version.major = 0 then
    .error (.invalidVersion version "major version must be non-zero")
  else .ok ()

def ProtocolVersion.ensureSupported (version : ProtocolVersion) : Except EnvelopeError Unit := do
  version.validate
  if version.major ≠ currentProtocolVersion.major ∨
      currentProtocolVersion.minor < version.minor then
    .error (.unsupportedVersion version currentProtocolVersion)
  else .ok ()

section

variable {U S Q B : Type} [UuidText U]

def parseUuid (field value : String) : Except ValidationError U :=
  if 45 < JsonText.byteLength value.toList then .error (.invalidUuid field)
  else
    match UuidText.parse value with
    | some uuid => .ok uuid
    | none => .error (.invalidUuid field)

def Message.validateVersion (message : Message Q) (protocol : ProtocolVersion) :
    Except EnvelopeError Unit :=
  match message with
  | .openStore _ _ _ => do
    protocol.validate
    if protocol.major ≠ currentProtocolVersion.major then
      .error (.unsupportedVersion protocol currentProtocolVersion)
    else .ok ()
  | _ => protocol.ensureSupported

/-- Of the messages of the host, those that need a session are left to the check of contents. -/
def Message.requiresSession : Message Q → Bool
  | .openStore _ _ _ | .hostMessage => false
  | _ => true

/-- `contents` is what follows the checks of ids and versions. -/
def Envelope.validate (contents : Envelope Q → Except EnvelopeError Unit) (envelope : Envelope Q) :
    Except EnvelopeError Unit :=
  match envelope.protocolVersion with
  | none => .error (.field (.missingField "protocol_version"))
  | some protocol => do
    (validateUuid "request_id" envelope.requestId).mapError .field
    match envelope.message with
    | none => .error (.field (.missingField "message"))
    | some message => do
      message.validateVersion protocol
      if message.requiresSession ∨ envelope.sessionId ≠ "" then do
        (validateUuid "session_id" envelope.sessionId).mapError .field
        contents envelope
      else contents envelope

/-- `replacement` is the version 4 UUID that is drawn when the request id is none. -/
def ReplyMetadata.forRequest (replacement : String) (request : Envelope Q) : ReplyMetadata where
  protocol :=
    match request.protocolVersion with
    | some version =>
      match version.ensureSupported with
      | .ok () => version
      | .error _ => currentProtocolVersion
    | none => currentProtocolVersion
  requestId :=
    match parseUuid "request_id" request.requestId with
    | .ok uuid => UuidText.render uuid
    | .error _ => replacement
  sessionId :=
    match parseUuid "session_id" request.sessionId with
    | .ok uuid => UuidText.render uuid
    | .error _ => ""

/-- A host that validates its envelopes and makes up the ids of faults in this way. -/
def Host.withEnvelopes (host : Host S Q B) (contents : Envelope Q → Except EnvelopeError Unit)
    (replacement : Envelope Q → String) : Host S Q B :=
  { host with
    validate := fun envelope =>
      match envelope.validate contents with
      | .ok () => none
      | .error error => some (validationFault error)
    replyMetadata := fun envelope => .forRequest (replacement envelope) envelope }

/-- The text is the one that its UUID is rendered as. -/
def IsRendered (text : String) : Prop := (UuidText.parse text).map UuidText.render = some text

/-- The ids of the request are rendered UUIDs, or there is no session id. -/
def Canonical (envelope : Envelope Q) : Prop :=
  IsRendered envelope.requestId ∧ (envelope.sessionId = "" ∨ IsRendered envelope.sessionId)

theorem validateUuid_ok {field value : String} (h : validateUuid field value = .ok ()) :
    ¬45 < JsonText.byteLength value.toList ∧ ∃ uuid, UuidText.parse value = some uuid := by
  unfold validateUuid at h
  split_ifs at h with hlong hparse
  exact ⟨hlong, Option.isSome_iff_exists.mp hparse⟩

theorem validateUuid_mapError_ok {field value : String}
    (h : (validateUuid field value).mapError EnvelopeError.field = .ok ()) :
    ¬45 < JsonText.byteLength value.toList ∧ ∃ uuid, UuidText.parse value = some uuid := by
  cases hvalid : validateUuid field value with
  | error error =>
    rw [hvalid] at h
    cases h
  | ok result => exact validateUuid_ok hvalid

/-- What a valid envelope's ids are. -/
theorem Envelope.validate_ok {contents : Envelope Q → Except EnvelopeError Unit}
    {envelope : Envelope Q} (h : envelope.validate contents = .ok ()) :
    (¬45 < JsonText.byteLength envelope.requestId.toList ∧
      ∃ uuid, UuidText.parse envelope.requestId = some uuid) ∧
    (envelope.sessionId = "" ∨ ¬45 < JsonText.byteLength envelope.sessionId.toList ∧
      ∃ uuid, UuidText.parse envelope.sessionId = some uuid) := by
  unfold Envelope.validate at h
  cases hprotocol : envelope.protocolVersion with
  | none =>
    rw [hprotocol] at h
    cases h
  | some protocol =>
    rw [hprotocol] at h
    obtain ⟨⟨⟩, hrequest, h⟩ := Run.bind_eq_ok.mp h
    refine ⟨validateUuid_mapError_ok hrequest, ?_⟩
    cases hmessage : envelope.message with
    | none =>
      rw [hmessage] at h
      cases h
    | some message =>
      rw [hmessage] at h
      obtain ⟨⟨⟩, -, h⟩ := Run.bind_eq_ok.mp h
      by_cases hchecked : message.requiresSession = true ∨ envelope.sessionId ≠ ""
      · rw [if_pos hchecked] at h
        obtain ⟨⟨⟩, hsession, -⟩ := Run.bind_eq_ok.mp h
        exact .inr (validateUuid_mapError_ok hsession)
      · exact .inl (not_not.mp (not_or.mp hchecked).2)

theorem parseUuid_ok {field value : String} {uuid : U}
    (hshort : ¬45 < JsonText.byteLength value.toList) (hparse : UuidText.parse value = some uuid) :
    parseUuid field value = .ok uuid := by
  rw [parseUuid, if_neg hshort, hparse]

theorem isRendered_iff {value : String} {uuid : U} (hparse : UuidText.parse value = some uuid) :
    IsRendered value ↔ UuidText.render uuid = value := by
  rw [IsRendered, hparse, Option.map_some, Option.some_inj]

/-- A fault for a valid envelope carries its ids exactly when these are canonical. -/
theorem ReplyMetadata.forRequest_eq_iff {contents : Envelope Q → Except EnvelopeError Unit}
    {envelope : Envelope Q} (h : envelope.validate contents = .ok ()) (replacement : String) :
    (ReplyMetadata.forRequest replacement envelope).requestId = envelope.requestId ∧
      (ReplyMetadata.forRequest replacement envelope).sessionId = envelope.sessionId ↔
        Canonical envelope := by
  obtain ⟨⟨hshort, uuid, hparse⟩, hsession⟩ := Envelope.validate_ok h
  have hrequest : (ReplyMetadata.forRequest replacement envelope).requestId =
      UuidText.render uuid := by
    simp only [ReplyMetadata.forRequest, parseUuid_ok hshort hparse]
  rw [Canonical, isRendered_iff hparse, hrequest]
  apply and_congr_right
  intro _
  rcases hsession with hempty | ⟨hshort', uuid', hparse'⟩
  · have hnone : parseUuid "session_id" "" = .error (.invalidUuid "session_id") := by
      rw [parseUuid, if_neg (by decide), UuidText.parse_empty]
    simp only [ReplyMetadata.forRequest, hempty, hnone, true_or]
  · have hne : envelope.sessionId ≠ "" := by
      intro hempty
      rw [hempty, UuidText.parse_empty] at hparse'
      cases hparse'
    simp only [ReplyMetadata.forRequest, parseUuid_ok hshort' hparse', isRendered_iff hparse', hne,
      false_or]

end

/-! What a step writes of calls, tasks and replies. -/

section

variable {S Q B : Type} {s : State S Q B} {writes : List (Write S Q B)} {key : Key}

theorem calls_writeAll {call : Call S Q B}
    (h : (s.writeAll writes).calls.get? key = some call) :
    .call key call ∈ writes ∨ s.calls.get? key = some call := by
  induction writes generalizing s with
  | nil => exact .inr h
  | cons write writes ih =>
    rcases ih h with hmem | hget
    · exact .inl (List.mem_cons_of_mem _ hmem)
    · cases write with
      | call other next =>
        change (s.calls.insert other next).get? key = some call at hget
        rw [FiniteMap.get?_insert] at hget
        split_ifs at hget with heq
        · cases hget
          rw [heq]
          exact .inl List.mem_cons_self
        · exact .inr hget
      | unroute other =>
        simp only [State.write] at hget
        split at hget <;> exact .inr hget
      | session other op =>
        simp only [State.write] at hget
        split at hget <;> exact .inr hget
      | _ => exact .inr hget

variable (writes) in
/-- A call stays, and is changed only by a write to it. -/
theorem calls_writeAll_of {call : Call S Q B} (h : s.calls.get? key = some call) :
    ∃ call', (s.writeAll writes).calls.get? key = some call' := by
  induction writes generalizing s call with
  | nil => exact ⟨call, h⟩
  | cons write writes ih =>
    have hwrite : ∃ call', (s.write write).calls.get? key = some call' := by
      cases write with
      | call other next =>
        change ∃ call', (s.calls.insert other next).get? key = some call'
        rw [FiniteMap.get?_insert]
        split_ifs
        · exact ⟨next, rfl⟩
        · exact ⟨call, h⟩
      | unroute other =>
        simp only [State.write]
        split <;> exact ⟨call, h⟩
      | session other op =>
        simp only [State.write]
        split <;> exact ⟨call, h⟩
      | _ => exact ⟨call, h⟩
    obtain ⟨call', hcall'⟩ := hwrite
    exact ih hcall'

theorem tasks_writeAll {task : Task} (h : (s.writeAll writes).tasks.get? key = some task) :
    .task key task ∈ writes ∨ s.tasks.get? key = some task := by
  induction writes generalizing s with
  | nil => exact .inr h
  | cons write writes ih =>
    rcases ih h with hmem | hget
    · exact .inl (List.mem_cons_of_mem _ hmem)
    · cases write with
      | task other next =>
        change (s.tasks.insert other next).get? key = some task at hget
        rw [FiniteMap.get?_insert] at hget
        split_ifs at hget with heq
        · cases hget
          rw [heq]
          exact .inl List.mem_cons_self
        · exact .inr hget
      | unroute other =>
        simp only [State.write] at hget
        split at hget <;> exact .inr hget
      | session other op =>
        simp only [State.write] at hget
        split at hget <;> exact .inr hget
      | _ => exact .inr hget

theorem sent_writeAll {reply : Reply B} (h : (key, reply) ∈ (s.writeAll writes).sent) :
    .send key reply ∈ writes ∨ (key, reply) ∈ s.sent := by
  induction writes generalizing s with
  | nil => exact .inr h
  | cons write writes ih =>
    rcases ih h with hmem | hget
    · exact .inl (List.mem_cons_of_mem _ hmem)
    · cases write with
      | send other next =>
        rcases List.mem_append.mp hget with hget | hget
        · exact .inr hget
        · cases List.mem_singleton.mp hget
          exact .inl List.mem_cons_self
      | unroute other =>
        simp only [State.write] at hget
        split at hget <;> exact .inr hget
      | session other op =>
        simp only [State.write] at hget
        split at hget <;> exact .inr hget
      | _ => exact .inr hget

end

/-! The ids that the runtime keeps for a request. -/

/-- The session that a request for an open session is about. -/
def Stage.serves {S B : Type} : Stage S B → Option Key
  | .begin target | .beginRefused target | .routed target | .adding target | .addRefused target
  | .starting target | .notStarted target _ | .cancelWait target _ _ | .completedCheck target _
  | .closing target _ _ _ | .replying target _ | .leaving target
  | .failing _ (some target) => some target
  | _ => none

/-- The response that the call is about to send. -/
def Stage.response {S B : Type} : Stage S B → Option (ReplyMessage B)
  | .replying _ message => some message
  | _ => none

def ReplyMessage.isFault {B : Type} : ReplyMessage B → Bool
  | .error _ => true
  | _ => false

def ReplyMessage.isOpened {B : Type} : ReplyMessage B → Bool
  | .opened .. => true
  | _ => false

section

variable {S Q B : Type}

/-- The ids are those of the request. -/
def ReplyMetadata.Matches (metadata : ReplyMetadata) (envelope : Envelope Q) : Prop :=
  metadata.requestId = envelope.requestId ∧ metadata.sessionId = envelope.sessionId

/-- The request is about this session. -/
def About (s : State S Q B) (envelope : Envelope Q) (target : Key) : Prop :=
  ∃ session, s.table.get? target = some session ∧ session.id = envelope.sessionId

/-- Faults have the ids made up for them, a new session is announced by its own id, and all else
has the ids of the request. -/
structure ReplyOk (host : Host S Q B) (s : State S Q B) (key : Key) (envelope : Envelope Q)
    (reply : Reply B) : Prop where
  fault : reply.message.isFault = true → reply.metadata = host.replyMetadata envelope
  opened : reply.message.isOpened = true → reply.metadata.requestId = envelope.requestId ∧
    ∃ session, s.table.get? key = some session ∧ reply.metadata.sessionId = session.id
  other : reply.message.isFault = false → reply.message.isOpened = false →
    reply.metadata.Matches envelope

structure StageOk (s : State S Q B) (call : Call S Q B) : Prop where
  serves : ∀ target, call.stage.serves = some target → About s call.envelope target
  response : ∀ message, call.stage.response = some message →
    message.isFault = false ∧ message.isOpened = false

structure Correlated (host : Host S Q B) (s : State S Q B) : Prop where
  calls : ∀ key call, s.calls.get? key = some call → StageOk s call
  tasks : ∀ key task, s.tasks.get? key = some task →
    ∃ call, s.calls.get? key = some call ∧ task.metadata.Matches call.envelope
  sent : ∀ key reply, (key, reply) ∈ s.sent →
    ∃ call, s.calls.get? key = some call ∧ ReplyOk host s key call.envelope reply

/-- What a step may write. -/
def Write.Fits (host : Host S Q B) (s : State S Q B) : Write S Q B → Prop
  | .call key next => StageOk s next ∧
      ∀ call, s.calls.get? key = some call → next.envelope = call.envelope
  | .task key next => ∃ call, s.calls.get? key = some call ∧ next.metadata.Matches call.envelope
  | .send key reply => ∃ call, s.calls.get? key = some call ∧
      ReplyOk host s key call.envelope reply
  | _ => True

theorem About.mono {s t : State S Q B} {envelope : Envelope Q} {target : Key}
    (h : About s envelope target) (hext : Extends s t) : About t envelope target := by
  obtain ⟨session, hsession, hid⟩ := h
  obtain ⟨session', hsession', hlater⟩ := hext.table target session hsession
  exact ⟨session', hsession', hlater.id_eq.trans hid⟩

theorem StageOk.mono {s t : State S Q B} {call : Call S Q B} (h : StageOk s call)
    (hext : Extends s t) : StageOk t call :=
  ⟨fun target htarget => (h.serves target htarget).mono hext, h.response⟩

theorem ReplyOk.mono {host : Host S Q B} {s t : State S Q B} {key : Key} {envelope : Envelope Q}
    {reply : Reply B} (h : ReplyOk host s key envelope reply) (hext : Extends s t) :
    ReplyOk host t key envelope reply := by
  refine ⟨h.fault, fun hopened => ?_, h.other⟩
  obtain ⟨hrequest, session, hsession, hid⟩ := h.opened hopened
  obtain ⟨session', hsession', hlater⟩ := hext.table key session hsession
  exact ⟨hrequest, session', hsession', hid.trans hlater.id_eq.symm⟩

/-- Writes that fit keep the ids in order. -/
theorem Correlated.writeAll {host : Host S Q B} {s : State S Q B} {writes : List (Write S Q B)}
    (h : Correlated host s) (hfits : ∀ write ∈ writes, write.Fits host s)
    (hext : Extends s (s.writeAll writes)) : Correlated host (s.writeAll writes) := by
  have hkept {key : Key} {call : Call S Q B} (hcall : s.calls.get? key = some call) :
      ∃ call', (s.writeAll writes).calls.get? key = some call' ∧
        call'.envelope = call.envelope := by
    obtain ⟨call', hcall'⟩ := calls_writeAll_of writes hcall
    refine ⟨call', hcall', ?_⟩
    rcases calls_writeAll hcall' with hmem | hold
    · exact (hfits _ hmem).2 call hcall
    · rw [hcall] at hold
      cases hold
      rfl
  refine ⟨fun key call hcall => ?_, fun key task htask => ?_, fun key reply hreply => ?_⟩
  · rcases calls_writeAll hcall with hmem | hold
    · exact (hfits _ hmem).1.mono hext
    · exact (h.calls key call hold).mono hext
  · obtain ⟨call, hcall, hmatches⟩ : ∃ call, s.calls.get? key = some call ∧
        task.metadata.Matches call.envelope := by
      rcases tasks_writeAll htask with hmem | hold
      · exact hfits _ hmem
      · exact h.tasks key task hold
    obtain ⟨call', hcall', henvelope⟩ := hkept hcall
    exact ⟨call', hcall', by rwa [henvelope]⟩
  · obtain ⟨call, hcall, hok⟩ : ∃ call, s.calls.get? key = some call ∧
        ReplyOk host s key call.envelope reply := by
      rcases sent_writeAll hreply with hmem | hold
      · exact hfits _ hmem
      · exact h.sent key reply hold
    obtain ⟨call', hcall', henvelope⟩ := hkept hcall
    refine ⟨call', hcall', ?_⟩
    rw [henvelope]
    exact hok.mono hext

end

/-! Every step fits. -/

section

variable {S Q B : Type} {host : Host S Q B} {config : RuntimeConfig} {s : State S Q B} {key : Key}
  {call : Call S Q B} {draw : String} {delivered : Bool}

theorem fits_one {write : Write S Q B} (h : write.Fits host s) :
    ∀ other ∈ [write], other.Fits host s := by
  simpa using h

theorem fits_pair {write write' : Write S Q B} (h : write.Fits host s) (h' : write'.Fits host s) :
    ∀ other ∈ [write, write'], other.Fits host s := by
  simpa using ⟨h, h'⟩

/-- The call goes on, still about the same session. -/
theorem fits_goto (hcall : s.calls.get? key = some call) {stage : Stage S B}
    (hserves : ∀ target, stage.serves = some target → About s call.envelope target)
    (hresponse : ∀ message, stage.response = some message →
      message.isFault = false ∧ message.isOpened = false) :
    (Write.call key { call with stage := stage } : Write S Q B).Fits host s := by
  refine ⟨⟨hserves, hresponse⟩, fun other hother => ?_⟩
  rw [hcall] at hother
  cases hother
  rfl

/-- The call goes on with nothing in its hands. -/
theorem fits_free (hcall : s.calls.get? key = some call) {stage : Stage S B}
    (hserves : stage.serves = none) (hresponse : stage.response = none) :
    (Write.call key { call with stage := stage } : Write S Q B).Fits host s := by
  apply fits_goto hcall
  · intro target htarget
    rw [hserves] at htarget
    cases htarget
  · intro message hmessage
    rw [hresponse] at hmessage
    cases hmessage

/-- The call goes on about a session. -/
theorem fits_about (hcall : s.calls.get? key = some call) {target : Key}
    (habout : About s call.envelope target) {stage : Stage S B}
    (hserves : stage.serves = some target) (hresponse : stage.response = none) :
    (Write.call key { call with stage := stage } : Write S Q B).Fits host s := by
  apply fits_goto hcall
  · intro other hother
    rw [hserves] at hother
    cases hother
    exact habout
  · intro message hmessage
    rw [hresponse] at hmessage
    cases hmessage

/-- The call is to answer. -/
theorem fits_replying (hcall : s.calls.get? key = some call) {target : Key}
    (habout : About s call.envelope target) {message : ReplyMessage B}
    (hmessage : message.isFault = false ∧ message.isOpened = false) :
    (Write.call key { call with stage := .replying target message } : Write S Q B).Fits host s := by
  apply fits_goto hcall
  · rintro _ ⟨⟩
    exact habout
  · rintro _ ⟨⟩
    exact hmessage

theorem sessionMetadata_matches {envelope : Envelope Q} {target : Key} {session : Session S}
    (habout : About s envelope target) (hsession : s.table.get? target = some session) :
    (sessionMetadata session envelope).Matches envelope := by
  obtain ⟨session', hsession', hid⟩ := habout
  rw [hsession] at hsession'
  cases hsession'
  exact ⟨rfl, hid⟩

theorem fits_route (hroutes : Routes config s) (hcall : s.calls.get? key = some call) :
    (Write.call key { call with stage := route host s key call.envelope } :
      Write S Q B).Fits host s := by
  have hsession : (Write.call key { call with stage := routeSession s key call.envelope } :
      Write S Q B).Fits host s := by
    unfold routeSession
    split
    · exact fits_free hcall rfl rfl
    · rename_i target htarget
      obtain ⟨session, hget, hid⟩ := hroutes.routed _ _ htarget
      split_ifs
      · exact fits_free hcall rfl rfl
      · split
        · exact fits_free hcall rfl rfl
        · split_ifs
          · exact fits_about hcall ⟨session, hget, hid⟩ rfl rfl
          · exact fits_free hcall rfl rfl
  unfold route
  split
  · exact fits_free hcall rfl rfl
  · split
    · exact fits_free hcall rfl rfl
    · unfold routeOpen
      split_ifs
      · exact fits_free hcall rfl rfl
      · exact fits_free hcall rfl rfl
      · split
        · exact fits_free hcall rfl rfl
        · split
          · exact fits_free hcall rfl rfl
          · split
            · exact fits_free hcall rfl rfl
            · split
              · exact fits_free hcall rfl rfl
              · simp only
                split_ifs
                · exact fits_free hcall rfl rfl
                · exact fits_free hcall rfl rfl
    · exact fits_free hcall rfl rfl
    · exact hsession

theorem fits_routed {target : Key} {session : Session S}
    (hcall : s.calls.get? key = some call) (habout : About s call.envelope target)
    (hsession : s.table.get? target = some session) :
    ∀ write ∈ routedWrites host config s key call target session, write.Fits host s := by
  unfold routedWrites
  simp only
  split
  · split
    · exact fits_one (fits_about hcall habout rfl rfl)
    · exact fits_one (fits_replying hcall habout ⟨rfl, rfl⟩)
  · split
    · exact fits_one (fits_about hcall habout rfl rfl)
    · split_ifs
      · exact fits_one (fits_about hcall habout rfl rfl)
      · exact fits_pair ⟨call, hcall, sessionMetadata_matches habout hsession⟩
          (fits_about hcall habout rfl rfl)
  · split
    · exact fits_pair trivial (fits_about hcall habout rfl rfl)
    · exact fits_one (fits_about hcall habout rfl rfl)
  · exact fits_pair (fits_about hcall habout rfl rfl) trivial
  · exact fits_one (fits_about hcall habout rfl rfl)

theorem fits_closingStep {source : Source} {target : Key} {session : Session S}
    {op : ClosingOp} :
    ∀ write ∈ (closingStep s source target session op).1, write.Fits host s := by
  cases op with
  | close => exact fits_one trivial
  | remove => exact fits_one trivial
  | cancelAll => simp [closingStep]
  | cancel requestId =>
    simp only [closingStep]
    split
    · split
      · simp
      · exact fits_one trivial
    · simp

/-- All that a call writes fits. -/
theorem Correlated.fits_call (h : Correlated host s) (hroutes : Routes config s)
    (hcall : s.calls.get? key = some call) :
    ∀ write ∈ callWrites host config s key call draw delivered, write.Fits host s := by
  have hok := h.calls key call hcall
  have habout : ∀ target, call.stage.serves = some target → About s call.envelope target :=
    hok.serves
  cases hstage : call.stage with
  | routing =>
    simp only [callWrites, hstage]
    exact fits_one (fits_route hroutes hcall)
  | openGate store storeId negotiated =>
    simp only [callWrites, hstage]
    split_ifs
    · exact fits_one (fits_free hcall rfl rfl)
    · exact fits_one (fits_free hcall rfl rfl)
    · simp
    · exact fits_pair trivial (fits_free hcall rfl rfl)
  | sendOpen storeId negotiated store =>
    simp only [callWrites, hstage]
    split_ifs
    · split
      · rename_i session hsession
        refine fits_pair ⟨call, hcall, fun h => (by cases h),
          fun _ => ⟨rfl, session, hsession, rfl⟩, fun _ h => (by cases h)⟩
          (fits_free hcall rfl rfl)
      · simp
    · exact fits_pair (fits_free hcall rfl rfl) trivial
  | rollingBack =>
    simp only [callWrites, hstage]
    split
    · split_ifs
      · exact fits_pair trivial (fits_free hcall rfl rfl)
      · exact fits_one (fits_free hcall rfl rfl)
    · simp
  | «begin» target =>
    have htarget := habout target (by rw [hstage]; rfl)
    simp only [callWrites, hstage]
    split
    · split_ifs
      · exact fits_pair trivial (fits_about hcall htarget rfl rfl)
      · exact fits_one (fits_about hcall htarget rfl rfl)
    · simp
  | beginRefused target =>
    simp only [callWrites, hstage]
    split
    · split_ifs
      · exact fits_one (fits_free hcall rfl rfl)
      · exact fits_one (fits_free hcall rfl rfl)
    · simp
  | routed target =>
    have htarget := habout target (by rw [hstage]; rfl)
    simp only [callWrites, hstage]
    split
    · exact fits_routed hcall htarget ‹_›
    · simp
  | adding target =>
    have htarget := habout target (by rw [hstage]; rfl)
    simp only [callWrites, hstage]
    split
    · split_ifs
      · exact fits_pair trivial (fits_about hcall htarget rfl rfl)
      · exact fits_one (fits_about hcall htarget rfl rfl)
    · simp
  | addRefused target =>
    have htarget := habout target (by rw [hstage]; rfl)
    simp only [callWrites, hstage]
    split
    · rename_i task htask
      split
      · exact fits_pair (h.tasks key task htask) (fits_about hcall htarget rfl rfl)
      · simp
    · simp
  | starting target =>
    have htarget := habout target (by rw [hstage]; rfl)
    simp only [callWrites, hstage]
    split
    · rename_i task htask
      split_ifs
      · exact fits_one (fits_about hcall htarget rfl rfl)
      · exact fits_pair (h.tasks key task htask) (fits_free hcall rfl rfl)
    · simp
  | notStarted target finish =>
    have htarget := habout target (by rw [hstage]; rfl)
    simp only [callWrites, hstage]
    split
    · exact fits_pair trivial (fits_about hcall htarget rfl rfl)
    · exact fits_one (fits_about hcall htarget rfl rfl)
  | cancelWait target invocation requestId =>
    have htarget := habout target (by rw [hstage]; rfl)
    simp only [callWrites, hstage]
    split
    · exact fits_one (fits_replying hcall htarget ⟨rfl, rfl⟩)
    · simp
  | completedCheck target requestId =>
    have htarget := habout target (by rw [hstage]; rfl)
    simp only [callWrites, hstage]
    split
    · exact fits_one (fits_replying hcall htarget ⟨rfl, rfl⟩)
    · simp
  | closing target ops first cancelled =>
    have htarget := habout target (by rw [hstage]; rfl)
    cases ops with
    | cons op ops =>
      simp only [callWrites, hstage]
      split
      · rw [List.forall_mem_append]
        exact ⟨fits_closingStep, fits_one (fits_about hcall htarget rfl rfl)⟩
      · simp
    | nil =>
      simp only [callWrites, hstage]
      split_ifs
      · exact fits_one (fits_replying hcall htarget ⟨rfl, rfl⟩)
      · simp
  | replying target message =>
    have htarget := habout target (by rw [hstage]; rfl)
    obtain ⟨hfault, hopened⟩ := hok.response message (by rw [hstage]; rfl)
    simp only [callWrites, hstage]
    split_ifs
    · split
      · rename_i session hsession
        have hmatches := sessionMetadata_matches htarget hsession
        refine fits_pair ⟨call, hcall, ?_, ?_, fun _ _ => hmatches⟩
          (fits_about hcall htarget rfl rfl)
        · exact fun hreply => absurd hreply (by simp [hfault])
        · exact fun hreply => absurd hreply (by simp [hopened])
      · simp
    · exact fits_one (fits_about hcall htarget rfl rfl)
  | leaving target =>
    simp only [callWrites, hstage]
    exact fits_pair trivial (fits_free hcall rfl rfl)
  | failing reason armed =>
    cases armed with
    | some target =>
      simp only [callWrites, hstage]
      exact fits_pair trivial (fits_free hcall rfl rfl)
    | none =>
      simp only [callWrites, hstage]
      split_ifs
      · exact fits_pair ⟨call, hcall, fun _ => rfl, fun h => (by cases h), fun h => (by cases h)⟩
          (fits_free hcall rfl rfl)
      · exact fits_one (fits_free hcall rfl rfl)
  | rolledBack | opened | done => simp [callWrites, hstage]

theorem Correlated.fits_drop (h : Correlated host s) (hcall : s.calls.get? key = some call) :
    ∀ write ∈ dropWrites key call, write.Fits host s := by
  have hok := h.calls key call hcall
  unfold dropWrites
  simp only
  split <;> rename_i hstage
  · exact fits_one (fits_free hcall rfl rfl)
  · exact fits_one (fits_free hcall rfl rfl)
  · exact fits_pair (fits_free hcall rfl rfl) trivial
  all_goals first
    | exact fits_one (fits_about hcall (hok.serves _ (by rw [hstage]; rfl)) rfl rfl)
    | simp

theorem fits_closersFor {serial : ℕ} {ops : List ClosingOp} {select : Key → Bool} :
    ∀ write ∈ closersFor s serial ops select, write.Fits host s := by
  intro write hmem
  obtain ⟨entry, -, rfl⟩ := List.mem_map.mp hmem
  exact trivial

/-- All that a step writes fits. -/
theorem Correlated.fits_writes (h : Correlated host s) (hroutes : Routes config s)
    (event : Event Q B) : ∀ write ∈ s.writes host config event, write.Fits host s := by
  unfold State.writes
  cases event with
  | dispatch key envelope =>
    simp only
    split_ifs with hnew
    · simp
    · refine fits_one ⟨⟨fun _ h => (by cases h), fun _ h => (by cases h)⟩,
        fun call hcall => absurd ?_ hnew⟩
      exact FiniteMap.contains_iff.mpr ⟨call, hcall⟩
  | closeOwner serial owner => exact fits_closersFor
  | shutdown serial =>
    rw [List.forall_mem_cons]
    exact ⟨trivial, fits_closersFor⟩
  | advance key draw delivered =>
    simp only
    split
    · exact h.fits_call hroutes ‹_›
    · simp
  | drop key =>
    simp only
    split
    · exact h.fits_drop ‹_›
    · simp
  | closer serial key =>
    simp only
    split
    · rw [List.forall_mem_append]
      exact ⟨fits_closingStep, fits_one trivial⟩
    · simp
  | cancel source invocation =>
    simp only
    split
    · rename_i canceller task _ htask
      obtain ⟨call, hcall, hmatches⟩ := h.tasks invocation task htask
      unfold cancellerWrites
      cases canceller with
      | cancelling =>
        simp only
        split_ifs
        · exact fits_one trivial
        · simp
        · rw [List.forall_mem_cons]
          exact ⟨⟨call, hcall, hmatches⟩,
            fits_pair ⟨call, hcall, fun h => (by cases h), fun h => (by cases h),
              fun _ _ => hmatches⟩ trivial⟩
      | finishing result finish =>
        simp only
        split
        · exact fits_pair trivial trivial
        · exact fits_one trivial
      | done result => simp
    · simp
  | emit invocation body =>
    simp only
    split
    · rename_i task htask
      obtain ⟨call, hcall, hmatches⟩ := h.tasks invocation task htask
      split_ifs
      · exact fits_one ⟨call, hcall, fun h => (by cases h), fun h => (by cases h),
          fun _ _ => hmatches⟩
      · simp
    · simp
  | finish invocation finished =>
    simp only
    split
    · rename_i task htask
      split_ifs
      · exact fits_one (h.tasks invocation task htask)
      · simp
    · simp
  | finishTask invocation =>
    simp only
    split
    · rename_i task htask
      split
      · split
        · exact fits_pair trivial (h.tasks invocation task htask)
        · simp
      · simp
    · simp
  | release invocation =>
    simp only
    split
    · rename_i task htask
      split_ifs
      · simp
      · exact fits_one (h.tasks invocation task htask)
    · simp

theorem correlated_new : Correlated host (State.new : State S Q B) :=
  ⟨fun _ _ h => (by cases h), fun _ _ h => (by cases h), fun _ _ h => (by cases h)⟩

/-- The ids are in order in every state of a run. -/
theorem correlated_run (host : Host S Q B) (config : RuntimeConfig) (events : List (Event Q B)) :
    Correlated host (events.foldl (State.step host config) State.new) := by
  have hrun : ∀ (events : List (Event Q B)) (s : State S Q B), Wf config none s →
      Correlated host s → Correlated host (events.foldl (State.step host config) s) := by
    intro events
    induction events with
    | nil => exact fun s _ hs => hs
    | cons event events ih =>
      intro s hwf hs
      have hstep : Reaches config none s (s.step host config event) := hwf.step event
      exact ih _ hstep.wf (hs.writeAll (hs.fits_writes hwf.routes event) hstep.ext)
  exact hrun events State.new (wf_new config) correlated_new

end

/-! What reaches the client of an invocation. -/

/-- Every envelope of the invocation has its ids. -/
structure Stamped (requestId sessionId : String) (run : InvocationRun) : Prop where
  sequence : run.output.sequence.requestId = requestId
  output : run.output.sessionId = sessionId
  delivered : ∀ delivery ∈ run.delivered, delivery.envelope.requestId = requestId ∧
    delivery.envelope.sessionId = sessionId

section

variable [UuidParser] {requestId sessionId : String} {run : InvocationRun}

theorem accept_requestId {sequence sequence' : EventSequence} {event : InvocationEvent}
    (h : sequence.accept event = .ok sequence') :
    event.requestId = sequence.requestId ∧ sequence'.requestId = sequence.requestId := by
  obtain ⟨hrequest, -, kind, admitted, -, hadmits, rfl⟩ := EventSequence.accept_ok h
  refine ⟨hrequest, ?_⟩
  rcases EventSequence.admitEvent_ok hadmits with ⟨-, -, rfl⟩ | ⟨-, -, rfl⟩ | ⟨-, -, rfl⟩ |
    ⟨-, -, -, rfl⟩ | ⟨-, -, rfl⟩ <;> rfl

omit [UuidParser] in
/-- A step that sends nothing. -/
theorem Stamped.move (h : Stamped requestId sessionId run) {run' : InvocationRun}
    (houtput : run'.output = run.output) (hdelivered : run'.delivered = run.delivered) :
    Stamped requestId sessionId run' :=
  ⟨by rw [houtput, h.sequence], by rw [houtput, h.output], by rw [hdelivered]; exact h.delivered⟩

/-- An event that is sent, or not, leaves every envelope stamped. -/
theorem Stamped.deliver (h : Stamped requestId sessionId run) (event : InvocationEvent)
    (outcome : SinkOutcome) (origin : Runtime.Origin) :
    Stamped requestId sessionId (run.deliver origin (run.output.sendEvent event outcome)) := by
  unfold InvocationOutput.sendEvent
  split
  · exact ⟨h.sequence, h.output, by simpa [InvocationRun.deliver] using h.delivered⟩
  · split
    · exact ⟨h.sequence, h.output, by simpa [InvocationRun.deliver] using h.delivered⟩
    · rename_i candidate haccept
      obtain ⟨hevent, hcandidate⟩ := accept_requestId haccept
      have hmore : ∀ delivery ∈ run.delivered ++
          [⟨run.output.envelopeOf event, origin, run.guestEnded⟩],
          delivery.envelope.requestId = requestId ∧ delivery.envelope.sessionId = sessionId := by
        intro delivery hmem
        rcases List.mem_append.mp hmem with hmem | hmem
        · exact h.delivered delivery hmem
        · rw [List.mem_singleton.mp hmem]
          exact ⟨hevent.trans h.sequence, h.output⟩
      cases outcome with
      | delivered => exact ⟨hcandidate.trans h.sequence, h.output, hmore⟩
      | failed error reached =>
        cases reached with
        | true => exact ⟨h.sequence, h.output, hmore⟩
        | false => exact ⟨h.sequence, h.output, by simpa [InvocationRun.deliver] using h.delivered⟩

theorem Stamped.fail (h : Stamped requestId sessionId run) (failure : HostFailure)
    (started : Bool) (outcome : SinkOutcome) :
    Stamped requestId sessionId
      (run.deliver .host (InvocationRun.fail run.output failure started outcome).1) := by
  obtain ⟨event, hsent⟩ := InvocationRun.fail_sends run.output failure started outcome
  rw [hsent]
  exact h.deliver event outcome .host

omit [UuidParser] in
theorem Stamped.closeOnError {sent : Sent} (h : Stamped requestId sessionId (run.deliver .host sent)) :
    Stamped requestId sessionId (run.deliver .host (InvocationRun.closeOnError sent)) := by
  unfold InvocationRun.closeOnError
  split
  · exact h
  · exact ⟨h.sequence, h.output, h.delivered⟩

theorem Stamped.step (contract : Contract) (h : Stamped requestId sessionId run)
    (event : RunEvent) : Stamped requestId sessionId (run.step contract event) := by
  cases event with simp only [InvocationRun.step]
  | start | discard | connectionClosed =>
    split
    · exact h.move rfl rfl
    · exact h.move rfl rfl
  | invoked ok => split_ifs <;> exact h.move rfl rfl
  | guest poll =>
    unfold InvocationRun.guest
    split
    · exact h.move rfl rfl
    · exact h.move rfl rfl
    · unfold InvocationRun.receive
      split
      · exact h.move rfl rfl
      · split <;> exact h.move rfl rfl
    all_goals exact h.move rfl rfl
  | validate =>
    unfold InvocationRun.validate
    split
    · split
      · exact h.move rfl rfl
      · split <;> exact h.move rfl rfl
    · exact h
  | send outcome =>
    unfold InvocationRun.send
    split
    · rename_i event _
      have hsent := h.deliver event outcome .guest
      dsimp only
      split
      · exact hsent.move rfl rfl
      · exact hsent.move rfl rfl
    · rename_i failure _
      split
      · exact h.move rfl rfl
      · exact (h.fail failure false outcome).move rfl rfl
    · rename_i failure _
      exact (h.fail failure true outcome).move rfl rfl
    · exact h
  | abandon =>
    split
    · exact ⟨h.sequence, h.output, h.delivered⟩
    · exact h
  | abort => exact h.move rfl rfl
  | cancel =>
    unfold InvocationRun.cancel
    split
    · exact h
    · exact h.move rfl rfl
  | sendCancelled outcome =>
    unfold InvocationRun.sendCancelled
    split
    · rename_i failure _
      split
      · exact h.move rfl rfl
      · exact (h.fail failure false outcome).closeOnError.move rfl rfl
    · rename_i failure _
      exact (h.fail failure true outcome).closeOnError.move rfl rfl
    · exact h

theorem stamped_run (contract : Contract) (requestId sessionId : String)
    (protocol : Runtime.ProtocolVersion) (mode : InvocationMode) (events : List RunEvent) :
    Stamped requestId sessionId (events.foldl (InvocationRun.step contract)
      (.new requestId sessionId protocol mode)) :=
  List.foldlRecOn events _ ⟨rfl, rfl, by simp [InvocationRun.new]⟩
    fun _ h event _ => h.step contract event

end

/-! The claims about replies. -/

section

variable {U S Q B : Type} [UuidText U]

/-- The reply carries the request's own texts, or the id of the session that the request has
opened. -/
def Answers (s : State S Q B) (key : Key) (envelope : Envelope Q) (reply : Reply B) : Prop :=
  reply.metadata.requestId = envelope.requestId ∧
    if reply.message.isOpened then
      ∃ session, s.table.get? key = some session ∧ reply.metadata.sessionId = session.id
    else reply.metadata.sessionId = envelope.sessionId

/-- In every run, each reply to a valid envelope carries its ids exactly when it is no protocol
fault or the ids are in the form in which they are rendered; what an invocation delivers carries
the ids of the request that started it. -/
theorem reply_answers_iff (host : Host S Q B)
    (contents : Envelope Q → Except EnvelopeError Unit) (replacement : Envelope Q → String)
    (config : RuntimeConfig) (events : List (Event Q B)) :
    let s := events.foldl (State.step (host.withEnvelopes contents replacement) config) State.new
    (∀ key reply, (key, reply) ∈ s.sent → ∃ call, s.calls.get? key = some call ∧
      (call.envelope.validate contents = .ok () → (Answers s key call.envelope reply ↔
        (reply.message.isFault = true → Canonical call.envelope)))) ∧
    ∀ key task, s.tasks.get? key = some task → ∃ call, s.calls.get? key = some call ∧
      ∀ contract protocol mode runEvents, ∀ delivery ∈ (List.foldl (InvocationRun.step contract)
          (.new task.metadata.requestId task.metadata.sessionId protocol mode) runEvents).delivered,
        delivery.envelope.requestId = call.envelope.requestId ∧
          delivery.envelope.sessionId = call.envelope.sessionId := by
  intro s
  have hrun : Correlated (host.withEnvelopes contents replacement) s :=
    correlated_run (host.withEnvelopes contents replacement) config events
  refine ⟨fun key reply hsent => ?_, fun key task htask => ?_⟩
  · obtain ⟨call, hcall, hok⟩ := hrun.sent key reply hsent
    refine ⟨call, hcall, fun hvalid => ?_⟩
    unfold Answers
    cases hfault : reply.message.isFault with
    | true =>
      have hopened : reply.message.isOpened = false := by
        cases hmessage : reply.message <;> rw [hmessage] at hfault <;>
          first | rfl | cases hfault
      have hmade := hok.fault hfault
      rw [hopened, if_neg Bool.false_ne_true, hmade]
      exact (ReplyMetadata.forRequest_eq_iff hvalid _).trans (by simp)
    | false =>
      refine ⟨fun _ => nofun, fun _ => ?_⟩
      cases hopened : reply.message.isOpened with
      | true =>
        rw [if_pos rfl]
        exact hok.opened hopened
      | false =>
        rw [if_neg Bool.false_ne_true]
        exact hok.other hfault hopened
  · obtain ⟨call, hcall, hrequest, hsession⟩ := hrun.tasks key task htask
    refine ⟨call, hcall, fun contract protocol mode runEvents delivery hdelivery => ?_⟩
    rw [hrequest, hsession] at hdelivery
    exact (stamped_run contract _ _ protocol mode runEvents).delivered delivery hdelivery

end

/-! A request with an id in capitals. -/

namespace CapitalIds

def isHexDigit (c : Char) : Bool := c.isDigit || ('a' ≤ c && c ≤ 'f') || ('A' ≤ c && c ≤ 'F')

/-- The hyphenated form: 32 hexadecimal digits in groups of 8, 4, 4, 4 and 12. -/
def isHyphenated (text : List Char) : Bool :=
  text.length = 36 && text.zipIdx.all fun entry =>
    if entry.2 ∈ [8, 13, 18, 23] then entry.1 = '-' else isHexDigit entry.1

local instance : UuidText (List Char) where
  parse text := if isHyphenated text.toList then some (text.toList.map Char.toLower) else none
  render digits := .ofList digits
  parse_empty := by decide

def requestId : String := "9F2C1F0A-52C5-4BE5-8C26-3D8C1B0D7A55"

def contents : Envelope Unit → Except EnvelopeError Unit := fun _ => .ok ()

def replacement : Envelope Unit → String := fun _ => "00000000-0000-4000-8000-000000000000"

/-- OpenStore for a store that is not installed. -/
def request (requestId : String) : Envelope Unit :=
  ⟨some ⟨1, 0⟩, "", requestId, some (.openStore "missing" (some ⟨1, 0⟩) (some ⟨1, 0, none⟩))⟩

def run (requestId : String) : List (Event Unit Unit) :=
  [.dispatch ⟨none, 0⟩ (request requestId), .advance ⟨none, 0⟩ "" true,
    .advance ⟨none, 0⟩ "" true]

def final (requestId : String) : State Unit Unit Unit :=
  (run requestId).foldl (State.step (Contention.host.withEnvelopes contents replacement)
    Contention.config) State.new

/-- The fault for a valid request carries another text than the request. -/
theorem fault_for_capitals :
    ∃ reply, (⟨none, 0⟩, reply) ∈ (final requestId).sent ∧
      (request requestId).validate contents = .ok () ∧
      reply.metadata.requestId = "9f2c1f0a-52c5-4be5-8c26-3d8c1b0d7a55" ∧
      ¬Answers (final requestId) ⟨none, 0⟩ (request requestId) reply := by
  refine ⟨_, List.mem_cons_self, by decide +kernel, by decide +kernel, fun h => ?_⟩
  have hrequest := h.1
  revert hrequest
  decide +kernel

theorem reply_answers_rendered :
    ∃ reply call, (⟨none, 0⟩, reply) ∈
        (final "9f2c1f0a-52c5-4be5-8c26-3d8c1b0d7a55").sent ∧
      (final "9f2c1f0a-52c5-4be5-8c26-3d8c1b0d7a55").calls.get? ⟨none, 0⟩ = some call ∧
      (call.envelope.validate contents = .ok () →
        (Answers (final "9f2c1f0a-52c5-4be5-8c26-3d8c1b0d7a55") ⟨none, 0⟩ call.envelope reply ↔
          (reply.message.isFault = true → Canonical call.envelope))) := by
  have hreply := (reply_answers_iff Contention.host contents replacement Contention.config
    (run "9f2c1f0a-52c5-4be5-8c26-3d8c1b0d7a55")).1 ⟨none, 0⟩ _ List.mem_cons_self
  obtain ⟨call, hcall, hiff⟩ := hreply
  exact ⟨_, call, List.mem_cons_self, hcall, hiff⟩

end CapitalIds

end Router
