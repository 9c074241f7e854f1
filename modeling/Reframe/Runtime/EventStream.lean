import Mathlib.Tactic
import Reframe.Lib.JsonText
import Reframe.Lib.Run

/-! The events of an invocation, their validation, and the validator of their order. What the
validator has accepted is a prefix of one stream: `Started`, data and progress, one terminal
event, numbered from zero. -/
namespace Runtime

inductive ValidationError where
  | missingField (field : String)
  | invalidUuid (field : String)
  | invalidValue (field reason : String)
  deriving DecidableEq, Repr

def ValidationError.toString : ValidationError → String
  | .missingField field => "required field `" ++ field ++ "` is missing"
  | .invalidUuid field => "`" ++ field ++ "` is not a UUID"
  | .invalidValue field reason => "invalid `" ++ field ++ "`: " ++ reason

/-- A `google.protobuf.Any`. -/
structure AnyValue where
  typeUrl : String
  value : List UInt8
  deriving DecidableEq, Repr

structure InvocationProgress where
  completed : ℕ
  total : Option ℕ
  unit : String
  message : String
  deriving DecidableEq, Repr

structure InvocationFailure where
  code : ℤ
  message : String
  retryable : Bool
  details : Option AnyValue
  deriving DecidableEq, Repr

inductive InvocationEvent.Event where
  | started
  | data (value : Option AnyValue)
  | progress (progress : InvocationProgress)
  | complete
  | failure (failure : InvocationFailure)
  deriving DecidableEq, Repr

structure InvocationEvent where
  requestId : String
  sequenceNumber : ℕ
  event : Option InvocationEvent.Event
  deriving DecidableEq, Repr

inductive FailureCode where
  | unspecified
  | invalidArgument
  | notFound
  | conflict
  | permissionDenied
  | unauthenticated
  | rateLimited
  | unavailable
  | deadlineExceeded
  | cancelled
  | internal
  deriving DecidableEq, Repr

def FailureCode.all : List FailureCode :=
  [.unspecified, .invalidArgument, .notFound, .conflict, .permissionDenied, .unauthenticated,
    .rateLimited, .unavailable, .deadlineExceeded, .cancelled, .internal]

def FailureCode.toInt (code : FailureCode) : ℤ := FailureCode.all.idxOf code

def FailureCode.tryFrom (code : ℤ) : Option FailureCode :=
  FailureCode.all.find? fun known => known.toInt = code

theorem FailureCode.tryFrom_toInt (code : FailureCode) : tryFrom code.toInt = some code := by
  cases code <;> decide

theorem FailureCode.toInt_bounds (code : FailureCode) :
    -2 ^ 31 ≤ code.toInt ∧ code.toInt < 2 ^ 31 := by
  cases code <;> decide

/-- A character that `str::trim` removes. -/
def isWhiteSpace (c : Char) : Bool :=
  (0x9 ≤ c.toNat && c.toNat ≤ 0xd) || (0x2000 ≤ c.toNat && c.toNat ≤ 0x200a) ||
    c.toNat ∈ [0x20, 0x85, 0xa0, 0x1680, 0x2028, 0x2029, 0x202f, 0x205f, 0x3000]

def maxTypeUrlBytes : ℕ := 512

def boundedText (field value : String) (maximum : ℕ) : Except ValidationError Unit :=
  if maximum < JsonText.byteLength value.toList then
    .error (.invalidValue field "text exceeds its encoded-byte limit")
  else .ok ()

def requiredText (field value : String) (maximum : ℕ) : Except ValidationError Unit :=
  if value.toList.all isWhiteSpace then .error (.missingField field)
  else boundedText field value maximum

def requiredAny (field : String) : Option AnyValue → Except ValidationError Unit
  | none => .error (.missingField field)
  | some value => requiredText field value.typeUrl maxTypeUrlBytes

def InvocationEvent.Event.validate : InvocationEvent.Event → Except ValidationError Unit
  | .data value => requiredAny "invocation_event.data.value" value
  | .progress report =>
    match report.total with
    | some total =>
      if total < report.completed then
        .error (.invalidValue "invocation_event.progress.total"
          "total must not be less than completed")
      else .ok ()
    | none => .ok ()
  | .failure fault =>
    match FailureCode.tryFrom fault.code with
    | some .unspecified => .error (.missingField "invocation_event.failure.code")
    | some _ =>
      match fault.details with
      | some details => requiredAny "invocation_event.failure.details" (some details)
      | none => .ok ()
    | none => .error (.invalidValue "invocation_event.failure.code" "failure code is unknown")
  | .started | .complete => .ok ()

/-- The UUID parser of the `uuid` crate. -/
class UuidParser where
  accepts : String → Bool

section

variable [UuidParser]

/-- Only texts of at most 45 bytes reach the parser. -/
def validateUuid (field value : String) : Except ValidationError Unit :=
  if 45 < JsonText.byteLength value.toList then .error (.invalidUuid field)
  else if UuidParser.accepts value then .ok ()
  else .error (.invalidUuid field)

def InvocationEvent.validate (event : InvocationEvent) : Except ValidationError Unit := do
  validateUuid "invocation_event.request_id" event.requestId
  match event.event with
  | some kind => kind.validate
  | none => .error (.missingField "invocation_event.event")

end

/-- Cardinality rules for one component invocation. -/
inductive InvocationMode where
  | unary
  | subscription
  deriving DecidableEq, Repr

inductive EventSequence.State where
  | awaitingStart
  | active
  | terminal
  deriving DecidableEq, Repr

inductive EventSequenceError where
  | malformed (reason : String)
  | wrongRequestId
  | wrongSequence (expected actual : ℕ)
  | startedMustBeFirst
  | duplicateStarted
  | tooManyUnaryDataEvents
  | unaryDataEventRequired
  | eventAfterTerminal
  | prematureEnd
  | sequenceOverflow
  deriving DecidableEq, Repr

/-- Ordered invocation-event validator. -/
structure EventSequence where
  dataEvents : ℕ
  mode : InvocationMode
  nextSequence : ℕ
  requestId : String
  state : EventSequence.State
  deriving DecidableEq, Repr

namespace EventSequence

def new (requestId : String) (mode : InvocationMode) : EventSequence :=
  ⟨0, mode, 0, requestId, .awaitingStart⟩

/-- The validator's state after an event of this kind. -/
def admitEvent (sequence : EventSequence) (kind : InvocationEvent.Event) :
    Except EventSequenceError EventSequence :=
  match sequence.state, kind with
  | .awaitingStart, .started => .ok { sequence with state := .active }
  | .awaitingStart, _ => .error .startedMustBeFirst
  | .active, .started => .error .duplicateStarted
  | .active, .data _ =>
    if sequence.mode = .unary ∧ 1 < sequence.dataEvents + 1 then .error .tooManyUnaryDataEvents
    else .ok { sequence with dataEvents := sequence.dataEvents + 1 }
  | .active, .progress _ => .ok sequence
  | .active, .complete =>
    if sequence.mode = .unary ∧ sequence.dataEvents ≠ 1 then .error .unaryDataEventRequired
    else .ok { sequence with state := .terminal }
  | .active, .failure _ => .ok { sequence with state := .terminal }
  | .terminal, _ => .error .eventAfterTerminal

def accept [UuidParser] (sequence : EventSequence) (event : InvocationEvent) :
    Except EventSequenceError EventSequence := do
  event.validate.mapError fun error => .malformed error.toString
  if event.requestId ≠ sequence.requestId then .error .wrongRequestId
  else if event.sequenceNumber ≠ sequence.nextSequence then
    .error (.wrongSequence sequence.nextSequence event.sequenceNumber)
  else
    match event.event with
    | none => .error (.malformed "event kind is missing")
    | some kind => do
      let sequence ← sequence.admitEvent kind
      if sequence.nextSequence + 1 < 2 ^ 64 then
        .ok { sequence with nextSequence := sequence.nextSequence + 1 }
      else .error .sequenceOverflow

def finish (sequence : EventSequence) : Except EventSequenceError Unit :=
  if sequence.state = .terminal then .ok () else .error .prematureEnd

def isTerminal (sequence : EventSequence) : Bool := sequence.state = .terminal

end EventSequence

/-! The stream grammar. -/

inductive EventKind where
  | started
  | data
  | progress
  | complete
  | failure
  deriving DecidableEq, Repr

def InvocationEvent.Event.kind : InvocationEvent.Event → EventKind
  | .started => .started
  | .data _ => .data
  | .progress _ => .progress
  | .complete => .complete
  | .failure _ => .failure

def InvocationEvent.kind (event : InvocationEvent) : Option EventKind :=
  event.event.map InvocationEvent.Event.kind

def EventKind.isBody (kind : EventKind) : Bool := kind = .data || kind = .progress

def EventKind.isTerminal (kind : EventKind) : Bool := kind = .complete || kind = .failure

/-- A whole stream: `Started (Data | Progress)* (Complete | Failure)`. -/
def IsStream (kinds : List (Option EventKind)) : Prop :=
  ∃ body : List EventKind, ∃ last : EventKind, (∀ kind ∈ body, kind.isBody = true) ∧
    last.isTerminal = true ∧ kinds = some .started :: body.map some ++ [some last]

/-- A prefix of a stream, numbered from zero, with no event after a terminal one, whose `Complete`
follows exactly one `Data` in a unary invocation. -/
structure StreamPrefix (mode : InvocationMode) (events : List InvocationEvent) : Prop where
  grammar : ∃ stream, IsStream stream ∧ events.map InvocationEvent.kind <+: stream
  ended : ∀ event ∈ events.dropLast, ∀ kind, event.kind = some kind → kind.isTerminal = false
  numbered : events.map InvocationEvent.sequenceNumber = List.range events.length
  unary : mode = .unary → some .complete ∈ events.map InvocationEvent.kind →
    (events.map InvocationEvent.kind).count (some .data) = 1

namespace EventSequence

/-- The validator's state after events of exactly these kinds. -/
structure Describes (sequence : EventSequence) (kinds : List (Option EventKind)) : Prop where
  next : sequence.nextSequence = kinds.length
  data : sequence.dataEvents = kinds.count (some .data)
  order : match sequence.state with
    | .awaitingStart => kinds = []
    | .active => ∃ body : List EventKind, (∀ kind ∈ body, kind.isBody = true) ∧
        kinds = some .started :: body.map some
    | .terminal => IsStream kinds
  unary : sequence.mode = .unary → some .complete ∈ kinds → sequence.dataEvents = 1

theorem new_describes (requestId : String) (mode : InvocationMode) :
    (new requestId mode).Describes [] :=
  ⟨rfl, rfl, rfl, fun _ h => by cases h⟩

/-- What an accepted event does to the validator. -/
theorem accept_ok [UuidParser] {sequence sequence' : EventSequence} {event : InvocationEvent}
    (h : sequence.accept event = .ok sequence') :
    event.requestId = sequence.requestId ∧ event.sequenceNumber = sequence.nextSequence ∧
      ∃ kind admitted, event.event = some kind ∧ sequence.admitEvent kind = .ok admitted ∧
        sequence' = { admitted with nextSequence := admitted.nextSequence + 1 } := by
  obtain ⟨_, -, h⟩ := Run.bind_eq_ok.mp h
  split_ifs at h with hid hnumber
  cases hevent : event.event with
  | none => simp [hevent] at h
  | some kind =>
    rw [hevent] at h
    obtain ⟨admitted, hadmits, h⟩ := Run.bind_eq_ok.mp h
    split_ifs at h
    cases h
    exact ⟨not_not.mp hid, not_not.mp hnumber, kind, admitted, rfl, hadmits, rfl⟩

/-- The five ways in which an event is admitted. -/
theorem admitEvent_ok {sequence admitted : EventSequence} {kind : InvocationEvent.Event}
    (h : sequence.admitEvent kind = .ok admitted) :
    (sequence.state = .awaitingStart ∧ kind.kind = .started ∧
      admitted = { sequence with state := .active }) ∨
    (sequence.state = .active ∧ kind.kind = .data ∧
      admitted = { sequence with dataEvents := sequence.dataEvents + 1 }) ∨
    (sequence.state = .active ∧ kind.kind = .progress ∧ admitted = sequence) ∨
    (sequence.state = .active ∧ kind.kind = .complete ∧
      (sequence.mode = .unary → sequence.dataEvents = 1) ∧
        admitted = { sequence with state := .terminal }) ∨
    (sequence.state = .active ∧ kind.kind = .failure ∧
      admitted = { sequence with state := .terminal }) := by
  unfold admitEvent at h
  cases hstate : sequence.state <;> cases kind <;> rw [hstate] at h <;> simp only at h
  case awaitingStart.started =>
    cases h
    exact .inl ⟨rfl, rfl, rfl⟩
  case active.data =>
    split_ifs at h
    cases h
    exact .inr (.inl ⟨rfl, rfl, rfl⟩)
  case active.progress =>
    cases h
    exact .inr (.inr (.inl ⟨rfl, rfl, rfl⟩))
  case active.complete =>
    split_ifs at h with hunary
    cases h
    refine .inr (.inr (.inr (.inl ⟨rfl, rfl, fun hmode => ?_, rfl⟩)))
    by_contra hdata
    exact hunary ⟨hmode, hdata⟩
  case active.failure =>
    cases h
    exact .inr (.inr (.inr (.inr ⟨rfl, rfl, rfl⟩)))
  all_goals cases h

theorem admitEvent_nextSequence {sequence admitted : EventSequence} {kind : InvocationEvent.Event}
    (h : sequence.admitEvent kind = .ok admitted) : admitted.nextSequence = sequence.nextSequence := by
  rcases admitEvent_ok h with ⟨-, -, rfl⟩ | ⟨-, -, rfl⟩ | ⟨-, -, rfl⟩ | ⟨-, -, -, rfl⟩ |
    ⟨-, -, rfl⟩ <;> rfl

/-- Only the last event of a prefix of a stream can be terminal. -/
theorem not_terminal_of_prefix {stream kinds : List (Option EventKind)} (hstream : IsStream stream)
    (hleads : kinds <+: stream) {kind : EventKind} (hmem : some kind ∈ kinds.dropLast) :
    kind.isTerminal = false := by
  obtain ⟨body, last, hbody, -, rfl⟩ := hstream
  have hdrop : some kind ∈ some .started :: body.map some := by
    rcases List.prefix_concat_iff.mp hleads with rfl | hleads
    · rwa [List.dropLast_concat] at hmem
    · exact hleads.subset (List.mem_of_mem_dropLast hmem)
  rcases List.mem_cons.mp hdrop with heq | hdrop
  · cases heq
    rfl
  · obtain ⟨other, hother, heq⟩ := List.mem_map.mp hdrop
    cases heq
    have := hbody kind hother
    cases kind <;> simp_all [EventKind.isBody, EventKind.isTerminal]

theorem not_complete_of_body {body : List EventKind} (h : ∀ kind ∈ body, kind.isBody = true) :
    some .complete ∉ some EventKind.started :: body.map some := by
  intro hmem
  rcases List.mem_cons.mp hmem with heq | hmem
  · cases heq
  · obtain ⟨kind, hkind, heq⟩ := List.mem_map.mp hmem
    cases heq
    exact absurd (h _ hkind) (by decide)

theorem Describes.body {sequence : EventSequence} {kinds : List (Option EventKind)}
    (h : sequence.Describes kinds) (hstate : sequence.state = .active) :
    ∃ body : List EventKind, (∀ kind ∈ body, kind.isBody = true) ∧
      kinds = some .started :: body.map some := by
  have horder := h.order
  rwa [hstate] at horder

theorem Describes.not_complete {sequence : EventSequence} {kinds : List (Option EventKind)}
    (h : sequence.Describes kinds) (hstate : sequence.state = .active) :
    some .complete ∉ kinds := by
  obtain ⟨body, hbody, rfl⟩ := h.body hstate
  exact not_complete_of_body hbody

/-- A data or progress event extends the body. -/
theorem Describes.snoc_body {sequence : EventSequence} {kinds : List (Option EventKind)}
    (h : sequence.Describes kinds) (hstate : sequence.state = .active) {kind : EventKind}
    (hkind : kind.isBody = true) :
    ∃ body : List EventKind, (∀ kind ∈ body, kind.isBody = true) ∧
      kinds ++ [some kind] = some .started :: body.map some := by
  obtain ⟨body, hbody, rfl⟩ := h.body hstate
  refine ⟨body ++ [kind], fun other hmem => ?_, by simp⟩
  rcases List.mem_append.mp hmem with hmem | hmem
  · exact hbody other hmem
  · rw [List.mem_singleton.mp hmem]
    exact hkind

/-- A terminal event makes the stream whole. -/
theorem Describes.snoc_terminal {sequence : EventSequence} {kinds : List (Option EventKind)}
    (h : sequence.Describes kinds) (hstate : sequence.state = .active) {kind : EventKind}
    (hkind : kind.isTerminal = true) : IsStream (kinds ++ [some kind]) := by
  obtain ⟨body, hbody, rfl⟩ := h.body hstate
  exact ⟨body, kind, hbody, hkind, rfl⟩

/-- Each admitted event extends the stream by one. -/
theorem Describes.admitEvent {sequence admitted : EventSequence} {kinds : List (Option EventKind)}
    {kind : InvocationEvent.Event} (h : sequence.Describes kinds)
    (hadmits : sequence.admitEvent kind = .ok admitted) :
    Describes { admitted with nextSequence := admitted.nextSequence + 1 }
      (kinds ++ [some kind.kind]) := by
  have hnext : sequence.nextSequence + 1 = (kinds ++ [some kind.kind]).length := by simp [h.next]
  have hmem : some .complete ∉ kinds → kind.kind ≠ .complete →
      some .complete ∉ kinds ++ [some kind.kind] := by
    intro hkinds hkind hmem
    rcases List.mem_append.mp hmem with hmem | hmem
    · exact hkinds hmem
    · exact hkind (Option.some.inj (List.mem_singleton.mp hmem)).symm
  rcases admitEvent_ok hadmits with ⟨hstate, hk, rfl⟩ | ⟨hstate, hk, rfl⟩ | ⟨hstate, hk, rfl⟩ |
    ⟨hstate, hk, hunary, rfl⟩ | ⟨hstate, hk, rfl⟩
  · have horder := h.order
    rw [hstate] at horder
    subst horder
    refine ⟨hnext, by simp [h.data, hk], ⟨[], by simp, by simp [hk]⟩, fun _ hcomplete => ?_⟩
    exact absurd hcomplete (hmem (by simp) (by simp [hk]))
  · refine ⟨hnext, by simp [h.data, hk], ?_, fun _ hcomplete => ?_⟩
    · simp only [hstate, hk]
      exact h.snoc_body hstate rfl
    · exact absurd hcomplete (hmem (h.not_complete hstate) (by simp [hk]))
  · refine ⟨hnext, by simp [h.data, hk], ?_, fun _ hcomplete => ?_⟩
    · simp only [hstate, hk]
      exact h.snoc_body hstate rfl
    · exact absurd hcomplete (hmem (h.not_complete hstate) (by simp [hk]))
  · refine ⟨hnext, by simp [h.data, hk], ?_, fun hmode _ => hunary hmode⟩
    rw [hk]
    exact h.snoc_terminal hstate rfl
  · refine ⟨hnext, by simp [h.data, hk], ?_, fun _ hcomplete => ?_⟩
    · rw [hk]
      exact h.snoc_terminal hstate rfl
    · exact absurd hcomplete (hmem (h.not_complete hstate) (by simp [hk]))

/-- What the validator has seen can be completed to a stream. -/
theorem Describes.grammar {sequence : EventSequence} {kinds : List (Option EventKind)}
    (h : sequence.Describes kinds) : ∃ stream, IsStream stream ∧ kinds <+: stream := by
  have horder := h.order
  cases hstate : sequence.state with
  | awaitingStart =>
    rw [hstate] at horder
    subst horder
    exact ⟨_, ⟨[], .failure, by simp, rfl, rfl⟩, List.nil_prefix⟩
  | active =>
    have hfailure : EventKind.failure.isTerminal = true := rfl
    exact ⟨_, h.snoc_terminal hstate hfailure, List.prefix_append _ _⟩
  | terminal =>
    rw [hstate] at horder
    exact ⟨kinds, horder, List.prefix_rfl⟩

theorem accept_mode [UuidParser] {sequence sequence' : EventSequence} {event : InvocationEvent}
    (h : sequence.accept event = .ok sequence') : sequence'.mode = sequence.mode := by
  obtain ⟨-, -, kind, admitted, -, hadmits, rfl⟩ := accept_ok h
  rcases admitEvent_ok hadmits with ⟨-, -, rfl⟩ | ⟨-, -, rfl⟩ | ⟨-, -, rfl⟩ | ⟨-, -, -, rfl⟩ |
    ⟨-, -, rfl⟩ <;> rfl

/-- The events that the validator has accepted, from its start. -/
structure Accepted (sequence : EventSequence) (events : List InvocationEvent) : Prop where
  describes : sequence.Describes (events.map InvocationEvent.kind)
  numbered : events.map InvocationEvent.sequenceNumber = List.range events.length

theorem Accepted.accept [UuidParser] {sequence sequence' : EventSequence}
    {events : List InvocationEvent} {event : InvocationEvent} (h : sequence.Accepted events)
    (haccept : sequence.accept event = .ok sequence') :
    sequence'.Accepted (events ++ [event]) := by
  obtain ⟨-, hnumber, kind, admitted, hevent, hadmits, rfl⟩ := accept_ok haccept
  constructor
  · have hkind : event.kind = some kind.kind := by rw [InvocationEvent.kind, hevent]; rfl
    rw [List.map_append, List.map_singleton, hkind]
    exact h.describes.admitEvent hadmits
  · rw [List.map_append, h.numbered, List.length_append, List.length_singleton, List.range_succ,
      List.map_singleton, hnumber, h.describes.next, List.length_map]

theorem Accepted.streamPrefix {sequence : EventSequence} {events : List InvocationEvent}
    (h : sequence.Accepted events) : StreamPrefix sequence.mode events where
  grammar := h.describes.grammar
  ended := by
    intro event hmem kind hkind
    obtain ⟨stream, hstream, hleads⟩ := h.describes.grammar
    apply not_terminal_of_prefix hstream hleads
    rw [← List.map_dropLast, ← hkind]
    exact List.mem_map_of_mem hmem
  numbered := h.numbered
  unary := fun hmode hcomplete => h.describes.data ▸ h.describes.unary hmode hcomplete

end EventSequence

end Runtime
