import Reframe.Sdk.EventEncoder

/-! The guest's encoder and the host's validator of event order stay in step: whatever the encoder
emits is decoded to events that the validator accepts. -/
namespace StoreSdk
open Runtime
open Run (bind_eq_ok)

/-- The bytes decode to events that the validator accepts in order. -/
def Accepts [UuidParser] (requestId : String) (mode : InvocationMode)
    (stream : List (List UInt8)) (sequence : EventSequence) : Prop :=
  ∃ events : List InvocationEvent, stream.map InvocationEvent.decode = events.map some ∧
    events.foldlM EventSequence.accept (EventSequence.new requestId mode) = .ok sequence

section

variable [UuidParser] {requestId : String} {mode : InvocationMode} {stream : List (List UInt8)}
  {sequence : EventSequence}

theorem accepts_nil (requestId : String) (mode : InvocationMode) :
    Accepts requestId mode [] (EventSequence.new requestId mode) :=
  ⟨[], rfl, rfl⟩

theorem Accepts.snoc {bytes : List UInt8} {event : InvocationEvent} {sequence' : EventSequence}
    (h : Accepts requestId mode stream sequence)
    (hdecode : InvocationEvent.decode bytes = some event)
    (haccept : sequence.accept event = .ok sequence') :
    Accepts requestId mode (stream ++ [bytes]) sequence' := by
  obtain ⟨events, hevents, hfold⟩ := h
  refine ⟨events ++ [event], by rw [List.map_append, hevents, List.map_append,
    List.map_singleton, hdecode, List.map_singleton], ?_⟩
  rw [List.foldlM_append, hfold]
  show List.foldlM EventSequence.accept sequence [event] = _
  rw [List.foldlM_cons, haccept]
  rfl

end

/-! What the encoder lets through passes the host's checks. -/

theorem requiredAny_of_anyTypeName {value : AnyValue} {name : String}
    (h : anyTypeName value = .ok name) (field : String) :
    requiredAny field (some value) = .ok () := by
  unfold anyTypeName at h
  split_ifs at h with hurl
  push Not at hurl
  have hne : value.typeUrl.toList ≠ [] := by
    intro hnil
    simp [rsplitOnce, hnil] at h
  have hblank : value.typeUrl.toList.all isWhiteSpace = false := by
    obtain ⟨c, rest, hcons⟩ := List.exists_cons_of_ne_nil hne
    have hspace := hurl.2
    rw [hcons, List.any_cons, ne_eq, Bool.not_eq_true, Bool.or_eq_false_iff] at hspace
    rw [hcons, List.all_cons, hspace.1, Bool.false_and]
  show requiredText field value.typeUrl maxTypeUrlBytes = .ok ()
  rw [requiredText, hblank, if_neg Bool.false_ne_true, boundedText, if_neg (by omega)]

theorem requiredAny_of_mapError {value : AnyValue} {name : String}
    (h : (anyTypeName value).mapError EventError.value = .ok name) (field : String) :
    requiredAny field (some value) = .ok () := by
  cases hvalue : anyTypeName value with
  | error error =>
    rw [hvalue] at h
    cases h
  | ok name' => exact requiredAny_of_anyTypeName hvalue field

theorem details_valid {details : Option AnyValue}
    (h : EventEncoder.checkDetails details = .ok ()) :
    (match details with
      | some details => requiredAny "invocation_event.failure.details" (some details)
      | none => .ok ()) = .ok () := by
  cases details with
  | none => rfl
  | some details =>
    obtain ⟨name, hname, -⟩ := bind_eq_ok.mp h
    exact requiredAny_of_mapError hname _

section

variable [Target]

theorem isizeMax_lt : isizeMax < 2 ^ 64 := by
  unfold isizeMax
  cases Target.pointerWidth <;> norm_num

theorem le_isizeMax : 2 ^ 30 ≤ isizeMax := by
  unfold isizeMax
  cases Target.pointerWidth <;> norm_num

/-- What the encoder knows about the event that it has encoded. -/
theorem EventEncoder.encode_ok {encoder encoder' : EventEncoder} {kind : InvocationEvent.Event}
    {bytes : List UInt8} (h : encoder.encode kind = .ok (bytes, encoder')) :
    encoder.nextSequence + 1 < 2 ^ 64 ∧
      encoder' = { encoder with nextSequence := encoder.nextSequence + 1 } ∧
      bytes = InvocationEvent.encodeToVec
        ⟨encoder.requestId, encoder.nextSequence, some kind⟩ ∧
      bytes.length < 2 ^ 64 := by
  have hmax := isizeMax_lt
  unfold EventEncoder.encode at h
  by_cases hoverflow : 2 ^ 64 ≤ encoder.nextSequence + 1
  · rw [if_pos hoverflow] at h
    cases h
  · rw [if_neg hoverflow] at h
    dsimp only at h
    split_ifs at h with hlength
    cases h
    exact ⟨by omega, rfl, rfl, by omega⟩

/-- The encoder checks a progress report before it encodes it. -/
theorem EventEncoder.progress_ok {encoder : EventEncoder} {completed : UInt64}
    {total : Option UInt64} {unit message : String} {result : List UInt8 × EventEncoder}
    (h : encoder.progress completed total unit message = .ok result) :
    (∀ most, total = some most → ¬most < completed) ∧
      encoder.encode (.progress ⟨completed.toNat, total.map UInt64.toNat, unit, message⟩) =
        .ok result := by
  cases total with
  | none => exact ⟨nofun, h⟩
  | some most =>
    simp only [EventEncoder.progress] at h
    split_ifs at h with hless
    refine ⟨?_, h⟩
    rintro _ ⟨⟩
    exact hless

variable [UuidParser]

/-- The encoder and the validator count the same events of the same request. -/
structure InStep (encoder : EventEncoder) (sequence : EventSequence) : Prop where
  valid : validateUuid "invocation_event.request_id" encoder.requestId = .ok ()
  requestId : sequence.requestId = encoder.requestId
  mode : sequence.mode = encoder.mode
  next : sequence.nextSequence = encoder.nextSequence
  data : sequence.dataEvents = encoder.dataEvents
  unary : encoder.mode = .unary → encoder.dataEvents ≤ 1

/-- The validator accepts the bytes, which leaves it in the given state and in step with the
encoder. -/
def Follows (sequence : EventSequence) (state : EventSequence.State) (bytes : List UInt8)
    (encoder : EventEncoder) : Prop :=
  ∃ event sequence', InvocationEvent.decode bytes = some event ∧
    sequence.accept event = .ok sequence' ∧ InStep encoder sequence' ∧ sequence'.state = state

section

variable {encoder encoder' : EventEncoder} {sequence admitted : EventSequence}
  {kind : InvocationEvent.Event} {bytes : List UInt8}

omit [Target] in
/-- Both sides check and number an event alike. -/
theorem InStep.accept (h : InStep encoder sequence)
    (hnext : encoder.nextSequence + 1 < 2 ^ 64) (hvalid : kind.validate = .ok ())
    (hadmits : sequence.admitEvent kind = .ok admitted) :
    sequence.accept ⟨encoder.requestId, encoder.nextSequence, some kind⟩ =
      .ok { admitted with nextSequence := admitted.nextSequence + 1 } := by
  have hadmitted := EventSequence.admitEvent_nextSequence hadmits
  have hevent : InvocationEvent.validate
      ⟨encoder.requestId, encoder.nextSequence, some kind⟩ = .ok () := by
    show (validateUuid "invocation_event.request_id" encoder.requestId >>= fun _ =>
      kind.validate) = .ok ()
    rw [h.valid]
    exact hvalid
  show ((InvocationEvent.validate
    ⟨encoder.requestId, encoder.nextSequence, some kind⟩).mapError _ >>= fun _ => _) = _
  rw [hevent]
  show (if encoder.requestId ≠ sequence.requestId then _
    else if encoder.nextSequence ≠ sequence.nextSequence then _ else _) = _
  rw [if_neg (not_not.mpr h.requestId.symm), if_neg (not_not.mpr h.next.symm)]
  show (sequence.admitEvent kind >>= fun _ => _) = _
  rw [hadmits]
  show (if admitted.nextSequence + 1 < 2 ^ 64 then _ else _) = _
  rw [if_pos (by rw [hadmitted, h.next]; exact hnext)]

/-- An encoded event is followed when its kind is valid and admitted. -/
theorem InStep.emit (h : InStep encoder sequence)
    (hencode : encoder.encode kind = .ok (bytes, encoder'))
    (hprogress : ∀ report, kind = .progress report → report.Representable)
    (hfailure : ∀ fault, kind = .failure fault → fault.Representable)
    (hvalid : kind.validate = .ok ()) (hadmits : sequence.admitEvent kind = .ok admitted)
    (hkept : admitted.requestId = sequence.requestId ∧ admitted.mode = sequence.mode)
    (hunary : encoder.mode = .unary → admitted.dataEvents ≤ 1) :
    Follows sequence admitted.state bytes
      { encoder' with dataEvents := admitted.dataEvents } := by
  obtain ⟨hnext, rfl, rfl, hlength⟩ := EventEncoder.encode_ok hencode
  refine ⟨⟨encoder.requestId, encoder.nextSequence, some kind⟩, _, ?_,
    h.accept hnext hvalid hadmits, ?_, rfl⟩
  · have hnumber : encoder.nextSequence < 2 ^ 64 := by omega
    refine InvocationEvent.decode_encodeToVec ⟨hnumber, ?_, ?_⟩ hlength
    · exact fun report hkind => hprogress report (Option.some.inj hkind)
    · exact fun fault hkind => hfailure fault (Option.some.inj hkind)
  · constructor
    · exact h.valid
    · exact hkept.1.trans h.requestId
    · exact hkept.2.trans h.mode
    · show admitted.nextSequence + 1 = encoder.nextSequence + 1
      rw [EventSequence.admitEvent_nextSequence hadmits, h.next]
    · rfl
    · exact hunary

/-- The same for an event that is not counted. -/
theorem InStep.emit_uncounted (h : InStep encoder sequence)
    (hencode : encoder.encode kind = .ok (bytes, encoder'))
    (hprogress : ∀ report, kind = .progress report → report.Representable)
    (hfailure : ∀ fault, kind = .failure fault → fault.Representable)
    (hvalid : kind.validate = .ok ()) {state : EventSequence.State}
    (hadmits : sequence.admitEvent kind = .ok { sequence with state := state }) :
    Follows sequence state bytes encoder' := by
  have hdata : ({ sequence with state := state } : EventSequence).dataEvents =
      encoder.dataEvents := h.data
  have hfollows := h.emit hencode hprogress hfailure hvalid hadmits ⟨rfl, rfl⟩
    fun hmode => hdata.le.trans (h.unary hmode)
  obtain ⟨-, rfl, -⟩ := EventEncoder.encode_ok hencode
  rwa [hdata] at hfollows

theorem InStep.started (h : InStep encoder sequence) (hstate : sequence.state = .awaitingStart)
    (hstarted : encoder.started = .ok (bytes, encoder')) :
    Follows sequence .active bytes encoder' := by
  apply h.emit_uncounted hstarted nofun nofun rfl
  simp only [EventSequence.admitEvent, hstate]

theorem InStep.dataStep (h : InStep encoder sequence) (hstate : sequence.state = .active)
    {value : AnyValue} (hstep : encoder.data value = .ok (bytes, encoder')) :
    Follows sequence .active bytes encoder' := by
  obtain ⟨name, hname, hstep⟩ := bind_eq_ok.mp hstep
  split_ifs at hstep with hunary
  obtain ⟨⟨bytes', middle⟩, hencode, hstep⟩ := bind_eq_ok.mp hstep
  cases hstep
  have hvalid : InvocationEvent.Event.validate (.data (some value)) = .ok () :=
    requiredAny_of_mapError hname _
  have hnone : encoder.mode = .unary → encoder.dataEvents = 0 := by
    intro hmode
    have := h.unary hmode
    have : encoder.dataEvents ≠ 1 := fun hone => hunary ⟨hmode, hone⟩
    omega
  have hadmits : sequence.admitEvent (.data (some value)) =
      .ok { sequence with dataEvents := sequence.dataEvents + 1 } := by
    have hfree : ¬(sequence.mode = .unary ∧ 1 < sequence.dataEvents + 1) := by
      rintro ⟨hmode, hmany⟩
      have := hnone (h.mode.symm.trans hmode)
      rw [h.data] at hmany
      omega
    simp only [EventSequence.admitEvent, hstate]
    rw [if_neg hfree]
  have hone : encoder.mode = .unary → sequence.dataEvents + 1 ≤ 1 := by
    intro hmode
    rw [h.data, hnone hmode]
  have hfollows := h.emit hencode nofun nofun hvalid hadmits ⟨rfl, rfl⟩ hone
  obtain ⟨-, rfl, -⟩ := EventEncoder.encode_ok hencode
  have hcount : sequence.dataEvents + 1 = encoder.dataEvents + 1 := by rw [h.data]
  have hactive : ({ sequence with dataEvents := sequence.dataEvents + 1 } : EventSequence).state =
      .active := hstate
  rwa [hactive, hcount] at hfollows

theorem InStep.progressStep (h : InStep encoder sequence) (hstate : sequence.state = .active)
    {completed : UInt64} {total : Option UInt64} {unit message : String}
    (hstep : encoder.progress completed total unit message = .ok (bytes, encoder')) :
    Follows sequence .active bytes encoder' := by
  obtain ⟨hordered, hencode⟩ := EventEncoder.progress_ok hstep
  have hvalid : InvocationEvent.Event.validate
      (.progress ⟨completed.toNat, total.map UInt64.toNat, unit, message⟩) = .ok () := by
    cases total with
    | none => rfl
    | some most => exact if_neg fun hless => hordered most rfl (UInt64.lt_iff_toNat_lt.mpr hless)
  have hprogress : ∀ report, InvocationEvent.Event.progress
      ⟨completed.toNat, total.map UInt64.toNat, unit, message⟩ = .progress report →
        report.Representable := by
    rintro report ⟨⟩
    refine ⟨completed.toNat_lt, fun most hmost => ?_⟩
    obtain ⟨most, -, rfl⟩ := Option.map_eq_some_iff.mp hmost
    exact most.toNat_lt
  apply h.emit_uncounted hencode hprogress nofun hvalid
  simp only [EventSequence.admitEvent, hstate]
  rw [← hstate]

theorem InStep.completeStep (h : InStep encoder sequence) (hstate : sequence.state = .active)
    (hstep : encoder.complete = .ok (bytes, encoder')) :
    Follows sequence .terminal bytes encoder' := by
  rw [EventEncoder.complete] at hstep
  split_ifs at hstep with hunary
  apply h.emit_uncounted hstep nofun nofun rfl
  simp only [EventSequence.admitEvent, hstate]
  rw [h.mode, h.data, if_neg hunary]

theorem InStep.failureStep (h : InStep encoder sequence) (hstate : sequence.state = .active)
    {code : FailureCode} {message : String} {retryable : Bool} {details : Option AnyValue}
    (hstep : encoder.failure code message retryable details = .ok (bytes, encoder')) :
    Follows sequence .terminal bytes encoder' := by
  obtain ⟨⟨⟩, hcode, hstep⟩ := bind_eq_ok.mp hstep
  obtain ⟨⟨⟩, hdetails, hencode⟩ := bind_eq_ok.mp hstep
  have hspecified : code ≠ .unspecified := by
    rintro rfl
    cases hcode
  have hvalid : InvocationEvent.Event.validate
      (.failure ⟨code.toInt, message, retryable, details⟩) = .ok () := by
    simp only [InvocationEvent.Event.validate, FailureCode.tryFrom_toInt]
    cases code with
    | unspecified => exact absurd rfl hspecified
    | _ => exact details_valid hdetails
  have hfailure : ∀ fault, InvocationEvent.Event.failure
      ⟨code.toInt, message, retryable, details⟩ = .failure fault → fault.Representable := by
    rintro fault ⟨⟩
    exact code.toInt_bounds
  apply h.emit_uncounted hencode nofun hfailure hvalid
  simp only [EventSequence.admitEvent, hstate]

/-- The validator follows every step that a source can make. -/
theorem InStep.encodeStep (h : InStep encoder sequence) (hstate : sequence.state = .active)
    {step : InvocationStep} (hstep : encoder.encodeStep step = .ok (bytes, encoder')) :
    Follows sequence (if step.isTerminal then .terminal else .active) bytes encoder' := by
  cases step with
  | data value => exact h.dataStep hstate hstep
  | progress completed total unit message => exact h.progressStep hstate hstep
  | complete => exact h.completeStep hstate hstep
  | failure code message retryable details => exact h.failureStep hstate hstep

end

/-! Runs of a pulled invocation. -/

/-- Both sides agree on how far the stream has come. -/
structure PullInvocation.Agrees {σ : Type} (invocation : PullInvocation σ)
    (sequence : EventSequence) : Prop where
  inStep : InStep invocation.encoder sequence
  state : sequence.state =
    if invocation.terminal then .terminal
    else if invocation.started then .active else .awaitingStart
  started : invocation.terminal = true → invocation.started = true

section

variable {requestId : String} {mode : InvocationMode} {sequence : EventSequence}

omit [Target] in
theorem EventEncoder.new_ok
    (hvalid : validateUuid "invocation_event.request_id" requestId = .ok ()) :
    EventEncoder.new requestId mode = .ok ⟨0, mode, 0, requestId⟩ := by
  rw [EventEncoder.new, hvalid]
  rfl

omit [Target] in
theorem inStep_new (hvalid : validateUuid "invocation_event.request_id" requestId = .ok ())
    (mode : InvocationMode) :
    InStep ⟨0, mode, 0, requestId⟩ (EventSequence.new requestId mode) :=
  ⟨hvalid, rfl, rfl, rfl, rfl, fun _ => Nat.zero_le 1⟩

variable {σ : Type} {source : InvocationSource σ} {invocation : PullInvocation σ}

variable (source) in
/-- What one poll does: it emits an event that the validator follows, or it emits nothing and
leaves both sides where they are. -/
theorem PullInvocation.Agrees.next (h : invocation.Agrees sequence) :
    (∃ bytes invocation' event sequence', invocation.next source = (.ok (some bytes), invocation') ∧
      InvocationEvent.decode bytes = some event ∧ sequence.accept event = .ok sequence' ∧
        invocation'.Agrees sequence') ∨
      (∀ bytes, (invocation.next source).1 ≠ .ok (some bytes)) ∧
        (invocation.next source).2.Agrees sequence := by
  obtain ⟨encoder, state, started, terminal⟩ := invocation
  obtain ⟨hsame, hstate, hstarted⟩ := h
  cases terminal with
  | true => exact .inr ⟨nofun, hsame, hstate, hstarted⟩
  | false =>
    cases started with
    | false =>
      cases hencode : encoder.started with
      | error error =>
        have hnext : PullInvocation.next source ⟨encoder, state, false, false⟩ =
            (.error (.invalidEvents error), ⟨encoder, state, false, false⟩) := by
          simp [PullInvocation.next, hencode]
        rw [hnext]
        exact .inr ⟨nofun, hsame, hstate, hstarted⟩
      | ok result =>
        obtain ⟨bytes, encoder'⟩ := result
        have hnext : PullInvocation.next source ⟨encoder, state, false, false⟩ =
            (.ok (some bytes), ⟨encoder', state, true, false⟩) := by
          simp [PullInvocation.next, hencode]
        obtain ⟨event, sequence', hdecode, haccept, hsame', hstate'⟩ :=
          hsame.started hstate hencode
        exact .inl ⟨bytes, _, event, sequence', hnext, hdecode, haccept, hsame', hstate', nofun⟩
    | true =>
      cases hsource : source state with
      | mk result state' =>
        cases result with
        | error error =>
          have hnext : PullInvocation.next source ⟨encoder, state, true, false⟩ =
              (.error error, ⟨encoder, state', true, false⟩) := by
            simp [PullInvocation.next, hsource]
          rw [hnext]
          exact .inr ⟨nofun, hsame, hstate, hstarted⟩
        | ok step =>
          cases hencode : encoder.encodeStep step with
          | error error =>
            have hnext : PullInvocation.next source ⟨encoder, state, true, false⟩ =
                (.error (.invalidEvents error), ⟨encoder, state', true, false⟩) := by
              simp [PullInvocation.next, hsource, hencode]
            rw [hnext]
            exact .inr ⟨nofun, hsame, hstate, hstarted⟩
          | ok encoded =>
            obtain ⟨bytes, encoder'⟩ := encoded
            have hnext : PullInvocation.next source ⟨encoder, state, true, false⟩ =
                (.ok (some bytes), ⟨encoder', state', true, step.isTerminal⟩) := by
              simp [PullInvocation.next, hsource, hencode]
            obtain ⟨event, sequence', hdecode, haccept, hsame', hstate'⟩ :=
              hsame.encodeStep hstate hencode
            refine .inl ⟨bytes, _, event, sequence', hnext, hdecode, haccept, hsame', ?_,
              fun _ => rfl⟩
            rw [hstate']
            cases step.isTerminal <;> rfl

variable (source) in
/-- Any number of polls keeps both sides in agreement. -/
theorem PullInvocation.Agrees.polls {start : PullInvocation σ}
    (h : start.Agrees (EventSequence.new requestId mode)) (count : ℕ) :
    ∃ sequence, Accepts requestId mode (start.polls source count).1 sequence ∧
      (start.polls source count).2.Agrees sequence := by
  induction count with
  | zero => exact ⟨_, accepts_nil requestId mode, h⟩
  | succ count ih =>
    obtain ⟨sequence, haccepts, hagrees⟩ := ih
    rw [PullInvocation.polls]
    generalize start.polls source count = reached at haccepts hagrees
    obtain ⟨emitted, invocation⟩ := reached
    rcases hagrees.next source with ⟨bytes, invocation', event, sequence', hnext,
      hdecode, haccept, hagrees'⟩ | ⟨hnone, hagrees'⟩
    · simp only [hnext]
      exact ⟨sequence', haccepts.snoc hdecode haccept, hagrees'⟩
    · cases hnext : invocation.next source with
      | mk result invocation' =>
        rw [hnext] at hnone hagrees'
        simp only [hnext]
        rcases result with error | _ | bytes
        · exact ⟨sequence, haccepts, hagrees'⟩
        · exact ⟨sequence, haccepts, hagrees'⟩
        · exact absurd rfl (hnone bytes)

omit [UuidParser] in
/-- A poll reports the end of the stream only in the terminal state. -/
theorem PullInvocation.next_eq_none (invocation : PullInvocation σ) :
    (invocation.next source).1 = .ok none ↔ invocation.terminal = true := by
  obtain ⟨encoder, state, started, terminal⟩ := invocation
  cases terminal with
  | true => exact ⟨fun _ => rfl, fun _ => rfl⟩
  | false =>
    refine ⟨fun h => ?_, nofun⟩
    cases started with
    | false => cases hencode : encoder.started <;> simp [PullInvocation.next, hencode] at h
    | true =>
      cases hsource : source state with
      | mk result state' =>
        cases result with
        | error error => simp [PullInvocation.next, hsource] at h
        | ok step =>
          cases hencode : encoder.encodeStep step <;>
            simp [PullInvocation.next, hsource, hencode] at h

omit [Target] in
theorem PullInvocation.Agrees.finish (h : invocation.Agrees sequence) :
    sequence.finish = .ok () ↔ invocation.terminal = true := by
  rw [EventSequence.finish, h.state]
  cases invocation.terminal <;> cases invocation.started <;> simp

end

/-! Buffered streams. -/

section

variable {requestId : String} {mode : InvocationMode} {sequence : EventSequence}

omit [Target] in
/-- An accepted stream is accepted up to each of its events, and before the last one the validator
is not in its terminal state. -/
theorem Accepts.take {stream : List (List UInt8)} (h : Accepts requestId mode stream sequence)
    (count : ℕ) : ∃ reached, Accepts requestId mode (stream.take count) reached ∧
      (if count < stream.length then reached.state ≠ .terminal else reached = sequence) := by
  obtain ⟨events, hevents, hfold⟩ := h
  have hlength : stream.length = events.length := by
    simpa using congrArg List.length hevents
  rw [← List.take_append_drop count events, List.foldlM_append] at hfold
  obtain ⟨reached, hreached, hrest⟩ := bind_eq_ok.mp hfold
  refine ⟨reached, ⟨events.take count, ?_, hreached⟩, ?_⟩
  · rw [List.map_take, hevents, List.map_take]
  · split_ifs with hcount
    · have hcount' : count < events.length := hlength ▸ hcount
      rw [List.drop_eq_getElem_cons hcount', List.foldlM_cons] at hrest
      obtain ⟨next, haccept, -⟩ := bind_eq_ok.mp hrest
      obtain ⟨-, -, kind, admitted, -, hadmits, -⟩ := EventSequence.accept_ok haccept
      rcases EventSequence.admitEvent_ok hadmits with ⟨hstate, -⟩ | ⟨hstate, -⟩ | ⟨hstate, -⟩ |
        ⟨hstate, -⟩ | ⟨hstate, -⟩ <;> rw [hstate] <;> nofun
    · rw [List.drop_eq_nil_of_le (by omega)] at hrest
      exact Except.ok.inj hrest

omit [Target] [UuidParser] in
theorem BufferedInvocation.polls_eq (invocation : BufferedInvocation) (count : ℕ) :
    invocation.polls count = (invocation.events.take count, ⟨invocation.events.drop count⟩) := by
  induction count with
  | zero => rfl
  | succ count ih =>
    rw [BufferedInvocation.polls, ih, List.take_add_one]
    simp only [BufferedInvocation.next, List.head?_drop, List.tail_drop]
    cases hbytes : invocation.events[count]? with
    | none => simp
    | some bytes => simp

/-- What the builder holds is accepted, and the stream is still open. -/
def EventBuilder.Agrees (builder : EventBuilder) (requestId : String) (mode : InvocationMode) :
    Prop :=
  ∃ sequence, Accepts requestId mode builder.events sequence ∧
    InStep builder.encoder sequence ∧ sequence.state = .active

theorem EventBuilder.Agrees.call {builder builder' : EventBuilder} {call : BuilderCall}
    (h : builder.Agrees requestId mode) (hcall : builder.call call = .ok builder') :
    builder'.Agrees requestId mode := by
  obtain ⟨sequence, haccepts, hsame, hstate⟩ := h
  have happend {bytes : List UInt8} {encoder : EventEncoder}
      (hfollows : Follows sequence .active bytes encoder) :
      EventBuilder.Agrees ⟨encoder, builder.events ++ [bytes]⟩ requestId mode := by
    obtain ⟨event, sequence', hdecode, haccept, hsame', hstate'⟩ := hfollows
    exact ⟨sequence', haccepts.snoc hdecode haccept, hsame', hstate'⟩
  have hdataAny {value : AnyValue} (hcall : builder.dataAny value = .ok builder') :
      builder'.Agrees requestId mode := by
    obtain ⟨⟨bytes, encoder⟩, hstep, hresult⟩ := bind_eq_ok.mp hcall
    cases hresult
    exact happend (hsame.dataStep hstate hstep)
  cases call with
  | data fullName encoded =>
    obtain ⟨value, -, hcall⟩ := bind_eq_ok.mp hcall
    exact hdataAny hcall
  | dataAny value => exact hdataAny hcall
  | progress completed total unit message =>
    obtain ⟨⟨bytes, encoder⟩, hstep, hresult⟩ := bind_eq_ok.mp hcall
    cases hresult
    exact happend (hsame.progressStep hstate hstep)

theorem EventBuilder.Agrees.run {builder : EventBuilder} (h : builder.Agrees requestId mode)
    (calls : List BuilderCall) : (builder.run calls).Agrees requestId mode := by
  induction calls generalizing builder with
  | nil => exact h
  | cons call calls ih =>
    rw [EventBuilder.run]
    cases hcall : builder.call call with
    | ok builder' => exact ih (h.call hcall)
    | error error => exact ih h

/-- A finished stream is accepted up to its terminal event. -/
theorem EventBuilder.Agrees.finish {builder : EventBuilder} {last : BuilderEnd}
    {buffered : BufferedInvocation} (h : builder.Agrees requestId mode)
    (hfinish : builder.finish last = .ok buffered) :
    ∃ sequence, Accepts requestId mode buffered.events sequence ∧ sequence.state = .terminal := by
  obtain ⟨sequence, haccepts, hsame, hstate⟩ := h
  have happend {bytes : List UInt8} {encoder : EventEncoder}
      (hfollows : Follows sequence .terminal bytes encoder) :
      ∃ sequence, Accepts requestId mode (builder.events ++ [bytes]) sequence ∧
        sequence.state = .terminal := by
    obtain ⟨event, sequence', hdecode, haccept, -, hstate'⟩ := hfollows
    exact ⟨sequence', haccepts.snoc hdecode haccept, hstate'⟩
  cases last with
  | complete =>
    obtain ⟨⟨bytes, encoder⟩, hstep, hresult⟩ := bind_eq_ok.mp hfinish
    cases hresult
    exact happend (hsame.completeStep hstate hstep)
  | failure code message retryable details =>
    obtain ⟨⟨bytes, encoder⟩, hstep, hresult⟩ := bind_eq_ok.mp hfinish
    cases hresult
    exact happend (hsame.failureStep hstate hstep)

/-- The events of a finished stream, polled one at a time. -/
theorem EventBuilder.Agrees.polls {builder : EventBuilder} {last : BuilderEnd}
    {buffered : BufferedInvocation} (h : builder.Agrees requestId mode)
    (hfinish : builder.finish last = .ok buffered) (count : ℕ) :
    ∃ sequence, Accepts requestId mode (buffered.polls count).1 sequence ∧
      ((buffered.polls count).2.next.1 = none ↔ sequence.finish = .ok ()) := by
  obtain ⟨final, haccepts, hterminal⟩ := h.finish hfinish
  obtain ⟨reached, hreached, hstate⟩ := haccepts.take count
  rw [BufferedInvocation.polls_eq]
  refine ⟨reached, hreached, ?_⟩
  rw [BufferedInvocation.next, List.head?_eq_none_iff, List.drop_eq_nil_iff, EventSequence.finish]
  split_ifs at hstate with hcount
  · rw [if_neg hstate]
    exact ⟨fun hle => absurd hcount (not_lt.mpr hle), nofun⟩
  · rw [hstate, if_pos hterminal]
    exact ⟨fun _ => rfl, fun _ => not_lt.mp hcount⟩

theorem EventBuilder.new_ok (mode : InvocationMode)
    (hvalid : validateUuid "invocation_event.request_id" requestId = .ok ()) :
    ∃ builder, EventBuilder.new requestId mode = .ok builder ∧
      builder.Agrees requestId mode := by
  have hsame := inStep_new hvalid mode
  have hshort : JsonText.byteLength requestId.toList ≤ 45 := by
    by_contra hlong
    rw [validateUuid, if_pos (not_le.mp hlong)] at hvalid
    cases hvalid
  have hlength := InvocationEvent.length_started_le requestId
  have hroom := le_isizeMax
  have hstarted : EventEncoder.started ⟨0, mode, 0, requestId⟩ =
      .ok (InvocationEvent.encodeToVec ⟨requestId, 0, some .started⟩,
        ⟨0, mode, 1, requestId⟩) := by
    have hfits : ¬isizeMax <
        (InvocationEvent.encodeToVec ⟨requestId, 0, some .started⟩).length := by omega
    rw [EventEncoder.started, EventEncoder.encode, if_neg (by norm_num)]
    exact if_neg hfits
  obtain ⟨event, sequence, hdecode, haccept, hsame', hstate⟩ := hsame.started rfl hstarted
  refine ⟨⟨⟨0, mode, 1, requestId⟩, [_]⟩, ?_, sequence,
    (accepts_nil requestId mode).snoc hdecode haccept, hsame', hstate⟩
  show (EventEncoder.new requestId mode >>= fun _ => _) = _
  rw [EventEncoder.new_ok hvalid]
  show (EventEncoder.started ⟨0, mode, 0, requestId⟩ >>= fun _ => _) = _
  rw [hstarted]
  rfl

end

/-- Whatever steps a guest takes, through a builder or from a source that is pulled, the bytes that
it gives out are events that the host accepts, and it reports the end exactly when the host has
seen a terminal event. -/
theorem streams_accepted {σ : Type} (source : InvocationSource σ) (state : σ) {requestId : String}
    (hvalid : validateUuid "invocation_event.request_id" requestId = .ok ())
    (mode : InvocationMode) :
    (∃ builder, EventBuilder.new requestId mode = .ok builder ∧ ∀ calls,
      (∃ sequence, Accepts requestId mode (builder.run calls).events sequence) ∧
      ∀ last buffered, (builder.run calls).finish last = .ok buffered → ∀ count,
        ∃ sequence, Accepts requestId mode (buffered.polls count).1 sequence ∧
          ((buffered.polls count).2.next.1 = none ↔ sequence.finish = .ok ())) ∧
    ∃ invocation, PullInvocation.new requestId mode state = .ok invocation ∧ ∀ count,
      ∃ sequence, Accepts requestId mode (invocation.polls source count).1 sequence ∧
        (((invocation.polls source count).2.next source).1 = .ok none ↔
          sequence.finish = .ok ()) := by
  constructor
  · obtain ⟨builder, hnew, hagrees⟩ := EventBuilder.new_ok mode hvalid
    refine ⟨builder, hnew, fun calls => ⟨?_, fun last buffered hfinish => ?_⟩⟩
    · obtain ⟨sequence, haccepts, -⟩ := hagrees.run calls
      exact ⟨sequence, haccepts⟩
    · exact (hagrees.run calls).polls hfinish
  · have hnew : PullInvocation.new requestId mode state =
        .ok ⟨⟨0, mode, 0, requestId⟩, state, false, false⟩ := by
      rw [PullInvocation.new, EventEncoder.new_ok hvalid]
      rfl
    refine ⟨_, hnew, fun count => ?_⟩
    have hagrees : PullInvocation.Agrees ⟨⟨0, mode, 0, requestId⟩, state, false, false⟩
        (EventSequence.new requestId mode) := ⟨inStep_new hvalid mode, rfl, nofun⟩
    obtain ⟨sequence, haccepts, hreached⟩ := hagrees.polls source count
    refine ⟨sequence, haccepts, ?_⟩
    rw [PullInvocation.next_eq_none, hreached.finish]

end

/-! A unary invocation that answers once, after a progress report out of order. -/
namespace TestVectors

def requestId : String := "00000000-0000-4000-8000-000000000001"

local instance : UuidParser := ⟨fun text => text = requestId⟩

local instance : Target := ⟨.bits32⟩

def reply : AnyValue := ⟨"type.googleapis.com/example.Reply", [8, 1]⟩

/-- The rejected report is followed by the reply and the end. -/
def source : InvocationSource ℕ
  | 0 => (.ok (.progress 2 (some 1) "" ""), 1)
  | 1 => (.ok (.data reply), 2)
  | state => (.ok .complete, state)

theorem streams_accepted_unary :
    ∃ invocation, PullInvocation.new requestId .unary 0 = .ok invocation ∧ ∀ count,
      ∃ sequence, Accepts requestId .unary (invocation.polls source count).1 sequence ∧
        (((invocation.polls source count).2.next source).1 = .ok none ↔
          sequence.finish = .ok ()) :=
  (streams_accepted source 0 (by decide +kernel) .unary).2

example : ((PullInvocation.polls source 6 ⟨⟨0, .unary, 0, requestId⟩, 0, false, false⟩).1.map
      InvocationEvent.decode) =
    [some ⟨requestId, 0, some .started⟩, some ⟨requestId, 1, some (.data (some reply))⟩,
      some ⟨requestId, 2, some .complete⟩] := by
  decide +kernel

end TestVectors

end StoreSdk
