import Mathlib.Data.String.Basic
import Reframe.Lib.WireCodec
import Reframe.Runtime.EventStream

/-! Invocation events on the wire, as the generated code of their messages writes and reads them. -/
namespace Runtime
open WireFormat

def AnyValue.fields (value : AnyValue) : List Field :=
  textField 1 value.typeUrl ++ bytesField 2 value.value

def AnyValue.merge (value : AnyValue) : Field → Option AnyValue
  | (1, .lengthDelimited bytes) =>
    (decodeText bytes).map fun typeUrl => { value with typeUrl := typeUrl }
  | (2, .lengthDelimited bytes) => some { value with value := bytes }
  | (1, _) | (2, _) => none
  | _ => some value

def InvocationData.fields : Option AnyValue → List Field
  | some value => messageField 1 value.fields
  | none => []

def InvocationData.merge (data : Option AnyValue) : Field → Option (Option AnyValue)
  | (1, .lengthDelimited bytes) =>
    (mergeMessage AnyValue.merge (data.getD ⟨"", []⟩) bytes).map some
  | (1, _) => none
  | _ => some data

def InvocationProgress.fields (progress : InvocationProgress) : List Field :=
  uintField 1 progress.completed ++ optionalUintField 2 progress.total ++
    textField 3 progress.unit ++ textField 4 progress.message

def InvocationProgress.merge (progress : InvocationProgress) : Field → Option InvocationProgress
  | (1, .varint value) => some { progress with completed := value }
  | (2, .varint value) => some { progress with total := some value }
  | (3, .lengthDelimited bytes) =>
    (decodeText bytes).map fun unit => { progress with unit := unit }
  | (4, .lengthDelimited bytes) =>
    (decodeText bytes).map fun message => { progress with message := message }
  | (1, _) | (2, _) | (3, _) | (4, _) => none
  | _ => some progress

def InvocationFailure.fields (failure : InvocationFailure) : List Field :=
  intField 1 failure.code ++ textField 2 failure.message ++ boolField 3 failure.retryable ++
    match failure.details with
    | some details => messageField 4 details.fields
    | none => []

def InvocationFailure.merge (failure : InvocationFailure) : Field → Option InvocationFailure
  | (1, .varint value) => some { failure with code := toInt32 value }
  | (2, .lengthDelimited bytes) =>
    (decodeText bytes).map fun message => { failure with message := message }
  | (3, .varint value) => some { failure with retryable := value ≠ 0 }
  | (4, .lengthDelimited bytes) =>
    (mergeMessage AnyValue.merge (failure.details.getD ⟨"", []⟩) bytes).map fun details =>
      { failure with details := some details }
  | (1, _) | (2, _) | (3, _) | (4, _) => none
  | _ => some failure

def InvocationEvent.Event.fields : InvocationEvent.Event → List Field
  | .started => messageField 10 []
  | .data value => messageField 11 (InvocationData.fields value)
  | .progress report => messageField 12 report.fields
  | .complete => messageField 13 []
  | .failure fault => messageField 14 fault.fields

def InvocationEvent.fields (event : InvocationEvent) : List Field :=
  textField 1 event.requestId ++ uintField 2 event.sequenceNumber ++
    match event.event with
    | some kind => kind.fields
    | none => []

/-- A member of the oneof goes on with the value there is, if that is the same member. -/
def InvocationEvent.merge (event : InvocationEvent) : Field → Option InvocationEvent
  | (1, .lengthDelimited bytes) =>
    (decodeText bytes).map fun requestId => { event with requestId := requestId }
  | (2, .varint value) => some { event with sequenceNumber := value }
  | (10, .lengthDelimited bytes) =>
    (decodeFields bytes).map fun _ => { event with event := some .started }
  | (11, .lengthDelimited bytes) =>
    let current := match event.event with
      | some (.data value) => value
      | _ => none
    (mergeMessage InvocationData.merge current bytes).map fun value =>
      { event with event := some (.data value) }
  | (12, .lengthDelimited bytes) =>
    let current := match event.event with
      | some (.progress report) => report
      | _ => ⟨0, none, "", ""⟩
    (mergeMessage InvocationProgress.merge current bytes).map fun report =>
      { event with event := some (.progress report) }
  | (13, .lengthDelimited bytes) =>
    (decodeFields bytes).map fun _ => { event with event := some .complete }
  | (14, .lengthDelimited bytes) =>
    let current := match event.event with
      | some (.failure fault) => fault
      | _ => ⟨0, "", false, none⟩
    (mergeMessage InvocationFailure.merge current bytes).map fun fault =>
      { event with event := some (.failure fault) }
  | (1, _) | (2, _) | (10, _) | (11, _) | (12, _) | (13, _) | (14, _) => none
  | _ => some event

def InvocationEvent.encodeToVec (event : InvocationEvent) : List UInt8 := encodeFields event.fields

def InvocationEvent.decode (bytes : List UInt8) : Option InvocationEvent :=
  mergeMessage InvocationEvent.merge ⟨"", 0, none⟩ bytes

/-! Round trips, one message at a time. -/

theorem AnyValue.fields_written (value : AnyValue) : Written value.fields :=
  (textField_written (by decide) (by decide) _).append
    (bytesField_written (by decide) (by decide) _)

theorem AnyValue.merge_encodeFields (value : AnyValue)
    (hlength : (encodeFields value.fields).length < 2 ^ 64) :
    mergeMessage AnyValue.merge ⟨"", []⟩ (encodeFields value.fields) = some value := by
  have htypeUrl : (textField 1 value.typeUrl).foldlM AnyValue.merge ⟨"", []⟩ =
      some ⟨value.typeUrl, []⟩ :=
    foldlM_textField (fun typeUrl => AnyValue.mk typeUrl []) _ (fun _ => rfl) rfl
  have hvalue : (bytesField 2 value.value).foldlM AnyValue.merge ⟨value.typeUrl, []⟩ =
      some value :=
    foldlM_bytesField (fun bytes => { value with value := bytes }) _ (fun _ => rfl) rfl
  rw [mergeMessage_encodeFields value.fields_written hlength]
  exact foldlM_append htypeUrl hvalue

theorem InvocationData.merge_encodeFields (data : Option AnyValue)
    (hlength : (encodeFields (InvocationData.fields data)).length < 2 ^ 64) :
    mergeMessage InvocationData.merge none (encodeFields (InvocationData.fields data)) =
      some data := by
  cases data with
  | none => rfl
  | some value =>
    have hinner : (encodeFields value.fields).length < 2 ^ 64 :=
      (length_le_encodeFields List.mem_cons_self).trans_lt hlength
    have hwritten : Written (InvocationData.fields (some value)) :=
      written_bytes (by decide) (by decide) _
    rw [mergeMessage_encodeFields hwritten hlength]
    apply foldlM_singleton
    show (mergeMessage AnyValue.merge ⟨"", []⟩ (encodeFields value.fields)).map some = _
    rw [value.merge_encodeFields hinner, Option.map_some]

/-- Numbers of 64 bits. -/
structure InvocationProgress.Representable (progress : InvocationProgress) : Prop where
  completed : progress.completed < 2 ^ 64
  total : ∀ total, progress.total = some total → total < 2 ^ 64

theorem InvocationProgress.fields_written {progress : InvocationProgress}
    (h : progress.Representable) : Written progress.fields :=
  (((uintField_written (by decide) (by decide) h.completed).append
    (optionalUintField_written (by decide) (by decide) h.total)).append
      (textField_written (by decide) (by decide) _)).append
        (textField_written (by decide) (by decide) _)

theorem InvocationProgress.merge_encodeFields {progress : InvocationProgress}
    (h : progress.Representable) (hlength : (encodeFields progress.fields).length < 2 ^ 64) :
    mergeMessage InvocationProgress.merge ⟨0, none, "", ""⟩ (encodeFields progress.fields) =
      some progress := by
  obtain ⟨completed, total, unit, message⟩ := progress
  have hcompleted : (uintField 1 completed).foldlM InvocationProgress.merge ⟨0, none, "", ""⟩ =
      some ⟨completed, none, "", ""⟩ :=
    foldlM_uintField (fun count => InvocationProgress.mk count none "" "") _ (fun _ => rfl) rfl
  have htotal : (optionalUintField 2 total).foldlM InvocationProgress.merge
      ⟨completed, none, "", ""⟩ = some ⟨completed, total, "", ""⟩ :=
    foldlM_optionalUintField (fun count => InvocationProgress.mk completed count "" "") _
      (fun _ => rfl) rfl
  have hunit : (textField 3 unit).foldlM InvocationProgress.merge ⟨completed, total, "", ""⟩ =
      some ⟨completed, total, unit, ""⟩ :=
    foldlM_textField (fun text => InvocationProgress.mk completed total text "") _
      (fun _ => rfl) rfl
  have hmessage : (textField 4 message).foldlM InvocationProgress.merge
      ⟨completed, total, unit, ""⟩ = some ⟨completed, total, unit, message⟩ :=
    foldlM_textField (fun text => InvocationProgress.mk completed total unit text) _
      (fun _ => rfl) rfl
  rw [mergeMessage_encodeFields (fields_written h) hlength]
  exact foldlM_append (foldlM_append (foldlM_append hcompleted htotal) hunit) hmessage

/-- A code of 32 bits. -/
def InvocationFailure.Representable (failure : InvocationFailure) : Prop :=
  -2 ^ 31 ≤ failure.code ∧ failure.code < 2 ^ 31

/-- The last field of a failure. -/
def InvocationFailure.detailsField (details : Option AnyValue) : List Field :=
  match details with
  | some details => messageField 4 details.fields
  | none => []

theorem InvocationFailure.fields_written (failure : InvocationFailure) :
    Written failure.fields := by
  have hcode : Written (intField 1 failure.code) := intField_written (by decide) (by decide) _
  have hmessage : Written (textField 2 failure.message) :=
    textField_written (by decide) (by decide) _
  have hretryable : Written (boolField 3 failure.retryable) :=
    boolField_written (by decide) (by decide) _
  have hdetails : Written (detailsField failure.details) := by
    cases failure.details with
    | none => exact written_nil
    | some details => exact written_bytes (by decide) (by decide) _
  exact ((hcode.append hmessage).append hretryable).append hdetails

theorem InvocationFailure.merge_encodeFields {failure : InvocationFailure}
    (h : failure.Representable) (hlength : (encodeFields failure.fields).length < 2 ^ 64) :
    mergeMessage InvocationFailure.merge ⟨0, "", false, none⟩ (encodeFields failure.fields) =
      some failure := by
  rw [mergeMessage_encodeFields failure.fields_written hlength]
  obtain ⟨code, message, retryable, details⟩ := failure
  have hcode : (intField 1 code).foldlM InvocationFailure.merge ⟨0, "", false, none⟩ =
      some ⟨code, "", false, none⟩ :=
    foldlM_intField (fun code => InvocationFailure.mk code "" false none) h.1 h.2
      (fun _ => rfl) rfl
  have hmessage : (textField 2 message).foldlM InvocationFailure.merge ⟨code, "", false, none⟩ =
      some ⟨code, message, false, none⟩ :=
    foldlM_textField (fun text => InvocationFailure.mk code text false none) _ (fun _ => rfl) rfl
  have hretryable : (boolField 3 retryable).foldlM InvocationFailure.merge
      ⟨code, message, false, none⟩ = some ⟨code, message, retryable, none⟩ :=
    foldlM_boolField (fun flag => InvocationFailure.mk code message flag none) _
      (fun _ => rfl) rfl
  have hdetails : (detailsField details).foldlM InvocationFailure.merge
      ⟨code, message, retryable, none⟩ = some ⟨code, message, retryable, details⟩ := by
    cases details with
    | none => rfl
    | some details =>
      have hmem : (4, .lengthDelimited (encodeFields details.fields)) ∈
          InvocationFailure.fields ⟨code, message, retryable, some details⟩ :=
        List.mem_append_right _ List.mem_cons_self
      have hinner := (length_le_encodeFields hmem).trans_lt hlength
      apply foldlM_singleton
      show (mergeMessage AnyValue.merge ⟨"", []⟩ (encodeFields details.fields)).map _ = _
      rw [details.merge_encodeFields hinner, Option.map_some]
  exact foldlM_append (foldlM_append (foldlM_append hcode hmessage) hretryable) hdetails

/-- An event whose numbers have the widths of their fields. -/
structure InvocationEvent.Representable (event : InvocationEvent) : Prop where
  sequenceNumber : event.sequenceNumber < 2 ^ 64
  progress : ∀ report, event.event = some (.progress report) → report.Representable
  failure : ∀ fault, event.event = some (.failure fault) → fault.Representable

/-- The member of the oneof. -/
def InvocationEvent.eventField (kind : Option InvocationEvent.Event) : List Field :=
  match kind with
  | some kind => kind.fields
  | none => []

theorem InvocationEvent.fields_written {event : InvocationEvent} (h : event.Representable) :
    Written event.fields := by
  have hrequestId : Written (textField 1 event.requestId) :=
    textField_written (by decide) (by decide) _
  have hsequence : Written (uintField 2 event.sequenceNumber) :=
    uintField_written (by decide) (by decide) h.sequenceNumber
  have hevent : Written (eventField event.event) := by
    cases event.event with
    | none => exact written_nil
    | some kind => cases kind <;> exact written_bytes (by decide) (by decide) _
  exact (hrequestId.append hsequence).append hevent

/-- The member of the oneof is read into an event without one. -/
theorem InvocationEvent.foldlM_eventField {event : InvocationEvent} (h : event.Representable)
    (hlength : (encodeFields event.fields).length < 2 ^ 64) :
    (eventField event.event).foldlM InvocationEvent.merge
      ⟨event.requestId, event.sequenceNumber, none⟩ = some event := by
  obtain ⟨requestId, sequenceNumber, kind⟩ := event
  cases kind with
  | none => rfl
  | some kind =>
    have hinner {number : ℕ} {fields : List Field}
        (hkind : kind.fields = messageField number fields) :
        (encodeFields fields).length < 2 ^ 64 := by
      have hmem : (number, .lengthDelimited (encodeFields fields)) ∈
          InvocationEvent.fields ⟨requestId, sequenceNumber, some kind⟩ := by
        apply List.mem_append_right
        show _ ∈ kind.fields
        rw [hkind]
        exact List.mem_cons_self
      exact (length_le_encodeFields hmem).trans_lt hlength
    cases kind with
    | started => rfl
    | complete => rfl
    | data value =>
      apply foldlM_singleton
      show (mergeMessage InvocationData.merge none
        (encodeFields (InvocationData.fields value))).map _ = _
      rw [InvocationData.merge_encodeFields value (hinner rfl), Option.map_some]
    | progress report =>
      apply foldlM_singleton
      show (mergeMessage InvocationProgress.merge ⟨0, none, "", ""⟩
        (encodeFields report.fields)).map _ = _
      rw [InvocationProgress.merge_encodeFields (h.progress report rfl) (hinner rfl),
        Option.map_some]
    | failure fault =>
      apply foldlM_singleton
      show (mergeMessage InvocationFailure.merge ⟨0, "", false, none⟩
        (encodeFields fault.fields)).map _ = _
      rw [InvocationFailure.merge_encodeFields (h.failure fault rfl) (hinner rfl),
        Option.map_some]

/-- An encoded event is decoded again, unless it is too large for the length prefixes. -/
theorem InvocationEvent.decode_encodeToVec {event : InvocationEvent} (h : event.Representable)
    (hlength : event.encodeToVec.length < 2 ^ 64) : decode event.encodeToVec = some event := by
  have hrequestId : (textField 1 event.requestId).foldlM InvocationEvent.merge ⟨"", 0, none⟩ =
      some ⟨event.requestId, 0, none⟩ :=
    foldlM_textField (fun text => InvocationEvent.mk text 0 none) _ (fun _ => rfl) rfl
  have hsequence : (uintField 2 event.sequenceNumber).foldlM InvocationEvent.merge
      ⟨event.requestId, 0, none⟩ = some ⟨event.requestId, event.sequenceNumber, none⟩ :=
    foldlM_uintField (fun count => InvocationEvent.mk event.requestId count none) _
      (fun _ => rfl) rfl
  have hevent := foldlM_eventField h hlength
  rw [decode, encodeToVec, mergeMessage_encodeFields (fields_written h) hlength]
  exact foldlM_append (foldlM_append hrequestId hsequence) hevent

/-! The length of a `Started` event. -/

theorem length_encodeText (text : String) :
    (encodeText text).length = JsonText.byteLength text.toList := by
  have hsize : (encodeText text).length = text.utf8ByteSize := by
    rw [encodeText, Array.length_toList, ← String.size_toByteArray]
    rfl
  have hlen (chars : List Char) : String.utf8Len chars = JsonText.byteLength chars := by
    induction chars with
    | nil => rfl
    | cons c chars ih =>
      rw [String.utf8Len_cons, ih, JsonText.byteLength_cons]
      omega
  rw [hsize, ← hlen, ← String.utf8ByteSize_ofList, String.ofList_toList]

theorem length_encodeField_le (number : ℕ) (payload : Payload) :
    (encodeField (number, payload)).length ≤ 10 + (encodePayload payload).length := by
  rw [encodeField, List.length_append]
  exact Nat.add_le_add_right (length_encodeVarint_le _) _

theorem length_textField_le (number : ℕ) (text : String) :
    (encodeFields (textField number text)).length ≤ 20 + JsonText.byteLength text.toList := by
  unfold textField
  split_ifs
  · exact Nat.zero_le _
  · have hfield := length_encodeField_le number (.lengthDelimited (encodeText text))
    have hleads := length_encodeVarint_le (encodeText text).length
    rw [encodePayload, List.length_append, length_encodeText] at hfield
    rw [length_encodeText] at hleads
    rw [encodeFields, List.flatMap_singleton]
    omega

theorem InvocationEvent.length_started_le (requestId : String) :
    (encodeToVec ⟨requestId, 0, some .started⟩).length ≤
      40 + JsonText.byteLength requestId.toList := by
  have hrequestId := length_textField_le 1 requestId
  have hstarted := length_encodeField_le 10 (.lengthDelimited [])
  have hleads := length_encodeVarint_le 0
  have hsplit : (encodeToVec ⟨requestId, 0, some .started⟩).length =
      (encodeFields (textField 1 requestId)).length +
        (encodeField (10, .lengthDelimited [])).length := by
    rw [encodeToVec, InvocationEvent.fields, encodeFields, List.flatMap_append,
      List.flatMap_append, List.length_append, List.length_append]
    rfl
  simp only [encodePayload, List.length_nil, List.append_nil] at hstarted
  omega

end Runtime
