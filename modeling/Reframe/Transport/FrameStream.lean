import Reframe.Transport.FrameReader

/-! The reader returns the frames of its stream, however the stream hands its bytes over and
wherever calls are dropped: it agrees with the parse of the whole stream. -/
namespace Transport
open Async

/-! The parse of a stream that is all there. -/

inductive Next where
  | closed
  | frame (payload rest : List UInt8)
  | failed (error : FrameError)

/-- The first frame of some bytes: its length in four bytes, then its payload. -/
def nextFrame (maximum : ℕ) (bytes : List UInt8) : Next :=
  if bytes = [] then .closed
  else if bytes.length < headerSize then .failed (.truncatedHeader bytes.length)
  else
    let expected := fromBeBytes (bytes.take headerSize)
    let behind := bytes.drop headerSize
    if maximum < expected then .failed (.tooLarge expected maximum)
    else if behind.length < expected then .failed (.truncatedPayload expected behind.length)
    else .frame (behind.take expected) (behind.drop expected)

theorem nextFrame_eq_frame {maximum : ℕ} {bytes payload rest : List UInt8}
    (h : nextFrame maximum bytes = .frame payload rest) :
    bytes = bytes.take headerSize ++ payload ++ rest ∧ headerSize ≤ bytes.length := by
  simp only [nextFrame] at h
  split_ifs at h with hnil hshort
  cases h
  refine ⟨?_, Nat.not_lt.mp hshort⟩
  rw [List.append_assoc, List.take_append_drop, List.take_append_drop]

theorem nextFrame_rest_lt {maximum : ℕ} {bytes payload rest : List UInt8}
    (h : nextFrame maximum bytes = .frame payload rest) : rest.length < bytes.length := by
  obtain ⟨hbytes, hlength⟩ := nextFrame_eq_frame h
  have hlen := congrArg List.length hbytes
  simp only [List.length_append, List.length_take, headerSize] at hlen hlength
  omega

/-- How the stream ends behind its frames. -/
inductive Ending where
  | closed
  | failed (error : FrameError)

def parse (maximum : ℕ) (bytes : List UInt8) : List (List UInt8) × Ending :=
  match _h : nextFrame maximum bytes with
  | .closed => ([], .closed)
  | .frame payload rest => (payload :: (parse maximum rest).1, (parse maximum rest).2)
  | .failed error => ([], .failed error)
termination_by bytes.length
decreasing_by all_goals exact nextFrame_rest_lt _h

theorem parse_closed {maximum : ℕ} {bytes : List UInt8} (h : nextFrame maximum bytes = .closed) :
    parse maximum bytes = ([], .closed) := by
  unfold parse
  split <;> simp_all

theorem parse_frame {maximum : ℕ} {bytes payload rest : List UInt8}
    (h : nextFrame maximum bytes = .frame payload rest) :
    parse maximum bytes = (payload :: (parse maximum rest).1, (parse maximum rest).2) := by
  rw [parse]
  split <;> simp_all

theorem parse_failed {maximum : ℕ} {bytes : List UInt8} {error : FrameError}
    (h : nextFrame maximum bytes = .failed error) :
    parse maximum bytes = ([], .failed error) := by
  unfold parse
  split <;> simp_all

/-! The progress of the reader within one frame. `frame` are the stream's bytes from the start of
that frame on, and `admissions` the admissions before it. -/

section

variable (maximum : ℕ) (frame : List UInt8) (admissions : Option ℕ)

structure HeaderPhase (reader : FrameReader) : Prop where
  payload : reader.payload = none
  permit : reader.payloadPermit = none
  payloadReceived : reader.payloadReceived = 0
  headerLength : reader.header.length = headerSize
  received : reader.headerReceived ≤ headerSize
  bytes : frame = reader.header.take reader.headerReceived ++ reader.inner
  maximum_eq : reader.maximum = maximum
  budget : reader.inboundBudget.map Semaphore.admissions = admissions

structure PayloadPhase (reader : FrameReader) (buffer : List UInt8) : Prop where
  payload : reader.payload = some buffer
  permit : reader.payloadPermit = admissions.map fun _ => maximum
  headerLength : reader.header.length = headerSize
  headerReceived : reader.headerReceived = headerSize
  expected : fromBeBytes reader.header = buffer.length
  fits : buffer.length ≤ maximum
  received : reader.payloadReceived ≤ buffer.length
  bytes : frame = reader.header ++ buffer.take reader.payloadReceived ++ reader.inner
  maximum_eq : reader.maximum = maximum
  budget : reader.inboundBudget.map Semaphore.admissions = admissions.map (· + 1)

/-- The reader can take up the frame where it is. -/
def Resumable (reader : FrameReader) : Prop :=
  HeaderPhase maximum frame admissions reader ∨
    ∃ buffer, PayloadPhase maximum frame admissions reader buffer

/-- The reader is between two frames. -/
structure Fresh (reader : FrameReader) : Prop where
  phase : HeaderPhase maximum reader.inner admissions reader
  headerReceived : reader.headerReceived = 0

/-- Errors that do not come from the bytes of the stream. -/
def FrameError.isEnvironment : FrameError → Bool
  | .io | .readTimedOut _ | .timeoutOutOfRange _ | .inboundBudgetClosed => true
  | _ => false

/-- The frame fails as its parse does, or for a reason outside the stream. An oversized frame
fails behind its header, with no admission for it. -/
structure Failed (stop : Stop) (reader : FrameReader) : Prop where
  reason : ∃ error, stop = .error error ∧
    (error.isEnvironment = true ∨ nextFrame maximum frame = .failed error) ∧
    ∀ actual limit, error = .tooLarge actual limit →
      reader.inner = frame.drop headerSize ∧
        reader.inboundBudget.map Semaphore.admissions = admissions
  headerLength : reader.header.length = headerSize
  maximum_eq : reader.maximum = maximum

/-- What a call has taken when it returns. -/
def Taken (taken : Option AdmittedFrame) (reader : FrameReader) : Prop :=
  match taken with
  | none => nextFrame maximum frame = .closed ∧ reader.inner = [] ∧
      Fresh maximum admissions reader
  | some taken => nextFrame maximum frame = .frame taken.payload reader.inner ∧
      taken.permit = (admissions.map fun _ => maximum) ∧
      Fresh maximum (admissions.map (· + 1)) reader

end

namespace FrameReader

variable {maximum : ℕ} {frame : List UInt8} {admissions : Option ℕ} {timeout : Option ℕ}
  {clock : ℕ → Option ℕ}

theorem headerLength_of_resumable {reader : FrameReader}
    (h : Resumable maximum frame admissions reader) :
    reader.header.length = headerSize ∧ reader.maximum = maximum := by
  rcases h with h | ⟨buffer, h⟩
  · exact ⟨h.headerLength, h.maximum_eq⟩
  · exact ⟨h.headerLength, h.maximum_eq⟩

theorem failed_environment {error : FrameError} {reader : FrameReader}
    (hreader : Resumable maximum frame admissions reader) (h : error.isEnvironment = true) :
    Failed maximum frame admissions (.error error) reader := by
  obtain ⟨hlength, hmaximum⟩ := headerLength_of_resumable hreader
  refine ⟨⟨error, rfl, .inl h, ?_⟩, hlength, hmaximum⟩
  rintro actual limit rfl
  cases h

/-- The frame fails as its parse does. -/
theorem failed_parse {error : FrameError} {reader : FrameReader}
    (hreader : Resumable maximum frame admissions reader)
    (h : nextFrame maximum frame = .failed error)
    (hsmall : ∀ actual limit, error ≠ .tooLarge actual limit) :
    Failed maximum frame admissions (.error error) reader := by
  obtain ⟨hlength, hmaximum⟩ := headerLength_of_resumable hreader
  exact ⟨⟨error, rfl, .inr h, fun actual limit heq => absurd heq (hsmall actual limit)⟩, hlength,
    hmaximum⟩

/-- The phases do not depend on the deadline. -/
theorem startDeadline_cases (timeout : Option ℕ) (clock : ℕ → Option ℕ) (reader : FrameReader) :
    (∃ deadline, reader.startDeadlineIfPartial timeout clock =
        .ok { reader with frameDeadline := deadline }) ∨
      ∃ duration, reader.startDeadlineIfPartial timeout clock =
        .error (.timeoutOutOfRange duration) := by
  unfold startDeadlineIfPartial
  cases timeout with
  | none => exact .inl ⟨reader.frameDeadline, rfl⟩
  | some duration =>
    simp only
    split
    · cases clock duration with
      | none => exact .inr ⟨duration, rfl⟩
      | some deadline => exact .inl ⟨some deadline, rfl⟩
    · exact .inl ⟨reader.frameDeadline, rfl⟩

theorem headerPhase_deadline {reader : FrameReader} (deadline : Option ℕ)
    (h : HeaderPhase maximum frame admissions reader) :
    HeaderPhase maximum frame admissions { reader with frameDeadline := deadline } :=
  ⟨h.payload, h.permit, h.payloadReceived, h.headerLength, h.received, h.bytes, h.maximum_eq,
    h.budget⟩

theorem payloadPhase_deadline {reader : FrameReader} {buffer : List UInt8} (deadline : Option ℕ)
    (h : PayloadPhase maximum frame admissions reader buffer) :
    PayloadPhase maximum frame admissions { reader with frameDeadline := deadline } buffer :=
  ⟨h.payload, h.permit, h.headerLength, h.headerReceived, h.expected, h.fits, h.received, h.bytes,
    h.maximum_eq, h.budget⟩

theorem take_overwrite {buffer bytes : List UInt8} {offset : ℕ} (h : offset ≤ buffer.length) :
    (overwrite buffer offset bytes).take (offset + bytes.length) = buffer.take offset ++ bytes := by
  unfold overwrite
  apply List.take_left'
  rw [List.length_append, List.length_take, Nat.min_eq_left h]

theorem length_overwrite {buffer bytes : List UInt8} {offset : ℕ}
    (h : offset + bytes.length ≤ buffer.length) :
    (overwrite buffer offset bytes).length = buffer.length := by
  unfold overwrite
  simp only [List.length_append, List.length_take, List.length_drop]
  omega

/-- One answer to a read: nothing yet, an error of the environment, the end of the stream, or some
of its next bytes. -/
theorem readWithDeadline_cases (timeout : Option ℕ) (reader : FrameReader) {space : ℕ}
    (hspace : 0 < space) (poll : Poll) :
    reader.readWithDeadline timeout space poll = none ∨
      (∃ error, reader.readWithDeadline timeout space poll = some (.error error) ∧
        error.isEnvironment = true) ∨
      ∃ bytes inner, reader.readWithDeadline timeout space poll = some (.ok (bytes, inner)) ∧
        reader.inner = bytes ++ inner ∧ bytes.length ≤ space ∧
        (bytes.length = 0 → reader.inner = []) := by
  cases poll with
  | ready count =>
    refine .inr (.inr ⟨_, _, rfl, (List.take_append_drop _ _).symm, ?_, ?_⟩)
    · rw [List.length_take]
      omega
    · intro hzero
      rw [List.length_take] at hzero
      exact List.length_eq_zero_iff.mp (by omega)
  | failed => exact .inr (.inl ⟨_, rfl, rfl⟩)
  | elapsed =>
    unfold readWithDeadline timedOut
    cases reader.frameDeadline with
    | none => exact .inl rfl
    | some deadline =>
      cases timeout with
      | none => exact .inl rfl
      | some duration => exact .inr (.inl ⟨_, rfl, rfl⟩)

/-- The header of a frame that is cut off. -/
theorem nextFrame_truncatedHeader {bytes : List UInt8} (hpos : 0 < bytes.length)
    (hshort : bytes.length < headerSize) :
    nextFrame maximum bytes = .failed (.truncatedHeader bytes.length) := by
  rw [nextFrame, if_neg (List.length_pos_iff.mp hpos), if_pos hshort]

/-- A frame whose header is there. -/
theorem nextFrame_header {header rest : List UInt8} (hlength : header.length = headerSize) :
    nextFrame maximum (header ++ rest) =
      if maximum < fromBeBytes header then .failed (.tooLarge (fromBeBytes header) maximum)
      else if rest.length < fromBeBytes header then
        .failed (.truncatedPayload (fromBeBytes header) rest.length)
      else .frame (rest.take (fromBeBytes header)) (rest.drop (fromBeBytes header)) := by
  have hne : header ++ rest ≠ [] := by
    intro hnil
    rw [(List.append_eq_nil_iff.mp hnil).1] at hlength
    cases hlength
  have hlong : ¬ (header ++ rest).length < headerSize := by
    rw [List.length_append]
    omega
  simp only [nextFrame, if_neg hne, if_neg hlong, List.take_left' hlength,
    List.drop_left' hlength]

theorem startFrame_ensures :
    Ensures (startFrame timeout clock) (Resumable maximum frame admissions)
      (Resumable maximum frame admissions) (Failed maximum frame admissions)
      fun _ => Resumable maximum frame admissions := by
  apply ensures_withState
  intro reader hreader
  rcases startDeadline_cases timeout clock reader with ⟨deadline, hstart⟩ | ⟨duration, hstart⟩
  · rw [hstart]
    apply ensures_modify
    rintro _ rfl
    rcases hreader with hheader | ⟨buffer, hpayload⟩
    · exact .inl (headerPhase_deadline deadline hheader)
    · exact .inr ⟨buffer, payloadPhase_deadline deadline hpayload⟩
  · rw [hstart]
    apply ensures_throw
    rintro _ rfl
    exact failed_environment hreader rfl

variable (maximum frame admissions) in
/-- The header is there, or the stream has ended before it. -/
def HeaderRead (reader : FrameReader) : Prop :=
  (HeaderPhase maximum frame admissions reader ∧ reader.headerReceived = headerSize) ∨
    (HeaderPhase maximum frame admissions reader ∧ reader.headerReceived = 0 ∧ frame = []) ∨
    ∃ buffer, PayloadPhase maximum frame admissions reader buffer

/-- Some more bytes of the header. -/
theorem headerPhase_receive {reader : FrameReader} {bytes inner : List UInt8}
    (h : HeaderPhase maximum frame admissions reader) (hinner : reader.inner = bytes ++ inner)
    (hlength : reader.headerReceived + bytes.length ≤ headerSize) :
    HeaderPhase maximum frame admissions { reader with
      inner := inner
      header := overwrite reader.header reader.headerReceived bytes
      headerReceived := reader.headerReceived + bytes.length } where
  payload := h.payload
  permit := h.permit
  payloadReceived := h.payloadReceived
  headerLength := by
    rw [length_overwrite (by rw [h.headerLength]; exact hlength), h.headerLength]
  received := hlength
  bytes := by
    rw [take_overwrite (by rw [h.headerLength]; exact h.received), h.bytes, hinner,
      List.append_assoc]
  maximum_eq := h.maximum_eq
  budget := h.budget

theorem readHeader_ensures :
    Ensures (readHeader timeout clock) (Resumable maximum frame admissions)
      (Resumable maximum frame admissions) (Failed maximum frame admissions)
      fun _ => HeaderRead maximum frame admissions := by
  apply ensures_awaitLoop
  · intro reader poll hreader hguard
    have hshort : reader.headerReceived < headerSize := of_decide_eq_true hguard
    rcases hreader with hheader | ⟨buffer, hpayload⟩
    · unfold readHeaderTurn
      rcases readWithDeadline_cases timeout reader (Nat.sub_pos_of_lt hshort) poll with
        hread | ⟨error, hread, herror⟩ | ⟨bytes, inner, hread, hinner, hspace, hend⟩
      · rw [hread]
        trivial
      · rw [hread]
        exact failed_environment (.inl hheader) herror
      · rw [hread]
        by_cases hzero : bytes.length = 0
        · simp only [if_pos hzero]
          have hframe : frame = reader.header.take reader.headerReceived := by
            rw [hheader.bytes, hend hzero, List.append_nil]
          by_cases hnone : reader.headerReceived = 0
          · simp only [if_pos hnone]
            refine .inr (.inl ⟨hheader, hnone, ?_⟩)
            rw [hframe, hnone, List.take_zero]
          · simp only [if_neg hnone]
            have hlength : frame.length = reader.headerReceived := by
              rw [hframe, List.length_take, hheader.headerLength]
              omega
            refine failed_parse (.inl hheader) ?_ fun _ _ heq => (by cases heq)
            rw [nextFrame_truncatedHeader (by omega) (by omega), hlength]
        · simp only [if_neg hzero]
          have hnext := headerPhase_receive hheader hinner (by omega)
          rcases startDeadline_cases timeout clock { reader with
              inner := inner
              header := overwrite reader.header reader.headerReceived bytes
              headerReceived := reader.headerReceived + bytes.length } with
            ⟨deadline, hstart⟩ | ⟨duration, hstart⟩
          · rw [hstart]
            exact .inl (headerPhase_deadline deadline hnext)
          · rw [hstart]
            exact failed_environment (.inl hnext) rfl
    · rw [hpayload.headerReceived] at hshort
      exact absurd hshort (Nat.lt_irrefl _)
  · intro reader hreader hguard
    rcases hreader with hheader | hpayload
    · have hlong : ¬ reader.headerReceived < headerSize := of_decide_eq_false hguard
      exact .inl ⟨hheader, Nat.le_antisymm hheader.received (Nat.not_lt.mp hlong)⟩
    · exact .inr (.inr hpayload)

theorem validateLength_eq (actual : ℕ) (hmaximum : maximum ≤ maxFrameSize) :
    validateLength actual maximum =
      if maximum < actual then .error (if 2 ^ 32 - 1 < actual then .lengthOverflow actual
        else .tooLarge actual maximum) else .ok () := by
  have hfits : maxFrameSize ≤ 2 ^ 32 - 1 := by decide
  unfold validateLength
  rw [Nat.min_eq_left hmaximum]
  dsimp only
  split_ifs <;> first | rfl | omega

theorem fromBeBytes_lt (bytes : List UInt8) : fromBeBytes bytes < 256 ^ bytes.length := by
  have hfold : ∀ (bytes : List UInt8) (value : ℕ),
      bytes.foldl (fun value b => value * 256 + b.toNat) value <
        (value + 1) * 256 ^ bytes.length := by
    intro bytes
    induction bytes with
    | nil => intro value; simp
    | cons b bytes ih =>
      intro value
      have hb := b.toNat_lt
      calc (b :: bytes).foldl (fun value b => value * 256 + b.toNat) value
          < (value * 256 + b.toNat + 1) * 256 ^ bytes.length := ih _
        _ ≤ ((value + 1) * 256) * 256 ^ bytes.length := Nat.mul_le_mul_right _ (by omega)
        _ = (value + 1) * 256 ^ (b :: bytes).length := by rw [List.length_cons, pow_succ]; ring
  simpa [fromBeBytes] using hfold bytes 0

/-- The buffer for the payload, once the frame is admitted. -/
theorem payloadPhase_initial {reader : FrameReader} {expected : ℕ}
    (hheader : reader.header.length = headerSize)
    (hreceived : reader.headerReceived = headerSize)
    (hpermit : reader.payloadPermit = admissions.map fun _ => maximum)
    (hpayloadReceived : reader.payloadReceived = 0)
    (hexpected : fromBeBytes reader.header = expected) (hfits : expected ≤ maximum)
    (hbytes : frame = reader.header ++ reader.inner) (hmaximum : reader.maximum = maximum)
    (hbudget : reader.inboundBudget.map Semaphore.admissions = admissions.map (· + 1)) :
    PayloadPhase maximum frame admissions
      { reader with payload := some (List.replicate expected 0) } (List.replicate expected 0) where
  payload := rfl
  permit := hpermit
  headerLength := hheader
  headerReceived := hreceived
  expected := by rw [hexpected, List.length_replicate]
  fits := by rwa [List.length_replicate]
  received := by rw [hpayloadReceived]; exact Nat.zero_le _
  bytes := by rw [hpayloadReceived, List.take_zero, List.append_nil, hbytes]
  maximum_eq := hmaximum
  budget := hbudget

variable (maximum frame admissions) in
/-- The frame is admitted, and its buffer not yet there. -/
structure Admitted (reader : FrameReader) : Prop where
  headerLength : reader.header.length = headerSize
  headerReceived : reader.headerReceived = headerSize
  permit : reader.payloadPermit = admissions.map fun _ => maximum
  payloadReceived : reader.payloadReceived = 0
  bytes : frame = reader.header ++ reader.inner
  maximum_eq : reader.maximum = maximum
  budget : reader.inboundBudget.map Semaphore.admissions = admissions.map (· + 1)

theorem headerPhase_bytes {reader : FrameReader}
    (h : HeaderPhase maximum frame admissions reader)
    (hreceived : reader.headerReceived = headerSize) : frame = reader.header ++ reader.inner := by
  rw [h.bytes, hreceived, List.take_of_length_le (Nat.le_of_eq h.headerLength)]

/-- The wait for admission leaves everything else as it is. -/
theorem admission_ensures (header : List UInt8) :
    Ensures (awaitLoop (fun reader => reader.inboundBudget.isSome) (admissionTurn timeout))
      (fun reader => HeaderPhase maximum frame admissions reader ∧
        reader.headerReceived = headerSize ∧ reader.header = header)
      (fun reader => HeaderPhase maximum frame admissions reader ∧
        reader.headerReceived = headerSize ∧ reader.header = header)
      (Failed maximum frame admissions)
      fun _ reader => Admitted maximum frame admissions reader ∧ reader.header = header := by
  apply ensures_awaitLoop
  · rintro reader poll ⟨h, hreceived, hheader⟩ hguard
    have hbytes := headerPhase_bytes h hreceived
    obtain ⟨budget, hbudget⟩ := Option.isSome_iff_exists.mp hguard
    have hadmissions : admissions = some budget.admissions := by
      rw [← h.budget, hbudget]
      rfl
    unfold admissionTurn
    simp only [hbudget]
    cases poll with
    | ready count =>
      refine ⟨⟨h.headerLength, hreceived, ?_, h.payloadReceived, hbytes, h.maximum_eq, ?_⟩, hheader⟩
      · rw [hadmissions, h.maximum_eq]
        rfl
      · rw [hadmissions]
        rfl
    | failed => exact failed_environment (.inl h) rfl
    | elapsed =>
      unfold acquireWithDeadline timedOut
      cases reader.frameDeadline with
      | none => trivial
      | some deadline =>
        cases timeout with
        | none => trivial
        | some duration => exact failed_environment (.inl h) rfl
  · rintro reader ⟨h, hreceived, hheader⟩ hguard
    have hbudget : reader.inboundBudget = none := Option.isNone_iff_eq_none.mp (by simpa using hguard)
    have hadmissions : admissions = none := by
      rw [← h.budget, hbudget]
      rfl
    refine ⟨⟨h.headerLength, hreceived, ?_, h.payloadReceived, headerPhase_bytes h hreceived,
      h.maximum_eq, ?_⟩, hheader⟩
    · rw [h.permit, hadmissions]
      rfl
    · rw [h.budget, hadmissions]
      rfl

theorem initializePayload_ensures (hmaximum : maximum ≤ maxFrameSize) :
    Ensures (initializePayload timeout)
      (fun reader => (HeaderPhase maximum frame admissions reader ∧
        reader.headerReceived = headerSize) ∨
          ∃ buffer, PayloadPhase maximum frame admissions reader buffer)
      (Resumable maximum frame admissions) (Failed maximum frame admissions)
      fun _ reader => ∃ buffer, PayloadPhase maximum frame admissions reader buffer := by
  apply ensures_withState
  rintro reader (⟨hheader, hreceived⟩ | ⟨buffer, hpayload⟩)
  · have hbytes := headerPhase_bytes hheader hreceived
    have hsmall : fromBeBytes reader.header < 2 ^ 32 := by
      have hlt := fromBeBytes_lt reader.header
      rwa [hheader.headerLength] at hlt
    have hfits32 : maxFrameSize < 2 ^ 32 := by decide
    rw [if_pos (by rw [hheader.payload]; rfl)]
    simp only [hheader.maximum_eq, validateLength_eq _ hmaximum]
    by_cases hlarge : maximum < fromBeBytes reader.header
    · rw [if_pos hlarge, if_neg (by omega)]
      apply ensures_throw
      rintro _ rfl
      refine ⟨⟨_, rfl, .inr ?_, ?_⟩, hheader.headerLength, hheader.maximum_eq⟩
      · rw [hbytes, nextFrame_header hheader.headerLength, if_pos hlarge]
      · rintro actual limit heq
        rw [hbytes, List.drop_left' hheader.headerLength]
        exact ⟨rfl, hheader.budget⟩
    · rw [if_neg hlarge]
      dsimp only
      rw [if_neg (by omega)]
      refine Ensures.bind ((admission_ensures reader.header).mono ?_ ?_ (fun _ _ h => h)
        fun _ _ h => h) ?_
      · rintro _ rfl
        exact ⟨hheader, hreceived, rfl⟩
      · rintro reader' ⟨h, -, -⟩
        exact .inl h
      · intro _
        apply ensures_modify
        rintro reader' ⟨h, hsame⟩
        exact ⟨_, payloadPhase_initial h.headerLength h.headerReceived h.permit h.payloadReceived
          (by rw [hsame]) (Nat.not_lt.mp hlarge) h.bytes h.maximum_eq h.budget⟩
  · rw [if_neg (by rw [hpayload.payload]; simp)]
    apply ensures_pure
    rintro _ rfl
    exact ⟨buffer, hpayload⟩

/-- Some more bytes of the payload. -/
theorem payloadPhase_receive {reader : FrameReader} {buffer bytes inner : List UInt8}
    (h : PayloadPhase maximum frame admissions reader buffer)
    (hinner : reader.inner = bytes ++ inner)
    (hlength : reader.payloadReceived + bytes.length ≤ buffer.length) :
    PayloadPhase maximum frame admissions
      { reader with
        inner := inner
        payload := some (overwrite buffer reader.payloadReceived bytes)
        payloadReceived := reader.payloadReceived + bytes.length }
      (overwrite buffer reader.payloadReceived bytes) where
  payload := rfl
  permit := h.permit
  headerLength := h.headerLength
  headerReceived := h.headerReceived
  expected := by rw [h.expected, length_overwrite hlength]
  fits := by rw [length_overwrite hlength]; exact h.fits
  received := by rw [length_overwrite hlength]; exact hlength
  bytes := by
    rw [take_overwrite h.received, h.bytes, hinner]
    simp only [List.append_assoc]
  maximum_eq := h.maximum_eq
  budget := h.budget

/-- The stream ends within the payload. -/
theorem nextFrame_truncatedPayload {reader : FrameReader} {buffer : List UInt8}
    (h : PayloadPhase maximum frame admissions reader buffer) (hinner : reader.inner = [])
    (hshort : reader.payloadReceived < buffer.length) :
    nextFrame maximum frame =
      .failed (.truncatedPayload buffer.length reader.payloadReceived) := by
  have hlength : (buffer.take reader.payloadReceived).length = reader.payloadReceived := by
    rw [List.length_take]
    omega
  rw [h.bytes, hinner, List.append_nil, nextFrame_header h.headerLength, h.expected,
    if_neg (Nat.not_lt.mpr h.fits), hlength, if_pos hshort]

theorem readPayload_ensures :
    Ensures (readPayload timeout)
      (fun reader => ∃ buffer, PayloadPhase maximum frame admissions reader buffer)
      (fun reader => ∃ buffer, PayloadPhase maximum frame admissions reader buffer)
      (Failed maximum frame admissions)
      fun _ reader => ∃ buffer, PayloadPhase maximum frame admissions reader buffer ∧
        reader.payloadReceived = buffer.length := by
  apply ensures_awaitLoop
  · rintro reader poll ⟨buffer, hpayload⟩ hguard
    have hshort : reader.payloadReceived < buffer.length := by
      simpa [hpayload.payload] using hguard
    unfold readPayloadTurn
    simp only [hpayload.payload]
    rcases readWithDeadline_cases timeout reader (Nat.sub_pos_of_lt hshort) poll with
      hread | ⟨error, hread, herror⟩ | ⟨bytes, inner, hread, hinner, hspace, hend⟩
    · rw [hread]
      trivial
    · rw [hread]
      exact failed_environment (.inr ⟨buffer, hpayload⟩) herror
    · rw [hread]
      by_cases hzero : bytes.length = 0
      · simp only [if_pos hzero]
        exact failed_parse (.inr ⟨buffer, hpayload⟩)
          (nextFrame_truncatedPayload hpayload (hend hzero) hshort) fun _ _ heq => (by cases heq)
      · simp only [if_neg hzero]
        exact ⟨_, payloadPhase_receive hpayload hinner (by omega)⟩
  · rintro reader ⟨buffer, hpayload⟩ hguard
    have hlong : ¬ reader.payloadReceived < buffer.length := by
      simpa [hpayload.payload] using hguard
    exact ⟨buffer, hpayload, Nat.le_antisymm hpayload.received (Nat.not_lt.mp hlong)⟩

/-- A reader whose progress is cleared is between two frames. -/
theorem fresh_of_cleared {reader : FrameReader} {count : Option ℕ}
    (hpayload : reader.payload = none) (hpermit : reader.payloadPermit = none)
    (hpayloadReceived : reader.payloadReceived = 0)
    (hlength : reader.header.length = headerSize) (hreceived : reader.headerReceived = 0)
    (hmaximum : reader.maximum = maximum)
    (hbudget : reader.inboundBudget.map Semaphore.admissions = count) :
    Fresh maximum count reader :=
  ⟨⟨hpayload, hpermit, hpayloadReceived, hlength, by omega,
    by rw [hreceived, List.take_zero, List.nil_append], hmaximum, hbudget⟩, hreceived⟩

theorem takeFrame_ensures {fail : Stop → FrameReader → Prop} :
    Ensures takeFrame
      (fun reader => ∃ buffer, PayloadPhase maximum frame admissions reader buffer ∧
        reader.payloadReceived = buffer.length)
      (Resumable maximum frame admissions) fail (Taken maximum frame admissions) := by
  apply ensures_withState
  rintro reader ⟨buffer, h, hreceived⟩
  have hwhole : buffer.take reader.payloadReceived = buffer := by rw [hreceived, List.take_length]
  have hnext : nextFrame maximum frame = .frame buffer reader.inner := by
    rw [h.bytes, hwhole, List.append_assoc, nextFrame_header h.headerLength, h.expected,
      if_neg (Nat.not_lt.mpr h.fits), if_neg (by rw [List.length_append]; omega),
      List.take_left, List.drop_left]
  intro _ polls hsame
  subst hsame
  simp only [h.payload]
  exact ⟨hnext, h.permit, fresh_of_cleared rfl rfl rfl h.headerLength rfl h.maximum_eq h.budget⟩

/-- What a failed call leaves: the reason, and a reader that is cleared. -/
def FailedClear (maximum : ℕ) (frame : List UInt8) (admissions : Option ℕ) (stop : Stop)
    (reader : FrameReader) : Prop :=
  Failed maximum frame admissions stop reader ∧
    Fresh maximum (reader.inboundBudget.map Semaphore.admissions) reader

theorem readFrameInner_ensures (timeout : Option ℕ) (clock : ℕ → Option ℕ)
    (hmaximum : maximum ≤ maxFrameSize) :
    Ensures (readFrameInner timeout clock) (Resumable maximum frame admissions)
      (Resumable maximum frame admissions) (FailedClear maximum frame admissions)
      (Taken maximum frame admissions) := by
  have hclear : ∀ stop reader, Failed maximum frame admissions stop reader →
      FailedClear maximum frame admissions stop reader.resetFrame := fun _ _ h =>
    ⟨⟨h.reason, h.headerLength, h.maximum_eq⟩,
      fresh_of_cleared rfl rfl rfl h.headerLength rfl h.maximum_eq rfl⟩
  have hrest : Ensures (do
        (initializePayload timeout).onError resetFrame
        (readPayload timeout).onError resetFrame
        takeFrame)
      (fun reader => (HeaderPhase maximum frame admissions reader ∧
        reader.headerReceived = headerSize) ∨
          ∃ buffer, PayloadPhase maximum frame admissions reader buffer)
      (Resumable maximum frame admissions) (FailedClear maximum frame admissions)
      (Taken maximum frame admissions) :=
    ((initializePayload_ensures hmaximum).onError hclear).bind fun _ =>
      ((readPayload_ensures.onError hclear).mono (fun _ h => h) (fun _ h => .inr h)
        (fun _ _ h => h) fun _ _ h => h).bind fun _ => takeFrame_ensures
  refine (startFrame_ensures.onError hclear).bind fun _ =>
    (readHeader_ensures.onError hclear).bind fun _ => ensures_withState fun reader hreader => ?_
  rcases hreader with ⟨hheader, hreceived⟩ | ⟨hheader, hnone, hframe⟩ | ⟨buffer, hpayload⟩
  · rw [if_neg (by rw [hreceived]; decide)]
    apply hrest.mono _ (fun _ h => h) (fun _ _ h => h) fun _ _ h => h
    rintro _ rfl
    exact .inl ⟨hheader, hreceived⟩
  · rw [if_pos hnone]
    have hinner : reader.inner = [] := by
      have hbytes := hheader.bytes
      rw [hnone, List.take_zero, List.nil_append, hframe] at hbytes
      exact hbytes.symm
    apply ensures_pure
    rintro _ rfl
    refine ⟨by rw [hframe]; rfl, hinner, fresh_of_cleared hheader.payload hheader.permit
      hheader.payloadReceived hheader.headerLength hnone hheader.maximum_eq hheader.budget⟩
  · rw [if_neg (by rw [hpayload.headerReceived]; decide)]
    apply hrest.mono _ (fun _ h => h) (fun _ _ h => h) fun _ _ h => h
    rintro _ rfl
    exact .inr ⟨buffer, hpayload⟩

end FrameReader

/-! A call returns when its awaits are answered often enough. -/

/-- The await has something to go on with. -/
def Poll.Ready (poll : Poll) : Prop := ∃ count, poll = .ready count

namespace FrameReader

variable {timeout : Option ℕ} {clock : ℕ → Option ℕ}

/-- What the stream still has. -/
def left (reader : FrameReader) : ℕ := reader.inner.length

theorem startFrame_prompt : Prompt Poll.Ready left 0 (startFrame timeout clock) := by
  apply prompt_withState
  intro reader
  rcases startDeadline_cases timeout clock reader with ⟨deadline, hstart⟩ | ⟨duration, hstart⟩
  · rw [hstart]
    exact prompt_modify rfl
  · rw [hstart]
    exact prompt_throw reader

theorem readHeader_prompt : Prompt Poll.Ready left 1 (readHeader timeout clock) := by
  apply prompt_awaitLoop
  rintro reader _ ⟨count, rfl⟩ hguard
  have hshort : reader.headerReceived < headerSize := of_decide_eq_true hguard
  unfold readHeaderTurn
  simp only [readWithDeadline]
  split_ifs with hzero hnone
  · exact Nat.le_refl _
  · exact Nat.le_refl _
  · have hless : (reader.inner.drop (min (count + 1) (headerSize - reader.headerReceived))).length <
        reader.inner.length := by
      rw [List.length_take] at hzero
      rw [List.length_drop]
      omega
    rcases startDeadline_cases timeout clock { reader with
        inner := reader.inner.drop (min (count + 1) (headerSize - reader.headerReceived))
        header := overwrite reader.header reader.headerReceived
          (reader.inner.take (min (count + 1) (headerSize - reader.headerReceived)))
        headerReceived := reader.headerReceived +
          (reader.inner.take (min (count + 1) (headerSize - reader.headerReceived))).length } with
      ⟨deadline, hstart⟩ | ⟨duration, hstart⟩
    · rw [hstart]
      exact hless
    · rw [hstart]
      exact Nat.le_of_lt hless

theorem initializePayload_prompt : Prompt Poll.Ready left 1 (initializePayload timeout) := by
  have hadmission : Prompt Poll.Ready left 1
      (awaitLoop (fun reader => reader.inboundBudget.isSome) (admissionTurn timeout)) := by
    apply prompt_awaitLoop
    rintro reader _ ⟨count, rfl⟩ hguard
    obtain ⟨budget, hbudget⟩ := Option.isSome_iff_exists.mp hguard
    simp only [admissionTurn, hbudget, acquireWithDeadline]
    exact Nat.le_refl _
  apply prompt_withState
  intro reader
  split
  · dsimp only
    split
    · exact prompt_throw.mono (Nat.zero_le 1) reader
    · split
      · exact prompt_throw.mono (Nat.zero_le 1) reader
      · have hbuffer : Prompt Poll.Ready left 0 (Call.modify fun reader' : FrameReader =>
            { reader' with payload := some (List.replicate (fromBeBytes reader.header) 0) }
              : Call Poll FrameReader Stop Unit) := fun _ => prompt_modify rfl
        exact hadmission.bind (fun _ => hbuffer) reader
  · exact prompt_pure.mono (Nat.zero_le 1) reader

theorem readPayload_prompt : Prompt Poll.Ready left 1 (readPayload timeout) := by
  apply prompt_awaitLoop
  rintro reader _ ⟨count, rfl⟩ hguard
  unfold readPayloadTurn
  cases hpayload : reader.payload with
  | none => exact Nat.le_refl _
  | some payload =>
    simp only [readWithDeadline]
    split_ifs with hzero
    · exact Nat.le_refl _
    · simp only [left, List.length_drop]
      rw [List.length_take] at hzero
      omega

theorem takeFrame_prompt : Prompt Poll.Ready left 0 takeFrame := by
  apply prompt_withState
  intro reader
  split
  · exact prompt_throw reader
  · intro polls hready _
    refine ⟨_, _, _, rfl, hready, ?_⟩
    simp only [left]
    omega

/-- Three answers more than the stream has bytes are enough for any call. -/
theorem readFrameInner_prompt : Prompt Poll.Ready left 3 (readFrameInner timeout clock) := by
  have hreset : ∀ reader, left (resetFrame reader) = left reader := fun _ => rfl
  have hrest : Prompt Poll.Ready left 2 (do
      (initializePayload timeout).onError resetFrame
      (readPayload timeout).onError resetFrame
      takeFrame) :=
    (initializePayload_prompt.onError hreset).bind fun _ =>
      (readPayload_prompt.onError hreset).bind fun _ => takeFrame_prompt
  have htail : Prompt Poll.Ready left 2 (Call.withState fun reader =>
      if reader.headerReceived = 0 then Call.pure none
      else do
        (initializePayload timeout).onError resetFrame
        (readPayload timeout).onError resetFrame
        takeFrame) := by
    apply prompt_withState
    intro reader
    split
    · exact prompt_pure.mono (Nat.zero_le 2) reader
    · exact hrest reader
  have hall : Prompt Poll.Ready left (0 + (1 + 2)) (readFrameInner timeout clock) :=
    (startFrame_prompt.onError hreset).bind fun _ =>
      (readHeader_prompt.onError hreset).bind fun _ => htail
  exact hall

end FrameReader

/-! Runs of calls. -/

section

variable {E : Type*} (decode : List UInt8 → Option E)

/-- The error comes from outside the stream. -/
def Result.isEnvironment : Result E → Bool
  | .error reason => reason.isEnvironment
  | _ => false

def Result.isError : Result E → Bool
  | .error _ | .panicked => true
  | _ => false

/-- What calls of these kinds return on a stream with this parse: `permit` is the admission of
each frame. -/
def answers (permit : Option ℕ) : List Kind → List (List UInt8) × Ending → List (Result E)
  | [], _ => []
  | kind :: kinds, (payload :: frames, ending) =>
    present decode kind ⟨payload, permit⟩ :: answers permit kinds (frames, ending)
  | _ :: kinds, ([], .closed) => .closed :: answers permit kinds ([], .closed)
  | _ :: _, ([], .failed error) => [.error error]

/-- The results of the calls that returned, and the reader behind them. -/
structure Served (E : Type*) where
  returned : List (Kind × Result E)
  reader : FrameReader

/-- The results that the stream decides. -/
def Served.decided {E : Type*} (served : Served E) : List (Kind × Result E) :=
  served.returned.filter fun entry => !entry.2.isEnvironment

/-- A run of calls up to the first error. -/
def FrameReader.serveAll (reader : FrameReader) : List Request → Served E
  | [] => ⟨[], reader⟩
  | request :: requests =>
    match reader.serve decode request with
    | (none, reader') => serveAll reader' requests
    | (some result, reader') =>
      if result.isError then ⟨[(request.kind, result)], reader'⟩
      else
        let served := serveAll reader' requests
        ⟨(request.kind, result) :: served.returned, served.reader⟩

/-- The reader after some calls, errors or not. -/
def FrameReader.after (reader : FrameReader) (requests : List Request) : FrameReader :=
  requests.foldl (fun reader request => (reader.serve decode request).2) reader

namespace FrameReader

variable {maximum : ℕ} {frame : List UInt8} {admissions : Option ℕ}

theorem nextFrame_eq_closed (h : nextFrame maximum frame = .closed) : frame = [] := by
  by_contra hne
  simp only [nextFrame, if_neg hne] at h
  split_ifs at h

/-- What one call does, from anywhere within a frame. -/
theorem serve_cases (hmaximum : maximum ≤ maxFrameSize) {reader : FrameReader}
    (hreader : Resumable maximum frame admissions reader) (request : Request) :
    (∃ reader', reader.serve decode request = (none, reader') ∧
      Resumable maximum frame admissions reader') ∨
    (∃ reader', reader.serve decode request = (some .closed, reader') ∧ frame = [] ∧
      reader'.inner = [] ∧ Fresh maximum admissions reader') ∨
    (∃ payload reader', reader.serve decode request =
        (some (present decode request.kind ⟨payload, admissions.map fun _ => maximum⟩), reader') ∧
      nextFrame maximum frame = .frame payload reader'.inner ∧
      Fresh maximum (admissions.map (· + 1)) reader') ∨
    ∃ error reader', reader.serve decode request = (some (.error error), reader') ∧
      (error.isEnvironment = true ∨ nextFrame maximum frame = .failed error) ∧
      (∀ actual limit, error = .tooLarge actual limit → reader'.inner = frame.drop headerSize ∧
        reader'.inboundBudget.map Semaphore.admissions = admissions) ∧
      Fresh maximum (reader'.inboundBudget.map Semaphore.admissions) reader' := by
  have h := readFrameInner_ensures request.timeout request.clock hmaximum reader request.polls
    hreader
  unfold serve
  cases hrun : readFrameInner request.timeout request.clock reader request.polls with
  | waiting reader' =>
    rw [hrun] at h
    exact .inl ⟨reader', rfl, h⟩
  | returned result reader' rest =>
    rw [hrun] at h
    cases result with
    | ok taken =>
      cases taken with
      | none =>
        obtain ⟨hclosed, hinner, hfresh⟩ := h
        exact .inr (.inl ⟨reader', rfl, nextFrame_eq_closed hclosed, hinner, hfresh⟩)
      | some taken =>
        obtain ⟨payload, permit⟩ := taken
        obtain ⟨hnext, rfl, hfresh⟩ := h
        exact .inr (.inr (.inl ⟨payload, reader', rfl, hnext, hfresh⟩))
    | error stop =>
      obtain ⟨⟨⟨error, rfl, hreason, hlarge⟩, -, -⟩, hfresh⟩ := h
      exact .inr (.inr (.inr ⟨error, reader', rfl, hreason, hlarge, hfresh⟩))

theorem resumable_of_fresh {reader : FrameReader} (h : Fresh maximum admissions reader) :
    Resumable maximum reader.inner admissions reader := .inl h.phase

section

variable {decode} {reader reader' : FrameReader} {request : Request} {result : Result E}

theorem serveAll_waiting (h : reader.serve decode request = (none, reader'))
    (requests : List Request) :
    reader.serveAll decode (request :: requests) = reader'.serveAll decode requests := by
  rw [serveAll, h]

theorem serveAll_next (h : reader.serve decode request = (some result, reader'))
    (hok : result.isError = false) (requests : List Request) :
    reader.serveAll decode (request :: requests) =
      ⟨(request.kind, result) :: (reader'.serveAll decode requests).returned,
        (reader'.serveAll decode requests).reader⟩ := by
  rw [serveAll, h]
  simp [hok]

theorem serveAll_error (h : reader.serve decode request = (some result, reader'))
    (herror : result.isError = true) (requests : List Request) :
    reader.serveAll decode (request :: requests) = ⟨[(request.kind, result)], reader'⟩ := by
  rw [serveAll, h]
  simp [herror]

end

theorem present_not_environment (kind : Kind) (taken : AdmittedFrame) :
    (present decode kind taken).isEnvironment = false := by
  unfold present
  cases kind with
  | frame => rfl
  | envelope => cases decode taken.payload <;> rfl
  | admitted =>
    cases decode taken.payload with
    | none => rfl
    | some envelope => cases taken.permit <;> rfl

theorem present_not_large (kind : Kind) (taken : AdmittedFrame) (actual limit : ℕ) :
    present decode kind taken ≠ .error (.tooLarge actual limit) := by
  unfold present
  cases kind with
  | frame => simp
  | envelope => cases decode taken.payload <;> simp
  | admitted =>
    cases decode taken.payload with
    | none => simp
    | some envelope => cases taken.permit <;> simp

/-- The calls of a run return what the parse says. -/
theorem serveAll_answers (hmaximum : maximum ≤ maxFrameSize) (requests : List Request) :
    ∀ {reader : FrameReader} {frame : List UInt8} {admissions : Option ℕ},
      Resumable maximum frame admissions reader →
        (reader.serveAll decode requests).decided.map Prod.snd =
          answers decode (admissions.map fun _ => maximum)
            ((reader.serveAll decode requests).decided.map Prod.fst) (parse maximum frame) := by
  induction requests with
  | nil => intro reader frame admissions _; rfl
  | cons request requests ih =>
    intro reader frame admissions hreader
    rcases serve_cases decode hmaximum hreader request with
      ⟨reader', hserve, hnext⟩ | ⟨reader', hserve, rfl, hinner, hfresh⟩ |
      ⟨payload, reader', hserve, hnext, hfresh⟩ | ⟨error, reader', hserve, hreason, -, -⟩
    · rw [serveAll_waiting hserve]
      exact ih hnext
    · have hparse : parse maximum [] = ([], .closed) := parse_closed rfl
      have hrest := ih (resumable_of_fresh hfresh)
      rw [hinner, hparse] at hrest
      rw [serveAll_next hserve rfl, hparse]
      exact congrArg (.closed :: ·) hrest
    · have hdecided := present_not_environment decode request.kind
        ⟨payload, admissions.map fun _ => maximum⟩
      rw [parse_frame hnext]
      by_cases herror : (present decode request.kind
          ⟨payload, admissions.map fun _ => maximum⟩).isError = true
      · rw [serveAll_error hserve herror]
        simp [Served.decided, hdecided, answers]
      · have hrest := ih (resumable_of_fresh hfresh)
        rw [Option.map_map] at hrest
        rw [serveAll_next hserve (by simpa using herror)]
        simp only [Served.decided, List.filter_cons, hdecided, Bool.not_false, if_true,
          List.map_cons, answers]
        exact congrArg _ hrest
    · rw [serveAll_error hserve rfl]
      by_cases henvironment : error.isEnvironment = true
      · simp [Served.decided, Result.isEnvironment, henvironment, answers]
      · rw [parse_failed (hreason.resolve_left henvironment)]
        simp [Served.decided, Result.isEnvironment, henvironment, answers]

/-- The bytes of some frames with their headers. -/
def frameBytes (frames : List (List UInt8)) : ℕ :=
  (frames.map fun payload => headerSize + payload.length).sum

theorem drop_frame {payload rest : List UInt8} (h : nextFrame maximum frame = .frame payload rest) :
    rest = frame.drop (headerSize + payload.length) := by
  obtain ⟨hbytes, hlength⟩ := nextFrame_eq_frame h
  have htake : (frame.take headerSize ++ payload).length = headerSize + payload.length := by
    rw [List.length_append, List.length_take, Nat.min_eq_left hlength]
  conv_rhs => rw [hbytes]
  rw [List.drop_left' htake]

theorem getLast?_of_cons {α : Type*} {x y : α} {l : List α} (h : (x :: l).getLast? = some y)
    (hne : x ≠ y) : l.getLast? = some y := by
  cases l with
  | nil => exact absurd (Option.some.inj h) hne
  | cons z l => rwa [List.getLast?_cons_cons] at h

/-- An oversized frame is refused behind its header: nothing more of the stream is read, and the
frames before it are the only ones admitted. -/
theorem serveAll_tooLarge (hmaximum : maximum ≤ maxFrameSize) (requests : List Request)
    {kind : Kind} {actual limit : ℕ} :
    ∀ {reader : FrameReader} {frame : List UInt8} {admissions : Option ℕ},
      Resumable maximum frame admissions reader →
        (reader.serveAll decode requests).returned.getLast? =
            some (kind, .error (.tooLarge actual limit)) →
          (reader.serveAll decode requests).reader.inner =
              frame.drop (frameBytes (parse maximum frame).1 + headerSize) ∧
            (reader.serveAll decode requests).reader.inboundBudget.map Semaphore.admissions =
              admissions.map (· + (parse maximum frame).1.length) := by
  induction requests with
  | nil =>
    intro reader frame admissions _ hlast
    cases hlast
  | cons request requests ih =>
    intro reader frame admissions hreader hlast
    rcases serve_cases decode hmaximum hreader request with
      ⟨reader', hserve, hnext⟩ | ⟨reader', hserve, rfl, hinner, hfresh⟩ |
      ⟨payload, reader', hserve, hnext, hfresh⟩ | ⟨error, reader', hserve, hreason, hlarge, -⟩
    · rw [serveAll_waiting hserve] at hlast ⊢
      exact ih hnext hlast
    · rw [serveAll_next hserve rfl] at hlast ⊢
      have hrest := ih (resumable_of_fresh hfresh) (getLast?_of_cons hlast (by simp))
      rwa [hinner] at hrest
    · by_cases herror : (present decode request.kind
          ⟨payload, admissions.map fun _ => maximum⟩).isError = true
      · rw [serveAll_error hserve herror] at hlast
        have hdecided := present_not_large decode request.kind
          ⟨payload, admissions.map fun _ => maximum⟩ actual limit
        exact absurd (Prod.ext_iff.mp (Option.some.inj hlast)).2 hdecided
      · rw [serveAll_next hserve (by simpa using herror)] at hlast ⊢
        have hne := present_not_large decode request.kind
          ⟨payload, admissions.map fun _ => maximum⟩ actual limit
        obtain ⟨hinner, hadmissions⟩ := ih (resumable_of_fresh hfresh)
          (getLast?_of_cons hlast fun heq => hne (Prod.ext_iff.mp heq).2)
        rw [parse_frame hnext]
        constructor
        · rw [hinner, drop_frame hnext, List.drop_drop, ← Nat.add_assoc]
          rfl
        · rw [hadmissions, Option.map_map]
          congr 1
          funext count
          simp only [Function.comp_apply, List.length_cons]
          omega
    · rw [serveAll_error hserve rfl] at hlast ⊢
      obtain rfl : error = .tooLarge actual limit := by
        simpa using (Prod.ext_iff.mp (Option.some.inj hlast)).2
      have hfailed := hreason.resolve_left (by simp [FrameError.isEnvironment])
      obtain ⟨hinner, hadmissions⟩ := hlarge actual limit rfl
      rw [parse_failed hfailed]
      refine ⟨by simpa [frameBytes] using hinner, ?_⟩
      rw [hadmissions]
      simp

/-- Whatever was called before, the reader can be read on from where it is. -/
theorem after_resumable (hmaximum : maximum ≤ maxFrameSize) (requests : List Request) :
    ∀ {reader : FrameReader}, (∃ frame admissions, Resumable maximum frame admissions reader) →
      ∃ frame admissions, Resumable maximum frame admissions (reader.after decode requests) := by
  induction requests with
  | nil => intro reader h; exact h
  | cons request requests ih =>
    rintro reader ⟨frame, admissions, hreader⟩
    rw [after, List.foldl_cons]
    apply ih
    rcases serve_cases decode hmaximum hreader request with
      ⟨reader', hserve, hnext⟩ | ⟨reader', hserve, -, -, hfresh⟩ |
      ⟨payload, reader', hserve, -, hfresh⟩ | ⟨error, reader', hserve, -, -, hfresh⟩
    · rw [hserve]
      exact ⟨frame, admissions, hnext⟩
    · rw [hserve]
      exact ⟨_, _, resumable_of_fresh hfresh⟩
    · rw [hserve]
      exact ⟨_, _, resumable_of_fresh hfresh⟩
    · rw [hserve]
      exact ⟨_, _, resumable_of_fresh hfresh⟩

/-- A call that returns leaves no permit behind. -/
theorem serve_permit (hmaximum : maximum ≤ maxFrameSize) {reader : FrameReader}
    (hreader : Resumable maximum frame admissions reader) (request : Request)
    (hreturned : (reader.serve decode request).1.isSome) :
    (reader.serve decode request).2.payloadPermit = none := by
  rcases serve_cases decode hmaximum hreader request with
    ⟨reader', hserve, hnext⟩ | ⟨reader', hserve, -, -, hfresh⟩ |
    ⟨payload, reader', hserve, -, hfresh⟩ | ⟨error, reader', hserve, -, -, hfresh⟩
  · rw [hserve] at hreturned
    cases hreturned
  · rw [hserve]
    exact hfresh.phase.permit
  · rw [hserve]
    exact hfresh.phase.permit
  · rw [hserve]
    exact hfresh.phase.permit

/-- A call with enough answers returns. -/
theorem serve_returns (reader : FrameReader) (request : Request)
    (hready : ∀ poll ∈ request.polls, Poll.Ready poll)
    (hlength : reader.inner.length + 3 ≤ request.polls.length) :
    (reader.serve decode request).1.isSome := by
  obtain ⟨result, reader', rest, hrun, -, -⟩ :=
    readFrameInner_prompt reader request.polls hready hlength
  unfold serve
  rw [hrun]
  cases result with
  | ok taken => cases taken <;> rfl
  | error stop => cases stop <;> rfl

end FrameReader

end

/-! Frames that are written one after the other. -/

theorem fromBeBytes_putU32 {value : ℕ} (h : value < 2 ^ 32) : fromBeBytes (putU32 value) = value := by
  simp only [fromBeBytes, putU32, List.foldl_cons, List.foldl_nil, UInt8.toNat_ofNat']
  omega

theorem encodeFrame_eq_ok {M : Type*} {encode : M → List UInt8} {message : M} {maximum : ℕ}
    {bytes : List UInt8} (h : encodeFrame encode message maximum = .ok bytes) :
    bytes = putU32 (encode message).length ++ encode message ∧
      (encode message).length ≤ min maximum maxFrameSize := by
  have hsmall : maxFrameSize < 2 ^ 32 := by decide
  simp only [encodeFrame, validateLength] at h
  split_ifs at h with hoverflow hlarge
  · cases h
  · cases h
  · cases h
    exact ⟨rfl, Nat.not_lt.mp hlarge⟩

/-- What was written is read back, frame by frame. -/
theorem parse_written {M : Type*} {encode : M → List UInt8} {maximum : ℕ} {messages : List M}
    {frames : List (List UInt8)}
    (h : List.Forall₂ (fun message bytes => encodeFrame encode message maximum = .ok bytes)
      messages frames) :
    parse (min maximum maxFrameSize) frames.flatten = (messages.map encode, .closed) := by
  have hsmall : maxFrameSize < 2 ^ 32 := by decide
  induction h with
  | nil => exact parse_closed rfl
  | @cons message bytes messages frames hframe _ ih =>
    obtain ⟨rfl, hlength⟩ := encodeFrame_eq_ok hframe
    have hheader : fromBeBytes (putU32 (encode message).length) = (encode message).length :=
      fromBeBytes_putU32 (by omega)
    have hnext : nextFrame (min maximum maxFrameSize)
        (putU32 (encode message).length ++ (encode message ++ frames.flatten)) =
          .frame (encode message) frames.flatten := by
      rw [FrameReader.nextFrame_header rfl, hheader, if_neg (Nat.not_lt.mpr hlength),
        if_neg (by rw [List.length_append]; omega), List.take_left, List.drop_left]
    rw [List.flatten_cons, List.append_assoc, parse_frame hnext, ih, List.map_cons]

/-- However a stream hands over its bytes and wherever calls are dropped and made again: the calls
return the frames of its parse and then its end, up to the first error. An oversized frame is
refused right behind its header and before any admission; a call that returns leaves no permit in
the reader; a call whose awaits are answered returns; and frames that were written one after the
other are the parse of their bytes. -/
theorem frameReader_reads_stream {E M : Type*} (decode : List UInt8 → Option E)
    (encode : M → List UInt8) (bytes : List UInt8) (maximum : ℕ) (budget : Option Semaphore)
    (requests : List Request) :
    let limit := min maximum maxFrameSize
    let reader := { FrameReader.new bytes maximum with inboundBudget := budget }
    let served := reader.serveAll decode requests
    let later := reader.after decode requests
    served.decided.map Prod.snd = answers decode (budget.map fun _ => limit)
        (served.decided.map Prod.fst) (parse limit bytes) ∧
      (∀ kind actual bound,
        served.returned.getLast? = some (kind, .error (.tooLarge actual bound)) →
          served.reader.inner =
              bytes.drop (FrameReader.frameBytes (parse limit bytes).1 + headerSize) ∧
            served.reader.inboundBudget.map Semaphore.admissions =
              budget.map fun semaphore => semaphore.admissions + (parse limit bytes).1.length) ∧
      (∀ request, (later.serve decode request).1.isSome →
        (later.serve decode request).2.payloadPermit = none) ∧
      (∀ request, (∀ poll ∈ request.polls, Poll.Ready poll) →
        later.inner.length + 3 ≤ request.polls.length → (later.serve decode request).1.isSome) ∧
      ∀ (messages : List M) (frames : List (List UInt8)),
        List.Forall₂ (fun message frame => encodeFrame encode message maximum = .ok frame)
          messages frames → parse limit frames.flatten = (messages.map encode, .closed) := by
  intro limit reader served later
  have hmaximum : limit ≤ maxFrameSize := Nat.min_le_right _ _
  have hstart : Resumable limit bytes (budget.map Semaphore.admissions) reader :=
    .inl ⟨rfl, rfl, rfl, rfl, Nat.zero_le _, rfl, rfl, rfl⟩
  refine ⟨?_, ?_, ?_, ?_, fun messages frames h => parse_written h⟩
  · have hanswers := FrameReader.serveAll_answers decode hmaximum requests hstart
    rwa [Option.map_map] at hanswers
  · intro kind actual bound hlast
    have hlarge := FrameReader.serveAll_tooLarge decode hmaximum requests hstart hlast
    rwa [Option.map_map] at hlarge
  · intro request hreturned
    obtain ⟨frame, admissions, hlater⟩ :=
      FrameReader.after_resumable decode hmaximum requests ⟨_, _, hstart⟩
    exact FrameReader.serve_permit decode hmaximum hlater request hreturned
  · intro request hready hlength
    exact FrameReader.serve_returns decode later request hready hlength

end Transport
