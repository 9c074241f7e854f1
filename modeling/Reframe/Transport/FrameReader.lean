import Reframe.Lib.Async

/-! The reader of length-delimited frames. Its progress lives in the reader, so a call that is
dropped while it waits is taken up by the next one. -/
namespace Transport
open Async

def headerSize : ℕ := 4

def maxFrameSize : ℕ := 64 * 1024 * 1024

inductive FrameError where
  | io
  | tooLarge (actual maximum : ℕ)
  | lengthOverflow (actual : ℕ)
  | truncatedHeader (received : ℕ)
  | truncatedPayload (expected received : ℕ)
  | decode
  | readTimedOut (timeout : ℕ)
  | timeoutOutOfRange (timeout : ℕ)
  | inboundBudgetClosed
  deriving DecidableEq, Repr

/-- How a call ends other than with its value: with an error, or in an `expect`. -/
inductive Stop where
  | error (error : FrameError)
  | panic
  deriving DecidableEq, Repr

def validateLength (actual maximum : ℕ) : Except FrameError Unit :=
  let maximum := min maximum maxFrameSize
  if 2 ^ 32 - 1 < actual then .error (.lengthOverflow actual)
  else if maximum < actual then .error (.tooLarge actual maximum)
  else .ok ()

/-- The big-endian number of some bytes. -/
def fromBeBytes (bytes : List UInt8) : ℕ := bytes.foldl (fun value b => value * 256 + b.toNat) 0

def putU32 (value : ℕ) : List UInt8 :=
  [UInt8.ofNat (value / 2 ^ 24), UInt8.ofNat (value / 2 ^ 16), UInt8.ofNat (value / 2 ^ 8),
    UInt8.ofNat value]

/-- The frame of a message: `encode` is its protobuf encoding. -/
def encodeFrame {M : Type*} (encode : M → List UInt8) (message : M) (maximum : ℕ) :
    Except FrameError (List UInt8) := do
  let payload := encode message
  validateLength payload.length maximum
  if 2 ^ 32 - 1 < payload.length then throw (.lengthOverflow payload.length)
  return putU32 payload.length ++ payload

/-- The budget that all connections share, as far as this reader goes: how often it was admitted. -/
structure Semaphore where
  admissions : ℕ
  deriving DecidableEq, Repr

structure FrameReader where
  /-- The bytes that the stream still has, up to its end. -/
  inner : List UInt8
  maximum : ℕ
  header : List UInt8
  headerReceived : ℕ
  payload : Option (List UInt8)
  payloadPermit : Option ℕ
  inboundBudget : Option Semaphore
  payloadReceived : ℕ
  frameDeadline : Option ℕ
  deriving DecidableEq, Repr

/-- How an await is answered. A read that is ready hands over so many bytes and one, as far as
there are and the buffer has room; an admission that is ready is granted. -/
inductive Poll where
  | ready (count : ℕ)
  | failed
  | elapsed
  deriving DecidableEq, Repr

namespace FrameReader

def new (inner : List UInt8) (maximum : ℕ) : FrameReader where
  inner := inner
  maximum := min maximum maxFrameSize
  header := List.replicate headerSize 0
  headerReceived := 0
  payload := none
  payloadPermit := none
  inboundBudget := none
  payloadReceived := 0
  frameDeadline := none

def withInboundBudget (inner : List UInt8) (maximum : ℕ) (inboundBudget : Semaphore) :
    FrameReader :=
  { new inner maximum with inboundBudget := some inboundBudget }

def resetFrame (reader : FrameReader) : FrameReader :=
  { reader with
    headerReceived := 0
    payload := none
    payloadPermit := none
    payloadReceived := 0
    frameDeadline := none }

section

/- The timeout of the call, and the instant that the clock gives for it: none when it does not
fit. -/
variable (timeout : Option ℕ) (clock : ℕ → Option ℕ)

def startDeadlineIfPartial (reader : FrameReader) : Except FrameError FrameReader :=
  match timeout with
  | none => .ok reader
  | some duration =>
    if reader.frameDeadline.isNone ∧ (0 < reader.headerReceived ∨ reader.payload.isSome) then
      match clock duration with
      | none => .error (.timeoutOutOfRange duration)
      | some deadline => .ok { reader with frameDeadline := some deadline }
    else .ok reader

/-- What an await gives when the deadline passes: without one it goes on waiting. -/
def timedOut (reader : FrameReader) : Option FrameError :=
  match reader.frameDeadline, timeout with
  | some _, some duration => some (.readTimedOut duration)
  | _, _ => none

/-- One answer to a read into a buffer with `space` bytes: the bytes, and those behind them. -/
def readWithDeadline (reader : FrameReader) (space : ℕ) :
    Poll → Option (Except FrameError (List UInt8 × List UInt8))
  | .ready count => some (.ok (reader.inner.take (min (count + 1) space),
      reader.inner.drop (min (count + 1) space)))
  | .failed => some (.error .io)
  | .elapsed => (reader.timedOut timeout).map .error

/-- One answer to the wait for admission. -/
def acquireWithDeadline (reader : FrameReader) (permits : ℕ) : Poll → Option (Except FrameError ℕ)
  | .ready _ => some (.ok permits)
  | .failed => some (.error .inboundBudgetClosed)
  | .elapsed => (reader.timedOut timeout).map .error

/-- The buffer with the bytes written from the offset on. -/
def overwrite (buffer : List UInt8) (offset : ℕ) (bytes : List UInt8) : List UInt8 :=
  buffer.take offset ++ bytes ++ buffer.drop (offset + bytes.length)

def readHeaderTurn (reader : FrameReader) (poll : Poll) : Option (Turn FrameReader Stop Unit) :=
  match reader.readWithDeadline timeout (headerSize - reader.headerReceived) poll with
  | none => none
  | some (.error error) => some (.stop (.error (.error error)) reader)
  | some (.ok (bytes, inner)) =>
    if bytes.length = 0 then
      if reader.headerReceived = 0 then some (.stop (.ok ()) reader)
      else some (.stop (.error (.error (.truncatedHeader reader.headerReceived))) reader)
    else
      let reader := { reader with
        inner := inner
        header := overwrite reader.header reader.headerReceived bytes
        headerReceived := reader.headerReceived + bytes.length }
      match reader.startDeadlineIfPartial timeout clock with
      | .error error => some (.stop (.error (.error error)) reader)
      | .ok reader => some (.next reader)

def readHeader : Call Poll FrameReader Stop Unit :=
  awaitLoop (fun reader => reader.headerReceived < headerSize) (readHeaderTurn timeout clock)

/-- One turn of the wait for admission. -/
def admissionTurn (reader : FrameReader) (poll : Poll) : Option (Turn FrameReader Stop Unit) :=
  match reader.inboundBudget with
  | none => some (.stop (.ok ()) reader)
  | some budget =>
    match reader.acquireWithDeadline timeout reader.maximum poll with
    | none => none
    | some (.error error) => some (.stop (.error (.error error)) reader)
    | some (.ok permit) =>
      some (.stop (.ok ()) { reader with
        payloadPermit := some permit
        inboundBudget := some ⟨budget.admissions + 1⟩ })

def initializePayload : Call Poll FrameReader Stop Unit :=
  Call.withState fun reader =>
    if reader.payload.isNone then
      let expected := fromBeBytes reader.header
      match validateLength expected reader.maximum with
      | .error error => Call.throw (.error error)
      | .ok () =>
        if reader.inboundBudget.isSome ∧ 2 ^ 32 ≤ reader.maximum then Call.throw .panic
        else do
          awaitLoop (fun reader => reader.inboundBudget.isSome) (admissionTurn timeout)
          Call.modify fun reader => { reader with payload := some (List.replicate expected 0) }
    else Call.pure ()

def readPayloadTurn (reader : FrameReader) (poll : Poll) : Option (Turn FrameReader Stop Unit) :=
  match reader.payload with
  | none => some (.stop (.error .panic) reader)
  | some payload =>
    match reader.readWithDeadline timeout (payload.length - reader.payloadReceived) poll with
    | none => none
    | some (.error error) => some (.stop (.error (.error error)) reader)
    | some (.ok (bytes, inner)) =>
      if bytes.length = 0 then
        some (.stop (.error (.error (.truncatedPayload payload.length reader.payloadReceived)))
          reader)
      else
        some (.next { reader with
          inner := inner
          payload := some (overwrite payload reader.payloadReceived bytes)
          payloadReceived := reader.payloadReceived + bytes.length })

def readPayload : Call Poll FrameReader Stop Unit :=
  awaitLoop (fun reader => reader.payloadReceived < (reader.payload.map List.length).getD 0)
    (readPayloadTurn timeout)

end

end FrameReader

/-- A frame with the permit under which it was read. -/
structure AdmittedFrame where
  payload : List UInt8
  permit : Option ℕ
  deriving DecidableEq, Repr

namespace FrameReader

/-- The frame is taken out of the reader. -/
def takeFrame : Call Poll FrameReader Stop (Option AdmittedFrame) :=
  Call.withState fun reader =>
    match reader.payload with
    | none => Call.throw .panic
    | some payload => do
      Call.modify fun reader => { reader with
        headerReceived := 0
        payload := none
        payloadPermit := none
        payloadReceived := 0
        frameDeadline := none }
      Call.pure (some ⟨payload, reader.payloadPermit⟩)

def startFrame (timeout : Option ℕ) (clock : ℕ → Option ℕ) : Call Poll FrameReader Stop Unit :=
  Call.withState fun reader =>
    match reader.startDeadlineIfPartial timeout clock with
    | .error error => Call.throw (.error error)
    | .ok reader => Call.modify fun _ => reader

def readFrameInner (timeout : Option ℕ) (clock : ℕ → Option ℕ) :
    Call Poll FrameReader Stop (Option AdmittedFrame) := do
  (startFrame timeout clock).onError resetFrame
  (readHeader timeout clock).onError resetFrame
  Call.withState fun reader =>
    if reader.headerReceived = 0 then Call.pure none
    else do
      (initializePayload timeout).onError resetFrame
      (readPayload timeout).onError resetFrame
      takeFrame

end FrameReader

/-! The public calls. -/

inductive Kind where
  | frame
  | envelope
  | admitted
  deriving DecidableEq, Repr

inductive Result (E : Type*) where
  | closed
  | frame (payload : List UInt8)
  | envelope (envelope : E)
  | admitted (envelope : E) (permit : ℕ)
  | error (error : FrameError)
  | panicked
  deriving DecidableEq, Repr

/-- What a call makes of the frame it has read: `decode` is the protobuf decoder. -/
def present {E : Type*} (decode : List UInt8 → Option E) (kind : Kind) (frame : AdmittedFrame) :
    Result E :=
  match kind with
  | .frame => .frame frame.payload
  | .envelope =>
    match decode frame.payload with
    | none => .error .decode
    | some envelope => .envelope envelope
  | .admitted =>
    match decode frame.payload with
    | none => .error .decode
    | some envelope =>
      match frame.permit with
      | none => .panicked
      | some permit => .admitted envelope permit

/-- One call of the reader, with the answers to its awaits until it returns or is dropped. -/
structure Request where
  kind : Kind
  timeout : Option ℕ
  clock : ℕ → Option ℕ
  polls : List Poll

def FrameReader.serve {E : Type*} (decode : List UInt8 → Option E) (reader : FrameReader)
    (request : Request) : Option (Result E) × FrameReader :=
  match readFrameInner request.timeout request.clock reader request.polls with
  | .waiting reader => (none, reader)
  | .returned (.ok none) reader _ => (some .closed, reader)
  | .returned (.ok (some frame)) reader _ => (some (present decode request.kind frame), reader)
  | .returned (.error (.error error)) reader _ => (some (.error error), reader)
  | .returned (.error .panic) reader _ => (some .panicked, reader)

end Transport
