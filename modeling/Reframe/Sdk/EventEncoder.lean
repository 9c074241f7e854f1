import Reframe.Runtime.EventCodec

/-! The guest's side of an invocation: its events are numbered, checked and encoded one at a time,
by a builder that buffers them all or by a source that is pulled. A rejected step changes nothing. -/
namespace StoreSdk
open Runtime (AnyValue FailureCode InvocationEvent InvocationMode UuidParser ValidationError
  isWhiteSpace maxTypeUrlBytes validateUuid)

inductive AnyError where
  | invalidTypeUrl
  | invalidTypeName (name : String)
  deriving DecidableEq, Repr

inductive RequestError where
  | decode
  | invalid (error : ValidationError)
  | missingOperation
  | input (error : AnyError)
  deriving DecidableEq, Repr

inductive EventError where
  | invalidRequestId (error : ValidationError)
  | unaryCardinality
  | unspecifiedFailureCode
  | invalidProgress (completed total : UInt64)
  | sequenceOverflow
  | encode
  | value (error : AnyError)
  deriving DecidableEq, Repr

inductive GuestError where
  | invalidRequest (error : RequestError)
  | invalidEvents (error : EventError)
  | invalidInput (reason : String)
  | internal (reason : String)
  deriving DecidableEq, Repr

/-! The names of message types. -/

def typeUrlPrefix : String := "type.googleapis.com/"

/-- Only the first byte of a part may not be a digit. No byte of a character outside ASCII
passes. -/
def isIdentifierByte (c : Char) (first : Bool) : Bool :=
  c.isAlpha || c = '_' || (!first && c.isDigit)

def isIdentifier (part : List Char) : Bool :=
  part ≠ [] && part.zipIdx.all fun entry => isIdentifierByte entry.1 (entry.2 = 0)

def validateMessageName (name : String) : Except AnyError Unit :=
  if name = "" ∨ name.toList.head? = some '.' ∨ name.toList.getLast? = some '.' ∨
      '/' ∈ name.toList then
    .error (.invalidTypeName name)
  else if (name.toList.splitOn '.').any (!isIdentifier ·) then .error (.invalidTypeName name)
  else .ok ()

/-- `rsplit_once('/')`. -/
def rsplitOnce (text : String) : Option (String × String) :=
  match text.toList.reverse.dropWhile (· ≠ '/') with
  | [] => none
  | _ :: before =>
    some (.ofList before.reverse, .ofList (text.toList.reverse.takeWhile (· ≠ '/')).reverse)

def anyTypeName (value : AnyValue) : Except AnyError String :=
  if maxTypeUrlBytes < JsonText.byteLength value.typeUrl.toList ∨
      value.typeUrl.toList.any isWhiteSpace = true then
    .error .invalidTypeUrl
  else
    match rsplitOnce value.typeUrl with
    | none => .error .invalidTypeUrl
    | some (before, name) =>
      if before = "" ∨ name = "" then .error .invalidTypeUrl
      else do
        validateMessageName name
        .ok name

/-- The `Any` of a message, from its full name and its encoding. -/
def pack (fullName : String) (encoded : List UInt8) : Except AnyError AnyValue := do
  validateMessageName fullName
  let value := ⟨typeUrlPrefix ++ fullName, encoded⟩
  let _ ← anyTypeName value
  .ok value

/-! The encoder. -/

inductive PointerWidth where
  | bits32
  | bits64
  deriving DecidableEq, Repr

/-- The target that the guest is compiled for. -/
class Target where
  pointerWidth : PointerWidth

/-- The most bytes that a `Vec` can hold. -/
def isizeMax [Target] : ℕ :=
  match Target.pointerWidth with
  | .bits32 => 2 ^ 31 - 1
  | .bits64 => 2 ^ 63 - 1

def validateFailureCode (code : FailureCode) : Except EventError Unit :=
  if code = .unspecified then .error .unspecifiedFailureCode else .ok ()

structure EventEncoder where
  dataEvents : ℕ
  mode : InvocationMode
  nextSequence : ℕ
  requestId : String
  deriving DecidableEq, Repr

namespace EventEncoder

def new [UuidParser] (requestId : String) (mode : InvocationMode) :
    Except EventError EventEncoder := do
  (validateUuid "invocation_event.request_id" requestId).mapError .invalidRequestId
  .ok ⟨0, mode, 0, requestId⟩

variable [Target] (encoder : EventEncoder)

def encode (kind : InvocationEvent.Event) : Except EventError (List UInt8 × EventEncoder) :=
  if 2 ^ 64 ≤ encoder.nextSequence + 1 then .error .sequenceOverflow
  else
    let event : InvocationEvent := ⟨encoder.requestId, encoder.nextSequence, some kind⟩
    if isizeMax < event.encodeToVec.length then .error .encode
    else .ok (event.encodeToVec, { encoder with nextSequence := encoder.nextSequence + 1 })

def started : Except EventError (List UInt8 × EventEncoder) := encoder.encode .started

def data (value : AnyValue) : Except EventError (List UInt8 × EventEncoder) := do
  let _ ← (anyTypeName value).mapError .value
  if encoder.mode = .unary ∧ encoder.dataEvents = 1 then .error .unaryCardinality
  else
    let (encoded, encoder) ← encoder.encode (.data (some value))
    .ok (encoded, { encoder with dataEvents := encoder.dataEvents + 1 })

def progress (completed : UInt64) (total : Option UInt64) (unit message : String) :
    Except EventError (List UInt8 × EventEncoder) :=
  let encoded :=
    encoder.encode (.progress ⟨completed.toNat, total.map UInt64.toNat, unit, message⟩)
  match total with
  | some total => if total < completed then .error (.invalidProgress completed total) else encoded
  | none => encoded

def complete : Except EventError (List UInt8 × EventEncoder) :=
  if encoder.mode = .unary ∧ encoder.dataEvents ≠ 1 then .error .unaryCardinality
  else encoder.encode .complete

def checkDetails : Option AnyValue → Except EventError Unit
  | some details => do
    let _ ← (anyTypeName details).mapError .value
    .ok ()
  | none => .ok ()

def failure (code : FailureCode) (message : String) (retryable : Bool)
    (details : Option AnyValue) : Except EventError (List UInt8 × EventEncoder) := do
  validateFailureCode code
  checkDetails details
  encoder.encode (.failure ⟨code.toInt, message, retryable, details⟩)

end EventEncoder

/-! Buffered invocations. -/

/-- A terminal event stream, given out one event at a time. -/
structure BufferedInvocation where
  events : List (List UInt8)
  deriving DecidableEq, Repr

namespace BufferedInvocation

def next (invocation : BufferedInvocation) : Option (List UInt8) × BufferedInvocation :=
  (invocation.events.head?, ⟨invocation.events.tail⟩)

/-- The events that a number of polls gives, and what is left. -/
def polls : ℕ → BufferedInvocation → List (List UInt8) × BufferedInvocation
  | 0, invocation => ([], invocation)
  | count + 1, invocation =>
    let (emitted, invocation) := polls count invocation
    match invocation.next with
    | (some bytes, invocation) => (emitted ++ [bytes], invocation)
    | (none, invocation) => (emitted, invocation)

end BufferedInvocation

structure EventBuilder where
  encoder : EventEncoder
  events : List (List UInt8)
  deriving DecidableEq, Repr

/-- A call that leaves the builder open. -/
inductive BuilderCall where
  | data (fullName : String) (encoded : List UInt8)
  | dataAny (value : AnyValue)
  | progress (completed : UInt64) (total : Option UInt64) (unit message : String)
  deriving DecidableEq, Repr

/-- A call that consumes the builder. -/
inductive BuilderEnd where
  | complete
  | failure (code : FailureCode) (message : String) (retryable : Bool)
      (details : Option AnyValue)
  deriving DecidableEq, Repr

namespace EventBuilder

variable [Target]

def new [UuidParser] (requestId : String) (mode : InvocationMode) :
    Except EventError EventBuilder := do
  let encoder ← EventEncoder.new requestId mode
  let (started, encoder) ← encoder.started
  .ok ⟨encoder, [started]⟩

variable (builder : EventBuilder)

def dataAny (value : AnyValue) : Except EventError EventBuilder := do
  let (encoded, encoder) ← builder.encoder.data value
  .ok ⟨encoder, builder.events ++ [encoded]⟩

def data (fullName : String) (encoded : List UInt8) : Except EventError EventBuilder := do
  let value ← (pack fullName encoded).mapError .value
  builder.dataAny value

def progress (completed : UInt64) (total : Option UInt64) (unit message : String) :
    Except EventError EventBuilder := do
  let (encoded, encoder) ← builder.encoder.progress completed total unit message
  .ok ⟨encoder, builder.events ++ [encoded]⟩

def complete : Except EventError BufferedInvocation := do
  let (encoded, _) ← builder.encoder.complete
  .ok ⟨builder.events ++ [encoded]⟩

def failure (code : FailureCode) (message : String) (retryable : Bool)
    (details : Option AnyValue) : Except EventError BufferedInvocation := do
  let (encoded, _) ← builder.encoder.failure code message retryable details
  .ok ⟨builder.events ++ [encoded]⟩

def call : BuilderCall → Except EventError EventBuilder
  | .data fullName encoded => builder.data fullName encoded
  | .dataAny value => builder.dataAny value
  | .progress completed total unit message => builder.progress completed total unit message

/-- The builder after some calls, of which the rejected ones have no effect. -/
def run : EventBuilder → List BuilderCall → EventBuilder
  | builder, [] => builder
  | builder, call :: calls =>
    match builder.call call with
    | .ok builder => builder.run calls
    | .error _ => builder.run calls

def finish : BuilderEnd → Except EventError BufferedInvocation
  | .complete => builder.complete
  | .failure code message retryable details => builder.failure code message retryable details

end EventBuilder

/-! Pulled invocations. -/

/-- One high-level event of a source. -/
inductive InvocationStep where
  | data (value : AnyValue)
  | progress (completed : UInt64) (total : Option UInt64) (unit message : String)
  | complete
  | failure (code : FailureCode) (message : String) (retryable : Bool)
      (details : Option AnyValue)
  deriving DecidableEq, Repr

def InvocationStep.isTerminal : InvocationStep → Bool
  | .complete | .failure .. => true
  | .data _ | .progress .. => false

/-- Application state, advanced by each pull. -/
def InvocationSource (σ : Type) := σ → Except GuestError InvocationStep × σ

def EventEncoder.encodeStep [Target] (encoder : EventEncoder) :
    InvocationStep → Except EventError (List UInt8 × EventEncoder)
  | .data value => encoder.data value
  | .progress completed total unit message => encoder.progress completed total unit message
  | .complete => encoder.complete
  | .failure code message retryable details => encoder.failure code message retryable details

structure PullInvocation (σ : Type) where
  encoder : EventEncoder
  source : σ
  started : Bool
  terminal : Bool
  deriving DecidableEq, Repr

namespace PullInvocation

variable {σ : Type}

def new [UuidParser] (requestId : String) (mode : InvocationMode) (source : σ) :
    Except EventError (PullInvocation σ) := do
  let encoder ← EventEncoder.new requestId mode
  .ok ⟨encoder, source, false, false⟩

variable [Target] (source : InvocationSource σ)

def next (invocation : PullInvocation σ) :
    Except GuestError (Option (List UInt8)) × PullInvocation σ :=
  if invocation.terminal then (.ok none, invocation)
  else if !invocation.started then
    match invocation.encoder.started with
    | .ok (started, encoder) =>
      (.ok (some started), { invocation with encoder := encoder, started := true })
    | .error error => (.error (.invalidEvents error), invocation)
  else
    let (result, state) := source invocation.source
    let invocation := { invocation with source := state }
    match result with
    | .error error => (.error error, invocation)
    | .ok step =>
      match invocation.encoder.encodeStep step with
      | .ok (encoded, encoder) =>
        (.ok (some encoded),
          { invocation with encoder := encoder, terminal := step.isTerminal })
      | .error error => (.error (.invalidEvents error), invocation)

/-- The events that a number of polls gives, and what is left. -/
def polls : ℕ → PullInvocation σ → List (List UInt8) × PullInvocation σ
  | 0, invocation => ([], invocation)
  | count + 1, invocation =>
    let (emitted, invocation) := polls count invocation
    match invocation.next source with
    | (.ok (some bytes), invocation) => (emitted ++ [bytes], invocation)
    | (_, invocation) => (emitted, invocation)

end PullInvocation

end StoreSdk
