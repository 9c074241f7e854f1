import Reframe.Lib.WireMessage

/-! The structural scan of a payload before it is decoded: a recursive wire reader with a budget of
values, of nested messages and of levels, and with ceilings for the elements of repeated fields.
A scan stops with an error of the source, with a panic, or because the fuel of its recursion or of
one of its loops is used up; the last two are shown never to happen. -/
namespace Protocol
open WireFormat

/-- A decoded-element ceiling for one repeated field on each message instance. -/
structure RepeatedFieldLimit where
  messageFullName : String
  fieldNumber : ℕ
  maximumValues : ℕ
  deriving DecidableEq, Repr

/-- Allocation-work limits applied before reflective protobuf decoding. -/
structure ProtobufShapeBudget where
  maximumValues : ℕ
  maximumDepth : ℕ
  maximumMessages : ℕ
  repeatedFieldLimits : List RepeatedFieldLimit
  deriving DecidableEq, Repr

def ProtobufShapeBudget.new (maximumValues maximumDepth : ℕ) : ProtobufShapeBudget :=
  ⟨maximumValues, maximumDepth, maximumValues, []⟩

/-- Handling for protobuf fields not present in the trusted descriptor. -/
inductive UnknownFieldPolicy where
  | reject
  | skip
  deriving DecidableEq, Repr

inductive PayloadShapeError where
  | decode
  | unknownField
  | valueLimit
  | messageLimit
  | repeatedFieldLimit
  | nestingLimit
  | wrongWireType
  | malformedPackedField
  | truncatedField
  | unexpectedEndGroup
  | unterminatedGroup
  deriving DecidableEq, Repr

inductive Stop where
  | error (error : PayloadShapeError)
  | panic
  | exhausted
  deriving DecidableEq, Repr

structure ValueBudget where
  maximumDepth : ℕ
  remaining : ℕ
  remainingMessages : ℕ
  repeatedFieldLimits : List RepeatedFieldLimit
  repeatedCounts : List ℕ
  deriving DecidableEq, Repr

namespace ValueBudget

def new (limits : ProtobufShapeBudget) : ValueBudget :=
  ⟨limits.maximumDepth, limits.maximumValues, limits.maximumMessages, limits.repeatedFieldLimits, []⟩

def consume (budget : ValueBudget) (count : ℕ) : Except Stop ValueBudget :=
  if count ≤ budget.remaining then .ok { budget with remaining := budget.remaining - count }
  else .error (.error .valueLimit)

def consumeMessage (budget : ValueBudget) : Except Stop ValueBudget :=
  if 1 ≤ budget.remainingMessages then
    .ok { budget with remainingMessages := budget.remainingMessages - 1 }
  else .error (.error .messageLimit)

/-- Open the counters of one message; its base is the number of counters already open. -/
def enterMessage (budget : ValueBudget) : ValueBudget :=
  { budget with
    repeatedCounts :=
      budget.repeatedCounts ++ List.replicate budget.repeatedFieldLimits.length 0 }

def leaveMessage (budget : ValueBudget) (base : ℕ) : ValueBudget :=
  { budget with repeatedCounts := budget.repeatedCounts.take base }

/-- Add to the counters of the limits for this field, from the `index`-th limit on. -/
def addRepeated (messageName : String) (fieldNumber base count : ℕ) :
    ℕ → List RepeatedFieldLimit → List ℕ → Except Stop (List ℕ)
  | _, [], counts => .ok counts
  | index, limit :: limits, counts =>
    if limit.messageFullName ≠ messageName ∨ limit.fieldNumber ≠ fieldNumber then
      addRepeated messageName fieldNumber base count (index + 1) limits counts
    else
      match counts[base + index]? with
      | none => .error .panic
      | some observed =>
        if limit.maximumValues < observed + count then .error (.error .repeatedFieldLimit)
        else
          addRepeated messageName fieldNumber base count (index + 1) limits
            (counts.set (base + index) (observed + count))

def consumeRepeated (budget : ValueBudget) (messageName : String) (fieldNumber base count : ℕ) :
    Except Stop ValueBudget := do
  let counts ← addRepeated messageName fieldNumber base count 0 budget.repeatedFieldLimits
    budget.repeatedCounts
  .ok { budget with repeatedCounts := counts }

end ValueBudget

/-! Wire readers. -/

/-- A slice split beyond its end panics. -/
def splitAt (input : List UInt8) (length : ℕ) : Except Stop (List UInt8 × List UInt8) :=
  if length ≤ input.length then .ok (input.take length, input.drop length) else .error .panic

def readVarint (input : List UInt8) : Except Stop (ℕ × List UInt8) :=
  match decodeVarint input with
  | some read => .ok read
  | none => .error (.error .decode)

def readKey (input : List UInt8) : Except Stop (ℕ × WireType × List UInt8) :=
  match decodeKey input with
  | some read => .ok read
  | none => .error (.error .decode)

def takeDelimited (input : List UInt8) : Except Stop (List UInt8 × List UInt8) := do
  let (length, input) ← readVarint input
  if input.length < length then .error (.error .truncatedField) else splitAt input length

def advance (input : List UInt8) (length : ℕ) : Except Stop (List UInt8) := do
  if input.length < length then .error (.error .truncatedField)
  else
    let (_, input) ← splitAt input length
    .ok input

def requireWire (actual expected : WireType) : Except Stop Unit :=
  if actual = expected then .ok () else .error (.error .wrongWireType)

/-- What is left of the input and of the budget. -/
abbrev Scan := Except Stop (List UInt8 × ValueBudget)

section

variable {μ : Type*} (schema : Schema μ) (unknownFields : UnknownFieldPolicy)

/-- `skip_unknown`, with the scan of a group inside it. -/
def skipUnknown (group : ℕ → List UInt8 → ℕ → ValueBudget → Scan) (number : ℕ)
    (wireType : WireType) (input : List UInt8) (depth : ℕ) (budget : ValueBudget) : Scan :=
  match wireType with
  | .varint => do
    let (_, input) ← readVarint input
    .ok (input, budget)
  | .sixtyFourBit => do
    let input ← advance input 8
    .ok (input, budget)
  | .lengthDelimited => do
    let (_, input) ← takeDelimited input
    .ok (input, budget)
  | .startGroup => group number input (depth + 1) budget
  | .endGroup => .error (.error .unexpectedEndGroup)
  | .thirtyTwoBit => do
    let input ← advance input 4
    .ok (input, budget)

/-- The loop of `skip_unknown_group`. -/
def skipFields (group : ℕ → List UInt8 → ℕ → ValueBudget → Scan) (groupNumber depth : ℕ) :
    ℕ → List UInt8 → ValueBudget → Scan
  | 0, _, _ => .error .exhausted
  | _ + 1, [], _ => .error (.error .unterminatedGroup)
  | fuel + 1, byte :: bytes, budget => do
    let (number, wireType, input) ← readKey (byte :: bytes)
    if wireType = .endGroup then
      if number = groupNumber then .ok (input, budget)
      else .error (.error .unexpectedEndGroup)
    else do
      let budget ← budget.consume 1
      let (input, budget) ← skipUnknown group number wireType input depth budget
      skipFields group groupNumber depth fuel input budget

def skipUnknownGroup : ℕ → ℕ → List UInt8 → ℕ → ValueBudget → Scan
  | 0, _, _, _, _ => .error .exhausted
  | levels + 1, groupNumber, input, depth, budget =>
    if budget.maximumDepth < depth then .error (.error .nestingLimit)
    else
      skipFields (skipUnknownGroup levels) groupNumber depth (input.length + 1) input budget

def scanFixed (input : List UInt8) (width : ℕ) (budget : ValueBudget) :
    Except Stop (ℕ × ValueBudget) := do
  if input.length % width ≠ 0 then .error (.error .malformedPackedField)
  else
    let budget ← budget.consume (input.length / width)
    .ok (input.length / width, budget)

/-- The varints of a packed field. -/
def scanVarints : ℕ → List UInt8 → ℕ → ValueBudget → Except Stop (ℕ × ValueBudget)
  | 0, _, _, _ => .error .exhausted
  | _ + 1, [], count, budget => .ok (count, budget)
  | fuel + 1, byte :: bytes, count, budget => do
    let budget ← budget.consume 1
    let (_, input) ← readVarint (byte :: bytes)
    scanVarints fuel input (count + 1) budget

def scanPacked (kind : Kind μ) (input : List UInt8) (budget : ValueBudget) :
    Except Stop (ℕ × ValueBudget) :=
  match kind with
  | .double | .fixed64 | .sfixed64 => scanFixed input 8 budget
  | .float | .fixed32 | .sfixed32 => scanFixed input 4 budget
  | .int32 | .int64 | .uint32 | .uint64 | .sint32 | .sint64 | .bool | .enum =>
    scanVarints (input.length + 1) input 0 budget
  | .string | .bytes | .message _ => .error (.error .malformedPackedField)

/-- `scan_scalar_or_message`, with the scan of a message inside it. -/
def scanScalarOrMessage (scan : μ → List UInt8 → ℕ → Option ℕ → ValueBudget → Scan)
    (field : FieldShape μ) (number : ℕ) (wireType : WireType) (input : List UInt8) (depth : ℕ)
    (budget : ValueBudget) : Scan :=
  match field.kind with
  | .message nested =>
    if field.isGroup then do
      requireWire wireType .startGroup
      let budget ← budget.consumeMessage
      scan nested input (depth + 1) (some number) budget
    else do
      requireWire wireType .lengthDelimited
      let budget ← budget.consumeMessage
      let (nestedInput, input) ← takeDelimited input
      let (_, budget) ← scan nested nestedInput (depth + 1) none budget
      .ok (input, budget)
  | .string | .bytes => do
    requireWire wireType .lengthDelimited
    let (_, input) ← takeDelimited input
    .ok (input, budget)
  | .double | .fixed64 | .sfixed64 => do
    requireWire wireType .sixtyFourBit
    let input ← advance input 8
    .ok (input, budget)
  | .float | .fixed32 | .sfixed32 => do
    requireWire wireType .thirtyTwoBit
    let input ← advance input 4
    .ok (input, budget)
  | .int32 | .int64 | .uint32 | .uint64 | .sint32 | .sint64 | .bool | .enum => do
    requireWire wireType .varint
    let (_, input) ← readVarint input
    .ok (input, budget)

def scanField (scan : μ → List UInt8 → ℕ → Option ℕ → ValueBudget → Scan) (field : FieldShape μ)
    (number : ℕ) (wireType : WireType) (input : List UInt8) (depth : ℕ) (messageName : String)
    (base : ℕ) (budget : ValueBudget) : Scan := do
  if field.isList && wireType = .lengthDelimited && field.kind.isPackable then
    let (value, input) ← takeDelimited input
    let (count, budget) ← scanPacked field.kind value budget
    let budget ← budget.consumeRepeated messageName number base count
    .ok (input, budget)
  else if field.isList then
    let budget ← budget.consumeRepeated messageName number base 1
    scanScalarOrMessage scan field number wireType input depth budget
  else scanScalarOrMessage scan field number wireType input depth budget

/-- The loop of `scan_fields`. -/
def scanFields (scan : μ → List UInt8 → ℕ → Option ℕ → ValueBudget → Scan)
    (group : ℕ → List UInt8 → ℕ → ValueBudget → Scan) (descriptor : μ) (depth : ℕ)
    (endGroup : Option ℕ) (base : ℕ) : ℕ → List UInt8 → ValueBudget → Scan
  | 0, _, _ => .error .exhausted
  | _ + 1, [], budget =>
    if endGroup.isSome then .error (.error .unterminatedGroup) else .ok ([], budget)
  | fuel + 1, byte :: bytes, budget => do
    let (number, wireType, input) ← readKey (byte :: bytes)
    if wireType = .endGroup then
      if endGroup = some number then .ok (input, budget)
      else .error (.error .unexpectedEndGroup)
    else do
      let budget ← budget.consume 1
      match schema.field descriptor number with
      | none =>
        match unknownFields with
        | .reject => .error (.error .unknownField)
        | .skip => do
          let (input, budget) ← skipUnknown group number wireType input depth budget
          scanFields scan group descriptor depth endGroup base fuel input budget
      | some field => do
        let (input, budget) ← scanField scan field number wireType input depth
          (schema.fullName descriptor) base budget
        scanFields scan group descriptor depth endGroup base fuel input budget

def scanMessage : ℕ → μ → List UInt8 → ℕ → Option ℕ → ValueBudget → Scan
  | 0, _, _, _, _, _ => .error .exhausted
  | levels + 1, descriptor, input, depth, endGroup, budget => do
    if budget.maximumDepth < depth then .error (.error .nestingLimit)
    else
      let base := budget.repeatedCounts.length
      let (input, budget) ← scanFields schema unknownFields (scanMessage levels)
        (skipUnknownGroup levels) descriptor depth endGroup base (input.length + 1) input
        budget.enterMessage
      .ok (input, budget.leaveMessage base)

end

/-- Checks structural work without materializing strings, messages, lists, or maps. The recursion
has room for `maximumDepth` levels below the message. -/
def validateMessageShape {μ : Type*} (schema : Schema μ) (descriptor : μ) (bytes : List UInt8)
    (limits : ProtobufShapeBudget) (unknownFields : UnknownFieldPolicy) : Except Stop Unit := do
  let _ ← scanMessage schema unknownFields (limits.maximumDepth + 2) descriptor bytes 0 none
    (ValueBudget.new limits)
  .ok ()

end Protocol
