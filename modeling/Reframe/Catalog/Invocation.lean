import Reframe.Catalog.Discovery
import Reframe.Protocol.PayloadShape

/-! Values of invocations: their types and payloads against the contract of a capability. -/
namespace StoreCatalog
open Package (lastSegment trimStartDots)
open Protocol (PayloadShapeError ProtobufShapeBudget validateMessageShape)
open Runtime (AnyValue isWhiteSpace)
open Run (Stop)
open WireFormat (Record)

def valueShapeBudget : ProtobufShapeBudget := .new 16384 64

inductive InvocationMode where
  | unary
  | subscription
  deriving DecidableEq, Repr

structure InvocationContract where
  capabilityId : String
  kind : CapabilityKind
  expectedOutputType : String
  mode : InvocationMode
  catalogRevision : Hash
  deriving DecidableEq

def shapeErrorText : PayloadShapeError → String
  | .decode => "payload protobuf wire data is malformed"
  | .unknownField => "payload contains fields absent from the declared message"
  | .valueLimit => "payload contains too many structural values"
  | .messageLimit => "payload contains too many nested message values"
  | .repeatedFieldLimit => "payload repeated field exceeds its cardinality limit"
  | .nestingLimit => "payload nesting exceeds its limit"
  | .wrongWireType => "payload field has an incompatible protobuf wire type"
  | .malformedPackedField => "payload contains a malformed packed field"
  | .truncatedField => "payload field is truncated"
  | .unexpectedEndGroup => "payload contains an unexpected group terminator"
  | .unterminatedGroup => "payload contains an unterminated group"

def canonicalTypeName (typeName : String) : String := trimStartDots (trim typeName)

/-- What comes before the last slash, if there is one. -/
def beforeLastSlash (text : String) : String :=
  .ofList (text.toList.reverse.dropWhile (· ≠ '/')).tail.reverse

def anyTypeName (typeUrl : String) : Outcome String :=
  if '/' ∈ typeUrl.toList then
    let typeName := lastSegment typeUrl
    if beforeLastSlash typeUrl = "" ∨ typeName = "" ∨ typeName.toList.head? = some '.' ∨
        typeUrl.toList.any isWhiteSpace = true then
      fail (.invalidTypeUrl typeUrl)
    else .ok typeName
  else fail (.invalidTypeUrl typeUrl)

section

variable {μ : Type} (service : CatalogService μ)

namespace CatalogService

def validatePayload (descriptor : μ) (expectedType : String) (payload : List UInt8) :
    Outcome Unit :=
  match validateMessageShape service.descriptorPool.schema descriptor payload valueShapeBudget
      .reject with
  | .error (.error error) => fail (.invalidPayload expectedType (shapeErrorText error))
  | .error .panic => .error .panic
  | .error .exhausted => .error .exhausted
  | .ok () =>
    match service.descriptorPool.decode descriptor payload with
    | .error reason => fail (.invalidPayload expectedType reason)
    | .ok message =>
      if message.any Record.isUnknown then
        fail (.invalidPayload expectedType
          "payload contains fields absent from the declared message")
      else .ok ()

def validateAny (value : AnyValue) (expectedType : String) : Outcome Unit := do
  let expectedType := canonicalTypeName expectedType
  let actualType ← anyTypeName value.typeUrl
  if actualType ≠ expectedType then fail (.typeMismatch expectedType actualType)
  else
    match service.descriptorPool.getMessageByName expectedType with
    | none => fail (.typeNotFound expectedType)
    | some descriptor => service.validatePayload descriptor expectedType value.value

def validateRead (resourceId : String) (selector : AnyValue) (subscribe : Bool) :
    Outcome InvocationContract := do
  let entry ← service.entry resourceId
  match entry.kind with
  | some (.resource resource) =>
    if subscribe && !resource.supportsSubscriptions then fail (.subscriptionsUnsupported resourceId)
    else do
      service.validateAny selector resource.selectorType
      .ok ⟨resourceId, .resource, canonicalTypeName resource.valueType,
        if subscribe then .subscription else .unary, service.revision⟩
  | _ => fail (.capabilityKindMismatch resourceId "resource")

def validateCall (functionId : String) (input : AnyValue) : Outcome InvocationContract := do
  let entry ← service.entry functionId
  match entry.kind with
  | some (.function function) => do
    service.validateAny input function.inputType
    .ok ⟨functionId, .function, canonicalTypeName function.outputType, .unary, service.revision⟩
  | _ => fail (.capabilityKindMismatch functionId "function")

def validateOutput (contract : InvocationContract) (output : AnyValue) : Outcome Unit :=
  if contract.catalogRevision ≠ service.revision then fail .contractMismatch
  else service.validateAny output contract.expectedOutputType

end CatalogService

end

end StoreCatalog
