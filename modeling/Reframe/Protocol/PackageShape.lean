import Reframe.Protocol.PayloadShape

/-! The shape limits of a Store package's catalog, with the message types it consists of. -/
namespace Protocol
open WireFormat

inductive CatalogMessage where
  | catalog
  | catalogEntry
  | topic
  | resource
  | function
  | methodBinding
  | workflow
  | workflowStep
  | guidance
  | errorCase
  | sample
  | interfaceVersion
  | any
  deriving DecidableEq, Repr

namespace CatalogMessage

def fullName : CatalogMessage → String
  | .catalog => "reframe.semantic_store.package.v1.Catalog"
  | .catalogEntry => "reframe.semantic_store.package.v1.CatalogEntry"
  | .topic => "reframe.semantic_store.package.v1.Topic"
  | .resource => "reframe.semantic_store.package.v1.Resource"
  | .function => "reframe.semantic_store.package.v1.Function"
  | .methodBinding => "reframe.semantic_store.package.v1.MethodBinding"
  | .workflow => "reframe.semantic_store.package.v1.Workflow"
  | .workflowStep => "reframe.semantic_store.package.v1.WorkflowStep"
  | .guidance => "reframe.semantic_store.package.v1.Guidance"
  | .errorCase => "reframe.semantic_store.package.v1.ErrorCase"
  | .sample => "reframe.semantic_store.package.v1.Example"
  | .interfaceVersion => "reframe.semantic_store.types.v1.InterfaceVersion"
  | .any => "google.protobuf.Any"

def single (kind : Kind CatalogMessage) : FieldShape CatalogMessage :=
  ⟨kind, .singular none, false⟩

def repeated (kind : Kind CatalogMessage) : FieldShape CatalogMessage := ⟨kind, .list, false⟩

/-- A member of `CatalogEntry`'s oneof `kind`. -/
def variant (descriptor : CatalogMessage) : FieldShape CatalogMessage :=
  ⟨.message descriptor, .singular (some 0), false⟩

def fields : CatalogMessage → List (ℕ × FieldShape CatalogMessage)
  | .catalog => [(1, single .uint32), (2, single .string),
      (3, single (.message .interfaceVersion)), (4, single .string), (5, repeated .string),
      (6, repeated .string), (7, repeated (.message .catalogEntry))]
  | .catalogEntry => [(1, single .string), (2, single .string), (3, single .string),
      (4, single .string), (5, repeated .string), (6, repeated .string),
      (7, single (.message .guidance)), (10, variant .topic), (11, variant .resource),
      (12, variant .function), (13, variant .workflow)]
  | .topic => []
  | .resource => [(1, single .string), (2, single .string), (3, single .bool),
      (4, single (.message .methodBinding))]
  | .function => [(1, single .string), (2, single .string), (3, single .enum), (4, single .enum),
      (5, single (.message .methodBinding))]
  | .methodBinding => [(1, single .string), (2, single .string)]
  | .workflow => [(1, repeated (.message .workflowStep))]
  | .workflowStep => [(1, single .string), (2, single .string), (3, single .string)]
  | .guidance => [(1, single .string), (2, single .string), (3, repeated (.message .errorCase)),
      (4, repeated (.message .sample))]
  | .errorCase => [(1, single .string), (2, single .string), (3, single .string)]
  | .sample => [(1, single .string), (2, single .string), (3, single (.message .any)),
      (4, single (.message .any))]
  | .interfaceVersion => [(1, single .uint32), (2, single .uint32)]
  | .any => [(1, single .string), (2, single .bytes)]

end CatalogMessage

def catalogSchema : Schema CatalogMessage where
  fullName := CatalogMessage.fullName
  getField descriptor number := descriptor.fields.lookup number
  getExtension _ _ := none

def maxCatalogShapeValues : ℕ := 4096 * 384 + 256

def maxCatalogMessages : ℕ := 320000

def maxCatalogEntries : ℕ := 8192

def catalogFieldLimits : List RepeatedFieldLimit :=
  [⟨CatalogMessage.catalog.fullName, 5, 16⟩, ⟨CatalogMessage.catalog.fullName, 6, 64⟩,
    ⟨CatalogMessage.catalog.fullName, 7, maxCatalogEntries⟩,
    ⟨CatalogMessage.catalogEntry.fullName, 5, 64⟩, ⟨CatalogMessage.catalogEntry.fullName, 6, 64⟩,
    ⟨CatalogMessage.guidance.fullName, 3, 32⟩, ⟨CatalogMessage.guidance.fullName, 4, 16⟩,
    ⟨CatalogMessage.workflow.fullName, 1, 64⟩]

def catalogBudget : ProtobufShapeBudget :=
  ⟨maxCatalogShapeValues, 8, maxCatalogMessages, catalogFieldLimits⟩

def validateCatalog (bytes : List UInt8) : Except Stop Unit :=
  validateMessageShape catalogSchema .catalog bytes catalogBudget .skip

end Protocol
