import Reframe.Runtime.EventStream

/-! The catalog of a Store package: what it says about each topic, resource, function and
workflow. -/
namespace Package
open Runtime (AnyValue)

structure InterfaceVersion where
  major : ℕ
  minor : ℕ
  deriving DecidableEq, Repr

structure MethodBinding where
  service : String
  method : String
  deriving DecidableEq, Repr

structure Resource where
  selectorType : String
  valueType : String
  supportsSubscriptions : Bool
  method : Option MethodBinding
  deriving DecidableEq, Repr

structure Function where
  inputType : String
  outputType : String
  sideEffect : ℤ
  idempotency : ℤ
  method : Option MethodBinding
  deriving DecidableEq, Repr

structure WorkflowStep where
  instruction : String
  capabilityId : String
  condition : String
  deriving DecidableEq, Repr

structure Workflow where
  steps : List WorkflowStep
  deriving DecidableEq, Repr

structure ErrorCase where
  code : String
  summary : String
  recovery : String
  deriving DecidableEq, Repr

structure Example where
  title : String
  description : String
  input : Option AnyValue
  output : Option AnyValue
  deriving DecidableEq, Repr

structure Guidance where
  whenToUse : String
  whenNotToUse : String
  errors : List ErrorCase
  examples : List Example
  deriving DecidableEq, Repr

inductive CatalogEntry.Kind where
  | topic
  | resource (resource : Resource)
  | function (function : Function)
  | workflow (workflow : Workflow)
  deriving DecidableEq, Repr

structure CatalogEntry where
  id : String
  parentTopicId : String
  title : String
  summary : String
  intentPhrases : List String
  relatedEntryIds : List String
  guidance : Option Guidance
  kind : Option CatalogEntry.Kind
  deriving DecidableEq, Repr

structure Catalog where
  formatVersion : ℕ
  storeId : String
  semanticInterfaceVersion : Option InterfaceVersion
  displayName : String
  overviewSentences : List String
  topLevelTopicIds : List String
  entries : List CatalogEntry
  deriving DecidableEq, Repr

end Package
