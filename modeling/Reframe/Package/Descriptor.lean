import Mathlib.Tactic
import Reframe.Lib.FiniteMap
import Reframe.Lib.SortedSet

/-! Descriptor sets: the messages, enums and services that the files of a Store's schema declare,
and their index by qualified name. -/
namespace Package

structure FieldDescriptorProto where
  name : Option String
  number : Option ℤ
  label : Option ℤ
  type : Option ℤ
  typeName : Option String
  defaultValue : Option String
  oneofIndex : Option ℤ
  proto3Optional : Option Bool
  deriving DecidableEq, Repr

/-- Field numbers from `start` on, up to `end`. -/
structure ReservedRange where
  start : Option ℤ
  «end» : Option ℤ
  deriving DecidableEq, Repr

structure OneofDescriptorProto where
  name : Option String
  deriving DecidableEq, Repr

structure EnumValueDescriptorProto where
  name : Option String
  number : Option ℤ
  deriving DecidableEq, Repr

/-- Enum numbers from `start` to `end`, both included. -/
structure EnumReservedRange where
  start : Option ℤ
  «end» : Option ℤ
  deriving DecidableEq, Repr

structure EnumDescriptorProto where
  name : Option String
  value : List EnumValueDescriptorProto
  reservedRange : List EnumReservedRange
  reservedName : List String
  deriving DecidableEq, Repr

structure MessageOptions where
  mapEntry : Option Bool
  deriving DecidableEq, Repr

structure DescriptorProto where
  name : Option String
  field : List FieldDescriptorProto
  nestedType : List DescriptorProto
  enumType : List EnumDescriptorProto
  oneofDecl : List OneofDescriptorProto
  options : Option MessageOptions
  reservedRange : List ReservedRange
  reservedName : List String

structure MethodDescriptorProto where
  name : Option String
  inputType : Option String
  outputType : Option String
  clientStreaming : Option Bool
  serverStreaming : Option Bool
  deriving DecidableEq, Repr

structure ServiceDescriptorProto where
  name : Option String
  method : List MethodDescriptorProto
  deriving DecidableEq, Repr

structure FileDescriptorProto where
  package : Option String
  messageType : List DescriptorProto
  enumType : List EnumDescriptorProto
  service : List ServiceDescriptorProto

structure FileDescriptorSet where
  file : List FileDescriptorProto

structure SchemaIndex where
  messages : FiniteMap String DescriptorProto
  enums : FiniteMap String EnumDescriptorProto
  services : FiniteMap String ServiceDescriptorProto

def qualified (scope name : String) : String :=
  if scope = "" then name else scope ++ "." ++ name

namespace SchemaIndex

def insertEnum (scope : String) (index : SchemaIndex) (enumeration : EnumDescriptorProto) :
    SchemaIndex :=
  { index with
    enums := index.enums.insert (qualified scope (enumeration.name.getD "")) enumeration }

def insertService (package : String) (index : SchemaIndex) (service : ServiceDescriptorProto) :
    SchemaIndex :=
  { index with
    services := index.services.insert (qualified package (service.name.getD "")) service }

mutual

def insertMessage (scope : String) (index : SchemaIndex) : DescriptorProto → SchemaIndex
  | ⟨name, field, nestedType, enumType, oneofDecl, options, reservedRange, reservedName⟩ =>
    let message : DescriptorProto :=
      ⟨name, field, nestedType, enumType, oneofDecl, options, reservedRange, reservedName⟩
    let name := qualified scope (name.getD "")
    let index := { index with messages := index.messages.insert name message }
    enumType.foldl (insertEnum name) (insertMessages name index nestedType)

def insertMessages (scope : String) (index : SchemaIndex) : List DescriptorProto → SchemaIndex
  | [] => index
  | message :: rest => insertMessages scope (insertMessage scope index message) rest

end

def insertFile (index : SchemaIndex) (file : FileDescriptorProto) : SchemaIndex :=
  let package := file.package.getD ""
  let index := insertMessages package index file.messageType
  let index := file.enumType.foldl (insertEnum package) index
  file.service.foldl (insertService package) index

def new (set : FileDescriptorSet) : SchemaIndex := set.file.foldl insertFile ⟨∅, ∅, ∅⟩

end SchemaIndex
end Package
