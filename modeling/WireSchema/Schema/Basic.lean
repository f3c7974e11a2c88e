import WireSchema.Text.CharClass
import WireSchema.Token.Basic

/-!
The model of a schema: defines, and definitions of messages and enums in the order of the text.
Every definition, field and entry keeps the place where it was written.
-/

namespace WireSchema

structure Define where
  key : String
  value : String
  deriving DecidableEq

/-- What a field's type name stands for. -/
inductive FieldType where
  | primitive (p : Primitive)
  | enum
  | message
  deriving DecidableEq

structure Field where
  type : FieldType
  typeName : String
  name : String
  id : UInt16
  isOptional : Bool
  isArray : Bool
  place : Place
  deriving DecidableEq

structure Entry where
  name : String
  value : Int32
  place : Place
  deriving DecidableEq

inductive Body where
  | message (fields : List Field)
  | enum (entries : List Entry)
  deriving DecidableEq

structure Definition where
  name : String
  place : Place
  body : Body
  deriving DecidableEq

structure Schema where
  defines : List Define
  definitions : List Definition
  deriving DecidableEq

namespace Field

def isString (f : Field) : Bool := f.type = .primitive .string

/-- Bytes of one element on the wire, where the type alone decides. -/
def elementWidth? (f : Field) : Option Nat :=
  match f.type with
  | .primitive p => p.width?
  | .enum => some 4
  | .message => none

def qualifiedType (f : Field) : String :=
  f.typeName ++ (if f.isArray then "[]" else "") ++ (if f.isOptional then "?" else "")

/-- The field as schema text spells it, without the closing semicolon. -/
def spelling (f : Field) : String := s!"{f.qualifiedType} {f.name} = {f.id.toNat}"

end Field

namespace Definition

def isEnum (d : Definition) : Bool :=
  match d.body with
  | .enum _ => true
  | .message _ => false

def fields (d : Definition) : List Field :=
  match d.body with
  | .message fields => fields
  | .enum _ => []

def entries (d : Definition) : List Entry :=
  match d.body with
  | .enum entries => entries
  | .message _ => []

end Definition

namespace Schema

def define? (s : Schema) (key : String) : Option String :=
  (s.defines.find? fun d => d.key == key).map Define.value

/-- The namespace, where one is defined and not blank. -/
def namespace? (s : Schema) : Option String :=
  (s.define? "namespace").filter fun value => !(Text.trim value.toList).isEmpty

/-- The first definition with this name. -/
def definition? (s : Schema) (name : String) : Option Definition :=
  s.definitions.find? fun d => d.name == name

end Schema

end WireSchema
