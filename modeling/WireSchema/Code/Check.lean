import WireSchema.Code.Expression
import WireSchema.Text.Encoding

/-!
Whether the names of a schema make names of Rust: each has to be an identifier, and no two in one
scope may become the same.
-/

namespace WireSchema.Code

open Text

/-! Why a schema cannot become Rust code. -/

inductive Unsupported where
  | notIdent (owner name ident : String)
  | reservedName (type ident : String)
  | unknownType (type field owner : String)
  | fieldClash (owner first second ident : String)
  | entryClash (owner first second ident : String)
  | typeClash (first second ident : String)
  | emptyEnum (enum : String)
  | badNamespace (whole segment : String)

namespace Unsupported

/-- The type that the error is about; for a namespace, the namespace. -/
def typeName : Unsupported → String
  | .notIdent owner _ _ => owner
  | .reservedName type _ => type
  | .unknownType type _ _ => type
  | .fieldClash owner _ _ _ => owner
  | .entryClash owner _ _ _ => owner
  | .typeClash _ second _ => second
  | .emptyEnum enum => enum
  | .badNamespace whole _ => whole

def reason : Unsupported → String
  | .notIdent _ name ident =>
    s!"{quote name} becomes {quote ident}, which is not a Rust identifier"
  | .reservedName _ ident => s!"the name {quote ident} is reserved in generated code"
  | .unknownType _ field owner =>
    s!"field {quote field} of {quote owner} refers to a type no emitter knows"
  | .fieldClash _ first second ident =>
    s!"fields {quote first} and {quote second} both become {quote ident}"
  | .entryClash _ first second ident =>
    s!"entries {quote first} and {quote second} both become {quote ident}"
  | .typeClash first second ident =>
    s!"types {quote first} and {quote second} both become {quote ident}"
  | .emptyEnum _ => "an enum needs at least one entry"
  | .badNamespace _ segment => s!"namespace segment {quote segment} is not a valid module name"

def message (u : Unsupported) : String := s!"Unsupported type {u.typeName}: {u.reason}"

end Unsupported

/-! The checks, in the order in which they are made. -/

/-- Names that generated code uses for its own ends. -/
def reservedTypeNames : List String :=
  [ "ByteBuffer", "ByteBufferMut", "DecodeError", "EncodeError", "Message", "Default", "From",
    "TryFrom", "Option", "Result", "String", "Vec" ]

def checkIdent (owner name ident : String) : Except Unsupported Unit :=
  if isIdent ident then .ok () else .error (.notIdent owner name ident)

/-- The name under which an identifier has been taken, if it has. -/
abbrev Taken := List (String × String)

def checkTypeName (d : Definition) : Except Unsupported Unit := do
  let ident := typeIdent d.name
  checkIdent d.name d.name ident
  if reservedTypeNames.contains ident then throw (.reservedName d.name ident)

/-- A field's named type has to be defined, and as what the field takes it for. -/
def checkReference (s : Schema) (owner : String) (f : Field) : Except Unsupported Unit :=
  let isEnum? := (s.definition? f.typeName).map Definition.isEnum
  match f.type with
  | .primitive _ => .ok ()
  | .enum => if isEnum? = some true then .ok () else .error (.unknownType f.typeName f.name owner)
  | .message =>
    if isEnum? = some false then .ok () else .error (.unknownType f.typeName f.name owner)

/-- Fails with the clash where the identifier is taken. -/
def take (taken : Taken) (name ident : String) (clash : String → Unsupported) :
    Except Unsupported Taken :=
  match taken.lookup ident with
  | some first => .error (clash first)
  | none => .ok ((ident, name) :: taken)

/-- Checks fields in order; `idents` and `consts` hold the names of those before. -/
def checkFields (s : Schema) (owner : String) (idents consts : Taken) :
    List Field → Except Unsupported Unit
  | [] => .ok ()
  | f :: rest => do
    checkReference s owner f
    let ident := fieldIdent f
    checkIdent owner f.name ident
    let idents ← take idents f.name ident (.fieldClash owner · f.name ident)
    let const := fieldConst f "ID"
    let consts ← take consts f.name const (.fieldClash owner · f.name const)
    checkFields s owner idents consts rest

def checkEntries (owner : String) (idents : Taken) : List Entry → Except Unsupported Unit
  | [] => .ok ()
  | e :: rest => do
    let ident := variantIdent e.name
    checkIdent owner e.name ident
    let idents ← take idents e.name ident (.entryClash owner · e.name ident)
    checkEntries owner idents rest

def checkDefinition (s : Schema) (d : Definition) : Except Unsupported Unit := do
  checkTypeName d
  checkFields s d.name [] [] d.fields
  checkEntries d.name [] d.entries

/-- No two definitions may become one type. -/
def checkTypeIdents (idents : Taken) : List Definition → Except Unsupported Unit
  | [] => .ok ()
  | d :: rest => do
    let ident := typeIdent d.name
    let idents ← take idents d.name ident (.typeClash · d.name ident)
    checkTypeIdents idents rest

end WireSchema.Code
