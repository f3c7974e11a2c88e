import WireSchema.Schema.Basic
import WireSchema.Text.Encoding

/-!
The model of a schema as JSON.
-/

namespace WireSchema.Text

/-! JSON values as indented text: two blanks per level, one item on a line, keys in the given order. -/

inductive Json where
  | text (s : String)
  | number (n : Int)
  | flag (b : Bool)
  | list (items : List Json)
  | record (members : List (String × Json))

namespace Json

def indent (depth : Nat) : String := String.ofList (List.replicate (2 * depth) ' ')

/-- Items between brackets, each on a line of its own; nothing stands between empty brackets. -/
def enclose (opening closing : String) (depth : Nat) (items : List String) : String :=
  if items.isEmpty then opening ++ closing
  else
    opening ++ "\n" ++ String.intercalate ",\n" (items.map (indent (depth + 1) ++ ·)) ++ "\n"
      ++ indent depth ++ closing

def pretty (depth : Nat) : Json → String
  | .text s => quote s
  | .number n => toString n
  | .flag b => if b then "true" else "false"
  | .list items => enclose "[" "]" depth (items.map fun item => pretty (depth + 1) item)
  | .record members =>
    enclose "\x7b" "\x7d" depth
      (members.map fun m => quote m.1 ++ ": " ++ pretty (depth + 1) m.2)
termination_by value => value
decreasing_by
  · exact Nat.lt_trans (List.sizeOf_lt_of_mem ‹_›) (by simp)
  · have := List.sizeOf_lt_of_mem ‹m ∈ members›
    cases m
    simp at this ⊢
    omega

end Json

end WireSchema.Text

namespace WireSchema

open Text

def Primitive.label : Primitive → String
  | .bool => "Bool"
  | .byte => "Byte"
  | .sbyte => "SByte"
  | .short => "Short"
  | .ushort => "UShort"
  | .int => "Int"
  | .uint => "UInt"
  | .long => "Long"
  | .ulong => "ULong"
  | .float => "Float"
  | .double => "Double"
  | .string => "String"
  | .char => "Char"

def FieldType.json : FieldType → Json
  | .primitive p => .record [("Primitive", .text p.label)]
  | .enum => .text "Enum"
  | .message => .text "Object"

def Field.json (f : Field) : Json :=
  .record
    [ ("field_type", f.type.json), ("type_name", .text f.typeName), ("name", .text f.name),
      ("id", .number f.id.toNat), ("is_optional", .flag f.isOptional),
      ("is_array", .flag f.isArray), ("line", .number f.place.line),
      ("column", .number f.place.column) ]

def Entry.json (e : Entry) : Json :=
  .record
    [ ("name", .text e.name), ("value", .number e.value.toInt), ("line", .number e.place.line),
      ("column", .number e.place.column) ]

def Body.json : Body → Json
  | .message fields => .record [("Message", .list (fields.map Field.json))]
  | .enum entries => .record [("Enum", .list (entries.map Entry.json))]

def Definition.json (d : Definition) : Json :=
  .record
    [ ("name", .text d.name), ("line", .number d.place.line), ("column", .number d.place.column),
      ("body", d.body.json) ]

def Define.json (d : Define) : Json := .record [("key", .text d.key), ("value", .text d.value)]

namespace Schema

def json (s : Schema) : Json :=
  .record
    [ ("defines", .list (s.defines.map Define.json)),
      ("type_definitions", .list (s.definitions.map Definition.json)) ]

def jsonText (s : Schema) : String := s.json.pretty 0

end Schema

end WireSchema
