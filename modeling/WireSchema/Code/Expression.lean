import WireSchema.Code.Name

/-!
Types and expressions of generated Rust code, for one field at a time.
-/

namespace WireSchema.Code

def rustPrimitive : Primitive → String
  | .bool => "bool"
  | .byte => "u8"
  | .sbyte => "i8"
  | .short => "i16"
  | .ushort => "u16"
  | .int => "i32"
  | .uint => "u32"
  | .long => "i64"
  | .ulong => "u64"
  | .float => "f32"
  | .double => "f64"
  | .string => "String"
  | .char => "u16"

/-- The last part of the names of the methods that read and write a built-in type. -/
def codecSuffix : Primitive → String
  | .bool => "bool"
  | .byte => "byte"
  | .sbyte => "sbyte"
  | .short => "i16"
  | .ushort => "u16"
  | .int => "i32"
  | .uint => "u32"
  | .long => "i64"
  | .ulong => "u64"
  | .float => "f32"
  | .double => "f64"
  | .string => "string"
  | .char => "char"

def elementType (f : Field) : String :=
  match f.type with
  | .primitive p => rustPrimitive p
  | .enum | .message => typeIdent f.typeName

def rustType (f : Field) : String :=
  let element := elementType f
  let value := if f.isArray then s!"Vec<{element}>" else element
  if f.isOptional then s!"Option<{value}>" else value

/-- The constant with the width of one element, where the width is fixed. -/
def widthConst? (f : Field) : Option String :=
  match f.type with
  | .primitive .bool => some "size::BOOL_LEN"
  | .primitive .byte | .primitive .sbyte => some "size::BYTE_LEN"
  | .primitive .short | .primitive .ushort => some "size::SHORT_LEN"
  | .primitive .char => some "size::CHAR_LEN"
  | .primitive .int | .primitive .uint => some "size::INT_LEN"
  | .primitive .float => some "size::FLOAT_LEN"
  | .primitive .long | .primitive .ulong => some "size::LONG_LEN"
  | .primitive .double => some "size::DOUBLE_LEN"
  | .enum => some "size::ENUM_LEN"
  | .primitive .string | .message => none

/-- The bytes of one element behind a reference. -/
def elementSize (f : Field) (reference : String) : String :=
  match widthConst? f with
  | some width => width
  | none =>
    if f.type = .message then s!"size::ARRAY_HEADER_LEN + {reference}.total_size()"
    else s!"size::ARRAY_HEADER_LEN + utf16_len({reference}) * size::CHAR_LEN"

def elementsSize (f : Field) (reference : String) : String :=
  match widthConst? f with
  | some width => s!"{reference}.len() * {width}"
  | none =>
    let size := elementSize f "item"
    s!"{reference}.iter().map(|item| {size}).sum::<usize>()"

def readElement (f : Field) (reader : String) : String :=
  match f.type with
  | .primitive p => s!"{reader}.read_{codecSuffix p}()"
  | .enum => s!"{reader}.read_enum::<{elementType f}>()"
  | .message => s!"{reader}.read_message::<{elementType f}>()"

def byValue (reference : String) : String :=
  match reference.toList with
  | '&' :: place => String.ofList place
  | _ => "*" ++ reference

/-- Strings and messages are passed by reference, all else by value. -/
def writeElement (f : Field) (reference : String) : String :=
  match f.type with
  | .primitive .string => s!"writer.write_string({reference})?;"
  | .primitive p => s!"writer.write_{codecSuffix p}({byValue reference})?;"
  | .enum => s!"writer.write_enum({byValue reference})?;"
  | .message => s!"writer.write_message({reference})?;"

end WireSchema.Code
