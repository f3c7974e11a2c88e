import WireSchema.Code.Check
import WireSchema.Code.Expression
import WireSchema.Code.Listing
import WireSchema.Code.Name

/-!
The facets of a generated type, each one piece of its code. A message has a struct, its sizes, a
writer and a reader; an enum has its conversions.
-/

namespace WireSchema.Code

open Text

/-! The struct of a message: its declaration with the constants of its fields, its constructor, and
the trait implementation through which other messages hold it. -/

def implBlock (d : Definition) (body : List Step) : Step :=
  .block s!"impl {typeIdent d.name}" body

def fieldsSteps (d : Definition) : List Step :=
  [ .line "#[derive(Debug, Clone, PartialEq, Default)]",
    .block s!"pub struct {typeIdent d.name}"
      (d.fields.map fun f => .line s!"pub {fieldIdent f}: {rustType f},"),
    .blank,
    implBlock d
      (.line s!"pub const FIELD_COUNT: usize = {d.fields.length};" ::
        d.fields.map fun f =>
          let name := fieldConst f "ID"
          .line s!"pub const {name}: u16 = {f.id.toNat};") ]

/-- More arguments than this need permission. -/
def argumentLimit : Nat := 7

def constructorSteps (d : Definition) : List Step :=
  let arguments := d.fields.map fun f => s!"{fieldIdent f}: {rustType f}"
  let joined := String.intercalate ", " arguments
  let permission :=
    if argumentLimit < d.fields.length then [Step.line "#[allow(clippy::too_many_arguments)]"] else []
  let body :=
    if d.fields.isEmpty then [Step.line "Self \x7b\x7d"]
    else [Step.block "Self" (d.fields.map fun f => .line s!"{fieldIdent f},")]
  [implBlock d (permission ++ [Step.block s!"pub fn new({joined}) -> Self" body])]

def bindingSteps (d : Definition) : List Step :=
  [ .block s!"impl Message for {typeIdent d.name}"
      [ .block "fn wire_size(&self) -> usize" [.line "self.total_size()"],
        .blank,
        .block "fn write_to(&self, writer: &mut ByteBufferMut<'_>) -> Result<(), EncodeError>"
          [.line "self.write_fields(writer)"],
        .blank,
        .block "fn read_from(&mut self, reader: &mut ByteBuffer<'_>) -> Result<(), DecodeError>"
          [.line "self.read_fields(reader)"] ] ]

/-! Generated code that computes how many bytes a message takes. What every value of the type has is a
constant; the rest is added when the value is known. -/

/-- The part of a required field that does not depend on its value. The length of a nested message
is counted with the message. -/
def minLength (f : Field) : String :=
  let payload := if f.isArray || f.isString then some "size::ARRAY_HEADER_LEN" else widthConst? f
  match payload with
  | some length => s!"size::FIELD_HEADER_LEN + {length}"
  | none => "size::FIELD_HEADER_LEN"

def dynamicSteps (f : Field) : List Step :=
  let place := "self." ++ fieldIdent f
  if f.isOptional then
    if !f.isArray && (widthConst? f).isSome then
      let size := elementSize f "value"
      [.block s!"if {place}.is_some()" [.line s!"length += size::OPTIONAL_FIELD_LEN + {size};"]]
    else
      let payload :=
        if f.isArray then "size::ARRAY_HEADER_LEN + " ++ elementsSize f "value"
        else elementSize f "value"
      [.block s!"if let Some(value) = &{place}"
        [.line s!"length += size::OPTIONAL_FIELD_LEN + {payload};"]]
  else if f.isArray then [.line s!"length += {elementsSize f place};"]
  else if f.type = .message then
    [.line s!"length += size::ARRAY_HEADER_LEN + {place}.total_size();"]
  else if f.isString then [.line s!"length += utf16_len(&{place}) * size::CHAR_LEN;"]
  else []

def minSizeSteps (required : List Field) : List Step :=
  let constants := required.map fun f => fieldConst f "MIN_LEN"
  let terms := constants.map ("Self::" ++ ·)
  let total := if required.isEmpty then "0" else String.intercalate " + " terms
  (required.map fun f =>
    let name := fieldConst f "MIN_LEN"
    Step.line s!"const {name}: usize = {minLength f};")
  ++ [Step.line s!"pub const MIN_SIZE: usize = {total};"]

def sizeSteps (d : Definition) : List Step :=
  let dynamic := d.fields.flatMap dynamicSteps
  let body :=
    if dynamic.isEmpty then [Step.line "Self::MIN_SIZE"]
    else [Step.line "let mut length = Self::MIN_SIZE;"] ++ dynamic ++ [Step.line "length"]
  [ implBlock d
      (minSizeSteps (d.fields.filter fun f => !f.isOptional)
      ++ [ Step.blank,
          .line "/// Exact number of bytes `serialize` produces.",
          .block "pub fn total_size(&self) -> usize" body ]) ]

/-! Generated code that writes a message. -/

def writePayloadSteps (f : Field) (reference : String) : List Step :=
  if f.isArray then
    let place := String.ofList (reference.toList.dropWhile (· == '&'))
    [ .line s!"writer.write_length({place}.len())?;",
      .block s!"for item in {reference}" [.line (writeElement f "item")] ]
  else [.line (writeElement f reference)]

def writeFieldSteps (f : Field) : List Step :=
  let name := fieldConst f "ID"
  let header := Step.line s!"writer.write_field_id(Self::{name})?;"
  let place := "&self." ++ fieldIdent f
  if f.isOptional then
    [.block s!"if let Some(value) = {place}"
      ([header, .line "writer.write_presence()?;"] ++ writePayloadSteps f "value")]
  else header :: writePayloadSteps f place

def serializeSteps (d : Definition) : List Step :=
  let unused := if d.fields.isEmpty then [Step.line "let _ = writer;"] else []
  [ implBlock d
      [ .line "/// Encodes into a new buffer of exactly `total_size()` bytes.",
        .block "pub fn serialize(&self) -> Result<Vec<u8>, EncodeError>"
          [ .line "let mut buffer = vec![0u8; self.total_size()];",
            .line "self.serialize_into(&mut buffer, 0)?;",
            .line "Ok(buffer)" ],
        .blank,
        .line "/// Encodes into `buffer` at `offset` and returns the number of bytes written.",
        .block "pub fn serialize_into(&self, buffer: &mut [u8], offset: usize) -> Result<usize, EncodeError>"
          [ .line "let mut writer = ByteBufferMut::new(buffer, offset, self.total_size())?;",
            .line "self.write_fields(&mut writer)?;",
            .line "writer.finish()" ],
        .blank,
        .block "fn write_fields(&self, writer: &mut ByteBufferMut<'_>) -> Result<(), EncodeError>"
          (unused ++ d.fields.flatMap writeFieldSteps ++ [Step.line "Ok(())"]) ] ]

/-! Generated code that reads a message: a loop over records that goes by the id in front of each. The
first record of a field fills it, later ones are passed over, and an unknown id is an error. -/

/-- Reads a field's value, without the byte that says whether it is there. -/
def readValue (f : Field) (reader : String) : String :=
  if f.isArray then
    let element := readElement f "r"
    s!"{reader}.read_array(|r| {element})"
  else readElement f reader

def readPayload (f : Field) : String :=
  if f.isOptional then
    let value := readValue f "r"
    s!"reader.read_optional(|r| {value})?"
  else readValue f "reader" ++ "?"

/-- A message that is held inside is filled where it stands. -/
def populateStatement (f : Field) : String :=
  let place := "self." ++ fieldIdent f
  if f.type = .message && !f.isArray then
    if f.isOptional then s!"reader.read_optional_message_into(&mut {place})?;"
    else s!"reader.read_message_into(&mut {place})?;"
  else s!"{place} = {readPayload f};"

/-- A message that is held inside is passed over by its length. -/
def skipStatement (f : Field) : String :=
  if f.type = .message && !f.isArray then
    if f.isOptional then "let _ = reader.read_optional(|r| r.skip_message())?;"
    else "reader.skip_message()?;"
  else s!"let _ = {readPayload f};"

def readFieldSteps (f : Field) : Step :=
  let name := fieldConst f "ID"
  .block s!"Self::{name} =>"
    [ .enter s!"if {readFlag f}",
      .line (skipStatement f),
      .reenter "else",
      .line (populateStatement f),
      .line s!"{readFlag f} = true;",
      .line "reads_completed += 1;",
      .leave ]

def readLoopSteps (fields : List Field) : List Step :=
  (fields.map fun f => Step.line s!"let mut {readFlag f} = false;")
  ++ [ Step.line "let mut reads_completed = 0;",
      .block "while reads_completed < Self::FIELD_COUNT && reader.remaining() > size::FIELD_HEADER_LEN"
        [ .line "let position = reader.index();",
          .block "match reader.read_field_id()?"
            (fields.map readFieldSteps
            ++ [Step.line "id => return Err(DecodeError::UnknownField \x7b id, position \x7d),"]) ] ]

def deserializeSteps (d : Definition) : List Step :=
  let loop := if d.fields.isEmpty then [.line "let _ = reader;"] else readLoopSteps d.fields
  [ implBlock d
      [ .line "/// Decodes a new value from `length` bytes of `buffer` at `offset`.",
        .block "pub fn deserialize(buffer: &[u8], offset: usize, length: usize) -> Result<Self, DecodeError>"
          [ .line "let mut message = Self::default();",
            .line "message.unpack(buffer, offset, length)?;",
            .line "Ok(message)" ],
        .blank,
        .line "/// Decodes into `self`, leaving fields absent from the input untouched.",
        .line "/// Returns the number of bytes consumed.",
        .block "pub fn unpack(&mut self, buffer: &[u8], offset: usize, length: usize) -> Result<usize, DecodeError>"
          [ .line "let mut reader = ByteBuffer::bounded(buffer, offset, length)?;",
            .line "self.read_fields(&mut reader)?;",
            .line "Ok(reader.index())" ],
        .blank,
        .block "fn read_fields(&mut self, reader: &mut ByteBuffer<'_>) -> Result<(), DecodeError>"
          (loop ++ [.line "Ok(())"]) ] ]

/-! The type of an enum in generated code, and its conversions to and from 32-bit numbers. The first
entry is the default, so there has to be one. -/

def variantSteps (entries : List Entry) : List Step :=
  match entries.map fun e => Step.line s!"{variantIdent e.name} = {e.value.toInt}," with
  | [] => []
  | first :: rest => .line "#[default]" :: first :: rest

def enumSteps (d : Definition) : Except Unsupported (List Step) :=
  if d.entries.isEmpty then .error (.emptyEnum d.name)
  else
    let name := typeIdent d.name
    .ok
      [ .line "#[derive(Debug, Clone, Copy, PartialEq, Eq, Hash, Default)]",
        .line "#[repr(i32)]",
        .block s!"pub enum {name}" (variantSteps d.entries),
        .blank,
        .block s!"impl From<{name}> for i32"
          [.block s!"fn from(value: {name}) -> Self" [.line "value as i32"]],
        .blank,
        .block s!"impl TryFrom<i32> for {name}"
          [ .line "type Error = DecodeError;",
            .blank,
            .block "fn try_from(value: i32) -> Result<Self, Self::Error>"
              [ .block "match value"
                  ((d.entries.map fun e =>
                    .line s!"{e.value.toInt} => Ok({name}::{variantIdent e.name}),")
                  ++ [.line ("_ => Err(DecodeError::UnknownEnumValue \x7b type_name: "
                      ++ quote name ++ ", value \x7d),")]) ] ] ]

/-! All facets together. -/

inductive Facet where
  | fields | constructor | size | serialize | deserialize | binding | enum
  deriving DecidableEq

namespace Facet

/-- In the order in which a type's code has them. -/
def all : List Facet :=
  [.fields, .constructor, .size, .serialize, .deserialize, .binding, .enum]

def name : Facet → String
  | .fields => "fields"
  | .constructor => "constructor"
  | .size => "size"
  | .serialize => "serialize"
  | .deserialize => "deserialize"
  | .binding => "binding"
  | .enum => "enum"

def applies (facet : Facet) (d : Definition) : Bool :=
  if facet = .enum then d.isEnum else !d.isEnum

def steps (facet : Facet) (d : Definition) : Except Unsupported (List Step) :=
  match facet with
  | .fields => .ok (fieldsSteps d)
  | .constructor => .ok (constructorSteps d)
  | .size => .ok (sizeSteps d)
  | .serialize => .ok (serializeSteps d)
  | .deserialize => .ok (deserializeSteps d)
  | .binding => .ok (bindingSteps d)
  | .enum => enumSteps d

end Facet

end WireSchema.Code
