import WireSchema.Code.Name
import WireSchema.Schema.Check
import WireSchema.Wire.Reader
import WireSchema.Wire.Value

/-!
Reading a message: records in any order, each found by its id. The first record of a field fills
it, a later one is passed over, and a field without a record keeps its value. When reading fails,
the fields read before stay filled.
-/

namespace WireSchema

def Scalar.read : Primitive → Read Scalar
  | .bool => return .bool (← Read.flag)
  | .byte => return .byte (← Read.uint8)
  | .sbyte => return .sbyte (← Read.uint8).toInt8
  | .short => return .short (← Read.uint16).toInt16
  | .ushort => return .ushort (← Read.uint16)
  | .int => return .int (← Read.uint32).toInt32
  | .uint => return .uint (← Read.uint32)
  | .long => return .long (← Read.uint64).toInt64
  | .ulong => return .ulong (← Read.uint64)
  | .float => return .float (← Read.uint32)
  | .double => return .double (← Read.uint64)
  | .string => return .string (← Read.text)
  | .char => return .char (← Read.uint16)

/-- How the message of a given type takes in a frame. -/
abbrev Fill := String → List Value → List UInt8 → Except DecodeError Unit × List Value

/-- A field with its value, and whether a record of it has been read. -/
structure Slot where
  field : Field
  value : Value
  seen : Bool

namespace Slot

def ofValues (fields : List Field) (values : List Value) : List Slot :=
  List.zipWith (fun f v => ⟨f, v, false⟩) fields values

end Slot

namespace Schema

/-- A number that is the value of one of the enum's entries. -/
def readEnum (s : Schema) (name : String) : Read Int32 := do
  let n := (← Read.uint32).toInt32
  if (s.entriesOf name).any fun e => e.value == n then return n
  else throw (.unknownEnumValue (Code.typeIdent name) n)

def readMessage (s : Schema) (fill : Fill) (name : String) : Read (List Value) := do
  match fill name (s.defaultMessage name) (← Read.frame) with
  | (.ok (), values) => return values
  | (.error e, _) => throw e

def readElement (s : Schema) (fill : Fill) (f : Field) : Read Value := do
  match f.type with
  | .primitive p => return .scalar (← Scalar.read p)
  | .enum => return .enum (← s.readEnum f.typeName)
  | .message => return .message (← s.readMessage fill f.typeName)

/-- A value without the byte that says whether it is there. -/
def readPresent (s : Schema) (fill : Fill) (f : Field) : Read Value := do
  if f.isArray then return .array (← Read.array (s.readElement fill f))
  else s.readElement fill f

def readPayload (s : Schema) (fill : Fill) (f : Field) : Read Value := do
  if f.isOptional then
    match ← Read.optional (s.readPresent fill f) with
    | some v => return v
    | none => return .absent
  else s.readPresent fill f

/-- Passes over a record. A message held inside is not looked into. -/
def skip (s : Schema) (fill : Fill) (f : Field) : Read Unit := do
  if f.isInline then
    if f.isOptional then
      let _ ← Read.optional Read.frame
    else
      let _ ← Read.frame
  else
    let _ ← s.readPayload fill f

/-- Fills a field from a record. A message held inside is filled where it stands; any other value
is replaced once it has been read as a whole. -/
def populate (s : Schema) (fill : Fill) (f : Field) (v : Value) (r : Reader) :
    Except DecodeError Unit × Value × Reader :=
  if f.isInline then
    if f.isOptional then
      let fresh := s.defaultMessage f.typeName
      let (outcome, values, r) := Read.optionalFrameInto (fill f.typeName) fresh v.values? r
      (outcome, Value.ofValues? values, r)
    else
      let (outcome, values, r) := Read.frameInto (fill f.typeName) (v.values?.getD []) r
      (outcome, .message values, r)
  else
    match (s.readPayload fill f).exec r with
    | (.ok v, r) => (.ok (), v, r)
    | (.error e, r) => (.error e, v, r)

def readSlot (s : Schema) (fill : Fill) (slot : Slot) (r : Reader) :
    Except DecodeError Unit × Slot × Reader :=
  if slot.seen then
    let (outcome, r) := (s.skip fill slot.field).exec r
    (outcome, slot, r)
  else
    match s.populate fill slot.field slot.value r with
    | (.ok (), v, r) => (.ok (), ⟨slot.field, v, true⟩, r)
    | (.error e, v, r) => (.error e, ⟨slot.field, v, false⟩, r)

/-- Reads a record into the slot with its id, where there is one. -/
def readRecord (s : Schema) (fill : Fill) (id : UInt16) :
    List Slot → Reader → Option (Except DecodeError Unit × List Slot × Reader)
  | [], _ => none
  | slot :: slots, r =>
    if slot.field.id = id then
      let (outcome, slot, r) := s.readSlot fill slot r
      some (outcome, slot :: slots, r)
    else
      (s.readRecord fill id slots r).map fun (outcome, slots, r) => (outcome, slot :: slots, r)

/-- Reads records until every slot has had one or no more than an id is left. Records and nested
frames are shorter than what they stand in, so `fuel` need not exceed the number of bytes. -/
def readRecords (s : Schema) :
    (fuel : Nat) → List Slot → Reader → Except DecodeError Unit × List Slot × Reader
  | 0, slots, r => (.ok (), slots, r)
  | fuel + 1, slots, r =>
    if slots.all Slot.seen then (.ok (), slots, r)
    else
      match r.rest with
      | low :: high :: next :: rest =>
        let id := (Bytes.toNat [low, high]).toUInt16
        let fill : Fill := fun name values bytes =>
          let slots := Slot.ofValues (s.fieldsOf name) values
          let (outcome, slots, _) := s.readRecords fuel slots (Reader.ofBytes bytes)
          (outcome, slots.map Slot.value)
        match s.readRecord fill id slots ⟨next :: rest, r.index + 2⟩ with
        | none => (.error (.unknownField id r.index), slots, ⟨next :: rest, r.index + 2⟩)
        | some (.error e, slots, r) => (.error e, slots, r)
        | some (.ok (), slots, r) => s.readRecords fuel slots r
      | _ => (.ok (), slots, r)

def readFields (s : Schema) (fields : List Field) (values : List Value) (r : Reader) :
    Except DecodeError Unit × List Value × Reader :=
  let (outcome, slots, r) := s.readRecords r.remaining (Slot.ofValues fields values) r
  (outcome, slots.map Slot.value, r)

def fill (s : Schema) : Fill := fun name values bytes =>
  let (outcome, values, _) := s.readFields (s.fieldsOf name) values (Reader.ofBytes bytes)
  (outcome, values)

/-- Reads a range of bytes into a message. The result is the number of bytes that were read, and
the message, which keeps what was read before an error. -/
def unpack (s : Schema) (fields : List Field) (values : List Value) (data : List UInt8)
    (offset length : Nat) : Except DecodeError Nat × List Value :=
  match Reader.ofRange data offset length with
  | .error e => (.error e, values)
  | .ok r =>
    let (outcome, values, r) := s.readFields fields values r
    (outcome.map fun _ => r.index, values)

def deserialize (s : Schema) (name : String) (data : List UInt8) (offset length : Nat) :
    Except DecodeError (List Value) :=
  match s.unpack (s.fieldsOf name) (s.defaultMessage name) data offset length with
  | (.ok _, values) => .ok values
  | (.error e, _) => .error e

end Schema

end WireSchema
