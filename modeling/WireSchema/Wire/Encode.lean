import WireSchema.Text.Encoding
import WireSchema.Wire.Value
import WireSchema.Wire.Writer

/-!
Writing a message: one record for each field that has a value, in the order of the fields. A record
is the field's id, a byte if the field is optional, and the value.
-/

namespace WireSchema

/-! How many bytes a message takes. Each required field has a part that every value shares; what
depends on the value is added to the sum of those parts. -/

/-- The id in front of a record. -/
def fieldHeaderLength : Nat := 2

/-- The id and the byte that says that an optional value is there. -/
def optionalHeaderLength : Nat := 3

/-- The count of an array, the units of a string or the bytes of a message. -/
def lengthHeaderLength : Nat := 2

/-- The part of a field that no value of it goes without. The length of a nested message is
counted with the message. -/
def Field.minSize (f : Field) : Nat :=
  if f.isOptional then 0
  else if f.isArray || f.isString then fieldHeaderLength + lengthHeaderLength
  else fieldHeaderLength + f.elementWidth?.getD 0

def minSize (fields : List Field) : Nat := fields.foldr (fun f n => f.minSize + n) 0

namespace Schema

mutual

def elementSize (s : Schema) (f : Field) : Value → Nat
  | .message values =>
    lengthHeaderLength
      + (minSize (s.fieldsOf f.typeName) + s.dynamicSize (s.fieldsOf f.typeName) values)
  | .scalar (.string text) => lengthHeaderLength + 2 * Text.Utf16.length text
  | _ => f.elementWidth?.getD 0

/-- The bytes of the elements of an array, added to `acc`. -/
def elementsSize (s : Schema) (f : Field) (acc : Nat) : List Value → Nat
  | [] => acc
  | v :: vs => s.elementsSize f (acc + s.elementSize f v) vs

/-- What the values add to the parts that all values share. -/
def dynamicSize (s : Schema) : List Field → List Value → Nat
  | f :: fs, v :: vs =>
    (match v with
      | .absent => 0
      | .array items =>
        if f.isOptional then optionalHeaderLength + lengthHeaderLength + s.elementsSize f 0 items
        else s.elementsSize f 0 items
      | .scalar (.string text) =>
        if f.isOptional then
          optionalHeaderLength + lengthHeaderLength + 2 * Text.Utf16.length text
        else 2 * Text.Utf16.length text
      | .message values =>
        (if f.isOptional then optionalHeaderLength else 0) + lengthHeaderLength
          + (minSize (s.fieldsOf f.typeName) + s.dynamicSize (s.fieldsOf f.typeName) values)
      | _ => if f.isOptional then optionalHeaderLength + f.elementWidth?.getD 0 else 0)
    + s.dynamicSize fs vs
  | _, _ => 0

end

def totalSize (s : Schema) (fields : List Field) (values : List Value) : Nat :=
  minSize fields + s.dynamicSize fields values

end Schema

/-! Records. -/

namespace Scalar

def bytes : Scalar → List UInt8
  | .bool b => [if b then 1 else 0]
  | .byte n => [n]
  | .sbyte n => [n.toUInt8]
  | .short n => Bytes.ofNat 2 n.toUInt16.toNat
  | .ushort n => Bytes.ofNat 2 n.toNat
  | .int n => Bytes.ofNat 4 n.toUInt32.toNat
  | .uint n => Bytes.ofNat 4 n.toNat
  | .long n => Bytes.ofNat 8 n.toUInt64.toNat
  | .ulong n => Bytes.ofNat 8 n.toNat
  | .float bits => Bytes.ofNat 4 bits.toNat
  | .double bits => Bytes.ofNat 8 bits.toNat
  | .char unit => Bytes.ofNat 2 unit.toNat
  | .string _ => []

def writeOp : Scalar → WriteOp
  | .string s => .text s
  | x => .bytes x.bytes

end Scalar

def enumBytes (n : Int32) : List UInt8 := Bytes.ofNat 4 n.toUInt32.toNat

def Field.headerOps (f : Field) : List WriteOp :=
  .bytes (Bytes.ofNat 2 f.id.toNat) :: if f.isOptional then [.bytes [1]] else []

namespace Schema

mutual

def elementOp (s : Schema) (f : Field) : Value → WriteOp
  | .scalar x => x.writeOp
  | .enum n => .bytes (enumBytes n)
  | .message values =>
    .message (s.totalSize (s.fieldsOf f.typeName) values)
      (s.recordOps (s.fieldsOf f.typeName) values)
  | .array _ | .absent => .bytes []

def elementOps (s : Schema) (f : Field) (acc : List WriteOp) : List Value → List WriteOp
  -- `acc` holds the operations of the elements before, last first
  | [] => acc.reverse
  | v :: vs => s.elementOps f (s.elementOp f v :: acc) vs

/-- The records of a message; an absent value has none. -/
def recordOps (s : Schema) : List Field → List Value → List WriteOp
  | f :: fs, v :: vs =>
    (match v with
      | .absent => []
      | .array items => f.headerOps ++ .length items.length :: s.elementOps f [] items
      | .scalar x => f.headerOps ++ [x.writeOp]
      | .enum n => f.headerOps ++ [.bytes (enumBytes n)]
      | .message values =>
        f.headerOps
          ++ [.message (s.totalSize (s.fieldsOf f.typeName) values)
              (s.recordOps (s.fieldsOf f.typeName) values)])
    ++ s.recordOps fs vs
  | _, _ => []

end

/-- Writes a message into a buffer at `offset`. The buffer comes back even if writing failed. -/
def serializeInto (s : Schema) (fields : List Field) (values : List Value)
    (buffer : Array UInt8) (offset : Nat) : Except EncodeError Nat × Array UInt8 :=
  match Writer.new buffer offset (s.totalSize fields values) with
  | .error e => (.error e, buffer)
  | .ok w =>
    match WriteOp.runAll (s.recordOps fields values) w with
    | (.error e, w) => (.error e, w.bytes)
    | (.ok (), w) => (w.finish, w.bytes)

def serialize (s : Schema) (fields : List Field) (values : List Value) :
    Except EncodeError (Array UInt8) :=
  match s.serializeInto fields values (Array.replicate (s.totalSize fields values) 0) 0 with
  | (.error e, _) => .error e
  | (.ok _, buffer) => .ok buffer

end Schema

end WireSchema
