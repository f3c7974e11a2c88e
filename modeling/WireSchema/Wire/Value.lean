import WireSchema.Schema.Basic

/-!
Values of messages, and when two of them are equal. A message holds one value for each field, in
the order of the fields. Numbers with a fractional part are kept as their bit patterns.
-/

namespace WireSchema

inductive Scalar where
  | bool (b : Bool)
  | byte (n : UInt8)
  | sbyte (n : Int8)
  | short (n : Int16)
  | ushort (n : UInt16)
  | int (n : Int32)
  | uint (n : UInt32)
  | long (n : Int64)
  | ulong (n : UInt64)
  | float (bits : UInt32)
  | double (bits : UInt64)
  | string (s : String)
  /-- One UTF-16 unit. -/
  | char (unit : UInt16)
  deriving DecidableEq

namespace Scalar

def type : Scalar → Primitive
  | .bool _ => .bool
  | .byte _ => .byte
  | .sbyte _ => .sbyte
  | .short _ => .short
  | .ushort _ => .ushort
  | .int _ => .int
  | .uint _ => .uint
  | .long _ => .long
  | .ulong _ => .ulong
  | .float _ => .float
  | .double _ => .double
  | .string _ => .string
  | .char _ => .char

/-- False, zero or empty. -/
def zero : Primitive → Scalar
  | .bool => .bool false
  | .byte => .byte 0
  | .sbyte => .sbyte 0
  | .short => .short 0
  | .ushort => .ushort 0
  | .int => .int 0
  | .uint => .uint 0
  | .long => .long 0
  | .ulong => .ulong 0
  | .float => .float 0
  | .double => .double 0
  | .string => .string ""
  | .char => .char 0

@[simp] theorem type_zero (p : Primitive) : (zero p).type = p := by cases p <;> rfl

end Scalar

/-- What a field can hold. An optional field holds its value itself, or `absent`. -/
inductive Value where
  | scalar (x : Scalar)
  | enum (n : Int32)
  | message (values : List Value)
  | array (items : List Value)
  | absent

namespace Value

def values? : Value → Option (List Value)
  | .message values => some values
  | _ => none

def ofValues? : Option (List Value) → Value
  | some values => .message values
  | none => .absent

end Value

namespace Schema

def fieldsOf (s : Schema) (name : String) : List Field :=
  match s.definition? name with
  | some d => d.fields
  | none => []

def entriesOf (s : Schema) (name : String) : List Entry :=
  match s.definition? name with
  | some d => d.entries
  | none => []

/-- The first entry is the default. -/
def defaultEntry (s : Schema) (name : String) : Int32 :=
  match s.entriesOf name with
  | e :: _ => e.value
  | [] => 0

def defaultValueWith (s : Schema) (message : String → List Value) (f : Field) : Value :=
  if f.isOptional then .absent
  else if f.isArray then .array []
  else
    match f.type with
    | .primitive p => .scalar (Scalar.zero p)
    | .enum => .enum (s.defaultEntry f.typeName)
    | .message => .message (message f.typeName)

/-- The default of a message, down to a depth. -/
def defaultMessageTo (s : Schema) : (depth : Nat) → String → List Value
  | 0, _ => []
  | depth + 1, name => (s.fieldsOf name).map (s.defaultValueWith (s.defaultMessageTo depth))

/-- The default of a message. Where no message holds itself inside, a chain of messages that hold
one another is at most as long as the list of definitions. -/
def defaultMessage (s : Schema) (name : String) : List Value :=
  s.defaultMessageTo s.definitions.length name

end Schema

/-! Equality of values as numbers: a fractional number that is none differs from itself, and the two
zeros are equal. Everything else is equal when it is the same. -/

/-- Bit patterns above this one, the sign left out, are no numbers. -/
def floatInfinity : UInt32 := 0x7F800000

def doubleInfinity : UInt64 := 0x7FF0000000000000

def floatEqual (a b : UInt32) : Bool :=
  let x := a &&& 0x7FFFFFFF
  let y := b &&& 0x7FFFFFFF
  x ≤ floatInfinity && y ≤ floatInfinity && (a == b || (x == 0 && y == 0))

def doubleEqual (a b : UInt64) : Bool :=
  let x := a &&& 0x7FFFFFFFFFFFFFFF
  let y := b &&& 0x7FFFFFFFFFFFFFFF
  x ≤ doubleInfinity && y ≤ doubleInfinity && (a == b || (x == 0 && y == 0))

def Scalar.equal : Scalar → Scalar → Bool
  | .float a, .float b => floatEqual a b
  | .double a, .double b => doubleEqual a b
  | x, y => x = y

mutual

def Value.equal : Value → Value → Bool
  | .scalar x, .scalar y => x.equal y
  | .enum m, .enum n => m == n
  | .message xs, .message ys => Value.allEqual xs ys
  | .array xs, .array ys => Value.allEqual xs ys
  | .absent, .absent => true
  | _, _ => false

def Value.allEqual : List Value → List Value → Bool
  | [], [] => true
  | x :: xs, y :: ys => x.equal y && Value.allEqual xs ys
  | _, _ => false

end

end WireSchema
