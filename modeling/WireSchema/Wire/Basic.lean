/-!
Numbers as bytes, the lowest byte first, and what can go wrong when messages are read and written.
-/

namespace WireSchema.Bytes

/-- The lowest `width` bytes of a number. -/
def ofNat : (width : Nat) → Nat → List UInt8
  | 0, _ => []
  | width + 1, n => (n % 256).toUInt8 :: ofNat width (n / 256)

def toNat : List UInt8 → Nat
  | [] => 0
  | b :: bs => b.toNat + 256 * toNat bs

@[simp] theorem toNat_nil : toNat [] = 0 := rfl

@[simp] theorem toNat_cons (b : UInt8) (bs : List UInt8) :
    toNat (b :: bs) = b.toNat + 256 * toNat bs := rfl

@[simp] theorem length_ofNat (width n : Nat) : (ofNat width n).length = width := by
  induction width generalizing n with
  | zero => rfl
  | succ width ih => simp [ofNat, ih]

/-- Pairs of bytes as 16-bit units. -/
def unitsFrom (acc : List UInt16) : List UInt8 → List UInt16
  -- `acc` holds the units before, last first
  | low :: high :: rest => unitsFrom ((toNat [low, high]).toUInt16 :: acc) rest
  | _ => acc.reverse

def units (bytes : List UInt8) : List UInt16 := unitsFrom [] bytes

example : ofNat 4 0x12345678 = [0x78, 0x56, 0x34, 0x12] := by decide
example : toNat [0x34, 0x12] = 0x1234 := by decide

end WireSchema.Bytes

namespace WireSchema

/-! Errors and their wording. -/

inductive DecodeError where
  /-- A range that is not inside the data. -/
  | outOfBounds (offset length available : Nat)
  | unexpectedEnd (position needed remaining : Nat)
  | invalidUtf16 (position : Nat)
  | unknownEnumValue (type : String) (value : Int32)
  | unknownField (id : UInt16) (position : Nat)
  deriving DecidableEq

namespace DecodeError

def message : DecodeError → String
  | .outOfBounds offset length available =>
    s!"Range {offset}..{offset}+{length} is outside of a {available} byte buffer"
  | .unexpectedEnd position needed remaining =>
    s!"Unexpected end of data at byte {position}: needed {needed} more byte(s), {remaining} left"
  | .invalidUtf16 position => s!"Invalid UTF-16 string data at byte {position}"
  | .unknownEnumValue type value => s!"Value {value.toInt} is not a member of enum {type}"
  | .unknownField id position => s!"Unknown field id {id.toNat} at byte {position}"

end DecodeError

inductive EncodeError where
  /-- A range that is not inside the buffer. -/
  | bufferTooSmall (offset needed available : Nat)
  /-- A length that two bytes cannot hold. -/
  | lengthOverflow (length : Nat)
  | sizeMismatch (expected written : Nat)
  deriving DecidableEq

namespace EncodeError

def message : EncodeError → String
  | .bufferTooSmall offset needed available =>
    s!"Buffer too small: {needed} byte(s) needed at offset {offset}, buffer holds {available}"
  | .lengthOverflow length => s!"Length {length} does not fit in a 16-bit length header"
  | .sizeMismatch expected written =>
    s!"Computed size {expected} does not match the {written} byte(s) written"

end EncodeError

end WireSchema
