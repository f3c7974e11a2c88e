import WireSchema.Text.Encoding
import WireSchema.Wire.Basic

/-!
Writing into a range of a buffer whose size was computed before. What is written is given as a
list of operations; an operation that fails may have written its first part.
-/

namespace WireSchema

/-- A range of a buffer and how much of it has been written. -/
structure Writer where
  /-- The whole buffer. -/
  bytes : Array UInt8
  /-- Where the range starts. -/
  start : Nat
  capacity : Nat
  /-- How many bytes of the range have been written. -/
  index : Nat

inductive WriteOp where
  /-- A number of fixed width, or raw bytes: all of them or none. -/
  | bytes (bs : List UInt8)
  /-- A count or length in two bytes. -/
  | length (n : Nat)
  /-- The number of UTF-16 units, then one unit after the other. -/
  | text (s : String)
  /-- A nested message behind the length that it claims. -/
  | message (size : Nat) (body : List WriteOp)

namespace Writer

def new (buffer : Array UInt8) (offset size : Nat) : Except EncodeError Writer :=
  if offset + size ≤ buffer.size then .ok ⟨buffer, offset, size, 0⟩
  else .error (.bufferTooSmall offset size buffer.size)

def store (buffer : Array UInt8) (position : Nat) : List UInt8 → Array UInt8
  | [] => buffer
  | b :: bs => store (buffer.setIfInBounds position b) (position + 1) bs

def put (bs : List UInt8) : Writer → Except EncodeError Unit × Writer
  | ⟨buffer, start, capacity, index⟩ =>
    let after := index + bs.length
    if after ≤ capacity then (.ok (), ⟨store buffer (start + index) bs, start, capacity, after⟩)
    else (.error (.sizeMismatch capacity after), ⟨buffer, start, capacity, index⟩)

def putLength (n : Nat) (w : Writer) : Except EncodeError Unit × Writer :=
  if n < 65536 then w.put (Bytes.ofNat 2 n) else (.error (.lengthOverflow n), w)

def putUnits : List UInt16 → Writer → Except EncodeError Unit × Writer
  | [], w => (.ok (), w)
  | u :: us, w =>
    match w.put (Bytes.ofNat 2 u.toNat) with
    | (.ok (), w) => putUnits us w
    | (.error e, w) => (.error e, w)

def putText (s : String) (w : Writer) : Except EncodeError Unit × Writer :=
  match w.putLength (Text.Utf16.length s) with
  | (.ok (), w) => w.putUnits (Text.Utf16.encode s.toList)
  | (.error e, w) => (.error e, w)

/-- The number of bytes written, which has to be the size of the range. -/
def finish (w : Writer) : Except EncodeError Nat :=
  if w.index = w.capacity then .ok w.index else .error (.sizeMismatch w.capacity w.index)

/-- Takes a range of `size` bytes out of the writer and lets `body` write it to its end. The range
counts as written, whatever `body` does. -/
def putFrame (size : Nat) (body : Writer → Except EncodeError Unit × Writer) :
    Writer → Except EncodeError Unit × Writer
  | ⟨buffer, start, capacity, index⟩ =>
    let after := index + size
    if after ≤ capacity then
      match body ⟨buffer, start + index, size, 0⟩ with
      | (.error e, nested) => (.error e, ⟨nested.bytes, start, capacity, after⟩)
      | (.ok (), nested) =>
        (nested.finish.map fun _ => (), ⟨nested.bytes, start, capacity, after⟩)
    else (.error (.sizeMismatch capacity after), ⟨buffer, start, capacity, index⟩)

end Writer

mutual

def WriteOp.run : WriteOp → Writer → Except EncodeError Unit × Writer
  | .bytes bs, w => w.put bs
  | .length n, w => w.putLength n
  | .text s, w => w.putText s
  | .message size body, w =>
    match w.putLength size with
    | (.ok (), w) => w.putFrame size (WriteOp.runAll body)
    | (.error e, w) => (.error e, w)

/-- Stops at the first operation that fails. -/
def WriteOp.runAll : List WriteOp → Writer → Except EncodeError Unit × Writer
  | [], w => (.ok (), w)
  | op :: ops, w =>
    match op.run w with
    | (.ok (), w) => WriteOp.runAll ops w
    | (.error e, w) => (.error e, w)

end

end WireSchema
