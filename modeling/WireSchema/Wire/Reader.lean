import WireSchema.Text.Encoding
import WireSchema.Wire.Basic

/-!
Reading from a range of bytes. A reader that fails keeps what it took before it failed.
-/

namespace WireSchema

structure Reader where
  /-- The bytes that have not been read. -/
  rest : List UInt8
  /-- How many have been. -/
  index : Nat

namespace Reader

def ofBytes (data : List UInt8) : Reader := ⟨data, 0⟩

def remaining (r : Reader) : Nat := r.rest.length

def ofRange (data : List UInt8) (offset length : Nat) : Except DecodeError Reader :=
  if offset + length ≤ data.length then .ok (ofBytes ((data.drop offset).take length))
  else .error (.outOfBounds offset length data.length)

end Reader

abbrev Read (α : Type) := ExceptT DecodeError (StateM Reader) α

namespace Read

def exec {α : Type} (step : Read α) (r : Reader) : Except DecodeError α × Reader :=
  StateT.run (ExceptT.run step) r

/-- Takes `n` bytes, or nothing. -/
def bytes (n : Nat) : Read (List UInt8) := do
  let r ← get
  let taken := r.rest.take n
  if taken.length < n then throw (.unexpectedEnd r.index n r.remaining)
  else
    set (Reader.mk (r.rest.drop n) (r.index + n))
    return taken

def fixed (width : Nat) : Read Nat := return Bytes.toNat (← bytes width)

def uint8 : Read UInt8 := return (← fixed 1).toUInt8

def uint16 : Read UInt16 := return (← fixed 2).toUInt16

def uint32 : Read UInt32 := return (← fixed 4).toUInt32

def uint64 : Read UInt64 := return (← fixed 8).toUInt64

/-- Any byte but zero is true. -/
def flag : Read Bool := return (← uint8) != 0

def length : Read Nat := return (← uint16).toNat

def text : Read String := do
  let position := (← get).index
  let count ← length
  let units := Bytes.units (← bytes (2 * count))
  match Text.Utf16.decode? units with
  | some cs => return String.ofList cs
  | none => throw (.invalidUtf16 position)

def times {α : Type} (step : Read α) : Nat → Array α → Read (Array α)
  | 0, acc => return acc
  | n + 1, acc => do times step n (acc.push (← step))

/-- A count, and so many elements. -/
def array {α : Type} (step : Read α) : Read (List α) := do
  let count ← length
  return (← times step count #[]).toList

/-- A byte that says whether a value follows. -/
def optional {α : Type} (step : Read α) : Read (Option α) := do
  if ← flag then return some (← step) else return none

/-- The bytes of a nested message, behind their number. -/
def frame : Read (List UInt8) := do bytes (← length)

/-- Fills a message from its frame. The reader moves past the frame, whatever `fill` makes of it. -/
def frameInto {α : Type} (fill : α → List UInt8 → Except DecodeError Unit × α) (message : α)
    (r : Reader) : Except DecodeError Unit × α × Reader :=
  match frame.exec r with
  | (.error e, r) => (.error e, message, r)
  | (.ok bytes, r) =>
    let (outcome, message) := fill message bytes
    (outcome, message, r)

/-- As `frameInto`, behind a byte that says whether the message is there. An absent message
replaces the old one; a new one is built on `fresh` and kept only if it is complete. -/
def optionalFrameInto {α : Type} (fill : α → List UInt8 → Except DecodeError Unit × α)
    (fresh : α) (message : Option α) (r : Reader) :
    Except DecodeError Unit × Option α × Reader :=
  match flag.exec r with
  | (.error e, r) => (.error e, message, r)
  | (.ok false, r) => (.ok (), none, r)
  | (.ok true, r) =>
    match message with
    | some old =>
      let (outcome, new, r) := frameInto fill old r
      (outcome, some new, r)
    | none =>
      match frameInto fill fresh r with
      | (.ok (), new, r) => (.ok (), some new, r)
      | (.error e, _, r) => (.error e, none, r)

end Read

end WireSchema
