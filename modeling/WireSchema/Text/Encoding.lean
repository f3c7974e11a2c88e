/-!
Written forms: whole numbers in decimal, quoted text and UTF-16.
-/

namespace WireSchema.Text

/-! Whole numbers in decimal: an optional sign and at least one of the ten ASCII digits. -/

def digitValue? (c : Char) : Option Nat :=
  if '0' ≤ c ∧ c ≤ '9' then some (c.toNat - '0'.toNat) else none

/-- Reads on from the value of the digits before. -/
def readDigits? : Nat → List Char → Option Nat
  | n, [] => some n
  | n, c :: cs =>
    match digitValue? c with
    | some d => readDigits? (10 * n + d) cs
    | none => none

/-- Digits only, and at least one. -/
def readNat? : List Char → Option Nat
  | [] => none
  | c :: cs => readDigits? 0 (c :: cs)

/-- A plus sign may stand in front; a minus sign may not, not even before zero. -/
def readUnsigned? : List Char → Option Nat
  | '+' :: cs => readNat? cs
  | cs => readNat? cs

def readSigned? : List Char → Option Int
  | '+' :: cs => (readNat? cs).map Int.ofNat
  | '-' :: cs => (readNat? cs).map fun n => -(n : Int)
  | cs => (readNat? cs).map Int.ofNat

def readUInt16? (cs : List Char) : Option UInt16 :=
  match readUnsigned? cs with
  | some n => if n < 65536 then some n.toUInt16 else none
  | none => none

def readInt32? (cs : List Char) : Option Int32 :=
  match readSigned? cs with
  | some n => if -2147483648 ≤ n ∧ n < 2147483648 then some (Int32.ofInt n) else none
  | none => none

example : readUInt16? ['+', '6', '5', '5', '3', '5'] = some 65535 := by decide
example : readUInt16? ['-', '0'] = none := by decide
example : readInt32? ['-', '0'] = some 0 := by decide

/-! Quoted text: the form in which messages and the printed model show a string. Quotes, backslashes
and control characters are escaped; every other character stands for itself. -/

def hexDigit (n : Nat) : Char :=
  if n < 10 then Char.ofNat ('0'.toNat + n) else Char.ofNat ('a'.toNat + (n - 10))

def escapeChar (c : Char) : List Char :=
  if c = '"' then ['\\', '"']
  else if c = '\\' then ['\\', '\\']
  else if c = '\x08' then ['\\', 'b']
  else if c = '\t' then ['\\', 't']
  else if c = '\n' then ['\\', 'n']
  else if c = '\x0c' then ['\\', 'f']
  else if c = '\r' then ['\\', 'r']
  else if c.toNat < 0x20 then
    ['\\', 'u', '0', '0', hexDigit (c.toNat / 16), hexDigit (c.toNat % 16)]
  else [c]

def quoteChars (cs : List Char) : List Char :=
  '"' :: (cs.flatMap escapeChar ++ ['"'])

def quote (s : String) : String := String.ofList (quoteChars s.toList)

example : quoteChars ['a', '"', '\x1f'] =
    ['"', 'a', '\\', '"', '\\', 'u', '0', '0', '1', 'f', '"'] := by decide

end WireSchema.Text

namespace WireSchema.Text.Utf16

/-! UTF-16: a character up to U+FFFF is one unit, any other is a high and a low surrogate. Decoding
accepts only sequences in which every surrogate has its partner. -/

def isHigh (u : UInt16) : Bool := 0xD800 ≤ u && u < 0xDC00

def isLow (u : UInt16) : Bool := 0xDC00 ≤ u && u < 0xE000

def encodeChar (c : Char) : List UInt16 :=
  if c.toNat < 0x10000 then [c.toNat.toUInt16]
  else
    let n := c.toNat - 0x10000
    [(0xD800 + n / 0x400).toUInt16, (0xDC00 + n % 0x400).toUInt16]

def encode (cs : List Char) : List UInt16 := cs.flatMap encodeChar

def joinPair (high low : UInt16) : Char :=
  Char.ofNat (0x10000 + (high.toNat - 0xD800) * 0x400 + (low.toNat - 0xDC00))

def decodeFrom : List Char → List UInt16 → Option (List Char)
  -- `acc` holds the characters decoded so far, last first
  | acc, [] => some acc.reverse
  | acc, [u] => if isHigh u || isLow u then none else some (Char.ofNat u.toNat :: acc).reverse
  | acc, u :: v :: rest =>
    if isHigh u then
      if isLow v then decodeFrom (joinPair u v :: acc) rest else none
    else if isLow u then none
    else decodeFrom (Char.ofNat u.toNat :: acc) (v :: rest)

def decode? (units : List UInt16) : Option (List Char) := decodeFrom [] units

def length (s : String) : Nat :=
  s.toList.foldl (fun n c => n + if c.toNat < 0x10000 then 1 else 2) 0

example : encode ['a', '😀'] = [0x61, 0xD83D, 0xDE00] := by decide
example : decode? [0x61, 0xD83D, 0xDE00] = some ['a', '😀'] := by decide
example : decode? [0xDE00, 0xD83D] = none := by decide

end WireSchema.Text.Utf16
