/-!
Tokens of schema text, places in the text, and the built-in field types with their keywords.
-/

namespace WireSchema

inductive Primitive where
  | bool | byte | sbyte | short | ushort | int | uint | long | ulong | float | double | string | char
  deriving DecidableEq

namespace Primitive

def all : List Primitive :=
  [.bool, .byte, .sbyte, .short, .ushort, .int, .uint, .long, .ulong, .float, .double, .string,
    .char]

def keyword : Primitive → String
  | .bool => "bool"
  | .byte => "byte"
  | .sbyte => "sbyte"
  | .short => "short"
  | .ushort => "ushort"
  | .int => "int"
  | .uint => "uint"
  | .long => "long"
  | .ulong => "ulong"
  | .float => "float"
  | .double => "double"
  | .string => "string"
  | .char => "char"

def ofKeyword? (text : String) : Option Primitive := all.find? fun p => p.keyword == text

/-- Bytes that a value takes on the wire; a string has no fixed width. -/
def width? : Primitive → Option Nat
  | .bool | .byte | .sbyte => some 1
  | .short | .ushort | .char => some 2
  | .int | .uint | .float => some 4
  | .long | .ulong | .double => some 8
  | .string => none

theorem mem_all (p : Primitive) : p ∈ all := by cases p <;> decide

end Primitive

/-! Places and tokens. -/

/-- Lines and columns count from one; a column counts characters. -/
structure Place where
  line : Nat
  column : Nat
  deriving DecidableEq

namespace Place

def start : Place := ⟨1, 1⟩

def next (p : Place) (c : Char) : Place :=
  if c = '\n' then ⟨p.line + 1, 1⟩ else ⟨p.line, p.column + 1⟩

def advance (p : Place) (cs : List Char) : Place := cs.foldl next p

def le (p q : Place) : Bool := p.line < q.line || (p.line == q.line && p.column ≤ q.column)

@[simp] theorem advance_nil (p : Place) : p.advance [] = p := rfl

@[simp] theorem advance_append (p : Place) (cs ds : List Char) :
    p.advance (cs ++ ds) = (p.advance cs).advance ds := List.foldl_append

end Place

inductive Token.Kind where
  | blank | comment | hash | number | semicolon | brackets | question | equals
  | openBrace | closeBrace | message | enum
  | primitive (p : Primitive)
  | quoted | identifier
  /-- The end of the text. -/
  | finish
  deriving DecidableEq

namespace Token.Kind

/-- Blanks and comments carry no meaning. -/
def isTrivia : Kind → Bool
  | .blank | .comment => true
  | _ => false

def primitive? : Kind → Option Primitive
  | .primitive p => some p
  | _ => none

end Token.Kind

structure Token where
  kind : Token.Kind
  text : String
  /-- Bytes of the text before this token. -/
  offset : Nat
  place : Place
  deriving DecidableEq

end WireSchema
