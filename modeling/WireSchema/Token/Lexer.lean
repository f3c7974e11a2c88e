import WireSchema.Text.CharClass
import WireSchema.Text.Encoding
import WireSchema.Token.Basic

/-!
Splitting a text into tokens. A rule says how many characters at the front of a text form a token
of its kind; at each point the first rule that finds one wins. Nothing is lost: the texts of the
tokens in a row are the text.
-/

namespace WireSchema.Token

open Text

/-- How many characters a token takes at the front of a text; zero where there is none. -/
structure Rule where
  kind : Kind
  length : List Char → Nat

namespace Rule

/-- Blank characters; the null character counts as one. -/
def blanks (cs : List Char) : Nat := (cs.takeWhile fun c => isBlank c || c == '\x00').length

def comment : List Char → Nat
  | '/' :: '/' :: cs => 2 + (cs.takeWhile (· != '\n')).length
  | _ => 0

def signLength : List Char → Nat
  | '+' :: _ | '-' :: _ => 1
  | _ => 0

/-- Digits, and a point only where a digit follows it. -/
def unsignedNumber (cs : List Char) : Nat :=
  let whole := (cs.takeWhile isDigit).length
  match cs.drop whole with
  | '.' :: rest =>
    let fraction := (rest.takeWhile isDigit).length
    if fraction = 0 then whole else whole + 1 + fraction
  | _ => whole

def number (cs : List Char) : Nat :=
  let sign := signLength cs
  let digits := unsignedNumber (cs.drop sign)
  if digits = 0 then 0 else sign + digits

def literal (word cs : List Char) : Nat := if word.isPrefixOf cs then word.length else 0

/-- Whether a word that ends before `cs` ends there as a whole. -/
def endsWord : List Char → Bool
  | [] => true
  | c :: _ => !isWordChar c

def keyword (word cs : List Char) : Nat :=
  if word.isPrefixOf cs && endsWord (cs.drop word.length) then word.length else 0

/-- Everything up to the next quote, which has to be there. -/
def quoted : List Char → Nat
  | '"' :: cs =>
    let body := cs.takeWhile (· != '"')
    match cs.drop body.length with
    | [] => 0
    | _ :: _ => body.length + 2
  | _ => 0

def isNameStart (c : Char) : Bool := c.isAlpha || c == '_'

def isNamePart (c : Char) : Bool := c.isAlphanum || c == '_'

/-- The rest of a name whose first character has been read; a point is part of it where a name
starts after it. -/
def nameTail : List Char → Nat
  | '.' :: c :: cs => if isNameStart c then 2 + nameTail cs else 0
  | c :: cs => if isNamePart c then 1 + nameTail cs else 0
  | [] => 0

def identifier : List Char → Nat
  | c :: cs => if isNameStart c then 1 + nameTail cs else 0
  | [] => 0

end Rule

/-- Keywords stand before identifiers, so a whole keyword is never a name. -/
def rules : List Rule :=
  [ ⟨.blank, Rule.blanks⟩, ⟨.comment, Rule.comment⟩, ⟨.hash, Rule.literal ['#']⟩,
    ⟨.number, Rule.number⟩, ⟨.semicolon, Rule.literal [';']⟩,
    ⟨.brackets, Rule.literal ['[', ']']⟩, ⟨.question, Rule.literal ['?']⟩,
    ⟨.equals, Rule.literal ['=']⟩, ⟨.openBrace, Rule.literal ['\x7b']⟩,
    ⟨.closeBrace, Rule.literal ['\x7d']⟩, ⟨.message, Rule.keyword "message".toList⟩,
    ⟨.enum, Rule.keyword "enum".toList⟩ ]
  ++ Primitive.all.map (fun p => ⟨.primitive p, Rule.keyword p.keyword.toList⟩)
  ++ [ ⟨.quoted, Rule.quoted⟩, ⟨.identifier, Rule.identifier⟩ ]

def Rule.lexeme? (r : Rule) (cs : List Char) : Option (Kind × Nat) :=
  if r.length cs = 0 then none else some (r.kind, r.length cs)

def lexeme? (cs : List Char) : Option (Kind × Nat) := rules.findSome? (Rule.lexeme? · cs)

theorem Rule.lexeme?_pos {r : Rule} {cs : List Char} {k : Kind} {n : Nat}
    (h : r.lexeme? cs = some (k, n)) : 0 < n := by
  unfold Rule.lexeme? at h
  split at h
  · cases h
  · cases h; omega

theorem lexeme?_pos {cs : List Char} {k : Kind} {n : Nat} (h : lexeme? cs = some (k, n)) :
    0 < n := by
  obtain ⟨r, -, hr⟩ := List.exists_of_findSome?_eq_some h
  exact Rule.lexeme?_pos hr

end WireSchema.Token

namespace WireSchema

open Text

/-! All tokens of a text. -/

structure LexError where
  offset : Nat
  place : Place
  /-- The start of what could not be read, in quotes. -/
  text : String

namespace LexError

def message (e : LexError) : String :=
  s!"Syntax error at line {e.place.line}, column {e.place.column}: unexpected {e.text}"

/-- What an error shows of the rest of the text: up to sixteen characters before a blank. -/
def excerpt (rest : List Char) : List Char := (rest.takeWhile fun c => !isBlank c).take 16

end LexError

namespace Token

def utf8Length (cs : List Char) : Nat := cs.foldl (fun n c => n + c.utf8Size) 0

/-- Reads on at `offset` and `place`; `acc` holds the tokens before. -/
def lexFrom (offset : Nat) (place : Place) (cs : List Char) (acc : Array Token) :
    Except LexError (Array Token) :=
  match cs with
  | [] => .ok (acc.push ⟨.finish, "", offset, place⟩)
  | c :: rest =>
    match _found : lexeme? (c :: rest) with
    | none => .error ⟨offset, place, quote (String.ofList (LexError.excerpt (c :: rest)))⟩
    | some (kind, n) =>
      let lexeme := (c :: rest).take n
      lexFrom (offset + utf8Length lexeme) (place.advance lexeme) ((c :: rest).drop n)
        (acc.push ⟨kind, String.ofList lexeme, offset, place⟩)
termination_by cs.length
decreasing_by
  have := lexeme?_pos _found
  simp only [List.length_drop, List.length_cons]
  omega

/-- Every token of a text, blanks and comments included, closed by a `finish` token. -/
def lex (text : String) : Except LexError (List Token) :=
  (lexFrom 0 Place.start text.toList #[]).map Array.toList

def significant (tokens : List Token) : List Token := tokens.filter fun t => !t.kind.isTrivia

def tokenize (text : String) : Except LexError (List Token) := (lex text).map significant

end Token

end WireSchema
