import WireSchema.Schema.Basic
import WireSchema.Text.Case

/-!
Names in generated Rust code. Types and variants are in Pascal case, fields in snake case and
constants in capitals; a name that is a keyword of Rust gets an underscore at its end.
-/

namespace WireSchema.Code

open Text

/-- The first character in capitals; the others stay or become small. -/
def capitalize (lowerRest : Bool) : List Char → List Char
  | [] => []
  | c :: cs => upperChar c ++ if lowerRest then lower cs else cs

/-- Words between underscores are capitalized one by one. A text without underscores only gets a
capital at its front, unless it is all capitals, which then become small. -/
def pascalCase (cs : List Char) : List Char :=
  if cs.contains '_' then
    ((cs.splitOn '_').filter fun word => !word.isEmpty).flatMap (capitalize true)
  else capitalize (cs == upper cs) cs

/-- Whether an underscore goes before a capital: after a character that is neither a capital nor
an underscore, and before the last capital of a run when a small letter follows. -/
def startsWord (previous : Option Char) (following : List Char) : Bool :=
  match previous with
  | none => false
  | some p =>
    if isUpper p then
      match following with
      | [] => false
      | c :: _ => isLower c
    else p != '_'

/-- Reads on after `previous`. -/
def snakeFrom (previous : Option Char) : List Char → List Char
  | [] => []
  | c :: cs =>
    if isUpper c then
      (if startsWord previous cs then ['_'] else []) ++ lowerChar c ++ snakeFrom (some c) cs
    else c :: snakeFrom (some c) cs

def snakeCase (cs : List Char) : List Char := snakeFrom none cs

def screamingCase (cs : List Char) : List Char := upper (snakeCase cs)

/-- The keywords of Rust, those it reserves included. -/
def keywords : List String :=
  [ "as", "break", "const", "continue", "crate", "else", "enum", "extern", "false", "fn", "for",
    "if", "impl", "in", "let", "loop", "match", "mod", "move", "mut", "pub", "ref", "return",
    "self", "Self", "static", "struct", "super", "trait", "true", "type", "unsafe", "use", "where",
    "while", "async", "await", "dyn", "abstract", "become", "box", "do", "final", "macro",
    "override", "priv", "typeof", "unsized", "virtual", "yield", "try" ]

def escapeKeyword (name : String) : String :=
  if keywords.contains name then name ++ "_" else name

def pascal (name : String) : String := String.ofList (pascalCase name.toList)

def snake (name : String) : String := String.ofList (snakeCase name.toList)

def screaming (name : String) : String := String.ofList (screamingCase name.toList)

def typeIdent (name : String) : String := escapeKeyword (pascal name)

def variantIdent (name : String) : String := typeIdent name

def moduleIdent (name : String) : String := escapeKeyword (snake name)

/-- The member of the struct, and the argument of its constructor. -/
def fieldIdent (f : Field) : String := escapeKeyword (snake f.name)

def fieldConst (f : Field) (suffix : String) : String := screaming f.name ++ "_" ++ suffix

/-- The variable that says whether a field has been read. -/
def readFlag (f : Field) : String := snake f.name ++ "_read"

/-- Case conversion can leave a name empty, a lone underscore or a digit in front. -/
def isIdent (name : String) : Bool :=
  match name.toList with
  | [] => false
  | ['_'] => false
  | c :: _ => !c.isDigit

end WireSchema.Code
