import WireSchema.Schema.Check
import WireSchema.Schema.Issue
import WireSchema.Schema.Parser
import WireSchema.Token.Lexer

/-!
From text to a checked schema: tokens, grammar, binding of type names and rules.
-/

namespace WireSchema

/-! Binding of type names. The first definition of a name decides whether a field of that type is an
enum or a message. -/

namespace Field

/-- A field of a built-in type, or of a name that nothing defines, stays as it is. -/
def resolve (s : Schema) (f : Field) : Field :=
  match f.type with
  | .primitive _ => f
  | _ =>
    match s.definition? f.typeName with
    | some d => { f with type := if d.isEnum then .enum else .message }
    | none => f

def unresolvedIssues (s : Schema) (f : Field) : List Issue :=
  match f.type with
  | .primitive _ => []
  | _ =>
    if (s.definition? f.typeName).isSome then []
    else [(Cause.unresolvedType f.typeName f.name).issueAt f.place]

end Field

def Definition.resolve (s : Schema) (d : Definition) : Definition :=
  match d.body with
  | .message fields => { d with body := .message (fields.map (Field.resolve s)) }
  | .enum _ => d

namespace Schema

def resolve (s : Schema) : Schema :=
  { s with definitions := s.definitions.map (Definition.resolve s) }

def unresolvedIssues (s : Schema) : List Issue :=
  s.definitions.flatMap fun d => d.fields.flatMap (Field.unresolvedIssues s)

/-! Everything that is wrong with a text, or the schema that it spells. -/

/-- The grammar's issues, then unknown types, then violated rules. -/
def issuesOf (s : Schema) (grammar : List Issue) : List Issue :=
  grammar ++ s.unresolvedIssues ++ s.resolve.issues

/-- The schema that the tokens spell, unless anything is wrong with it. -/
def ofTokens (tokens : List Token) : Except Report Schema :=
  let (draft, grammar) := Parser.document tokens
  let found := draft.issuesOf grammar
  if found.isEmpty then .ok draft.resolve else .error (Report.ofIssues found)

end Schema

inductive ParseError where
  | lex (e : LexError)
  | report (r : Report)

namespace ParseError

def message : ParseError → String
  | .lex e => e.message
  | .report r => r.message

end ParseError

namespace Schema

def parse (text : String) : Except ParseError Schema :=
  match Token.tokenize text with
  | .error e => .error (.lex e)
  | .ok tokens =>
    match ofTokens tokens with
    | .error r => .error (.report r)
    | .ok s => .ok s

end Schema

end WireSchema
