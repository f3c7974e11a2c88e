import WireSchema.Code.Check
import WireSchema.Code.Facet
import WireSchema.Schema.Parse

/-!
A whole document of generated code: a header, the modules of the namespace, and in them every
type, enums first.
-/

namespace WireSchema.Code

open Text

def languageVersion : Nat := 1

def facetStep (d : Definition) (facet : Facet) : Except Unsupported Step := do
  return .append (← facet.steps d)

/-- The code of one type: those of the given facets that it has, a blank line between each two. -/
def typeSteps (facets : List Facet) (s : Schema) (d : Definition) :
    Except Unsupported (List Step) := do
  checkDefinition s d
  let parts ← (facets.filter (Facet.applies · d)).mapM (facetStep d)
  return parts.intersperse .blank

def importLine : String :=
  "use brine_nsd::\x7bsize, utf16_len, ByteBuffer, ByteBufferMut, DecodeError, EncodeError, Message\x7d;"

/-- Enums first, and otherwise in the order of the text. -/
def enumsFirst (definitions : List Definition) : List Definition :=
  definitions.filter Definition.isEnum ++ definitions.filter fun d => !d.isEnum

def typesSteps (facets : List Facet) (s : Schema) :
    List Definition → Except Unsupported (List Step)
  | [] => .ok []
  | d :: rest => do
    let steps ← typeSteps facets s d
    return .blank :: .append steps :: (← typesSteps facets s rest)

def bodySteps (facets : List Facet) (s : Schema) : Except Unsupported (List Step) := do
  let types ← typesSteps facets s (enumsFirst s.definitions)
  return .line "#[allow(unused_imports)]" :: .line importLine :: types

/-- The name of the source is left out where it is blank. -/
def headerSteps (sourceName : Option String) : List Step :=
  let source :=
    match sourceName with
    | some name => if (trim name.toList).isEmpty then [] else [Step.line s!"// Source: {name}"]
    | none => []
  [ Step.line "// <auto-generated>",
    .line "// Generated by the nsd compiler. Do not modify!",
    .line s!"// Language version: {languageVersion}" ]
  ++ source ++ [Step.line "// </auto-generated>", .blank]

def isSegment (segment : List Char) : Bool :=
  segment.all (fun c => c.isAlphanum || c == '_') &&
    match segment with
    | [] => true
    | c :: _ => !c.isDigit

/-- The segments of a namespace that are not blank. -/
def segments (whole : String) : List (List Char) :=
  ((whole.toList.splitOn '.').map trim).filter fun segment => !segment.isEmpty

def moduleName (whole : String) (segment : List Char) : Except Unsupported String :=
  let name := moduleIdent (String.ofList segment)
  if isSegment segment && isIdent name then .ok name
  else .error (.badNamespace whole (String.ofList segment))

/-- The modules that a namespace stands for, outermost first. -/
def moduleNames (whole : String) : Except Unsupported (List String) :=
  (segments whole).mapM (moduleName whole)

def modulesOf (s : Schema) : Except Unsupported (List String) :=
  match s.namespace? with
  | some whole => moduleNames whole
  | none => .ok []

def documentSteps (facets : List Facet) (s : Schema) (sourceName : Option String) :
    Except Unsupported (List Step) := do
  checkTypeIdents [] s.definitions
  let body ← bodySteps facets s
  let modules ← modulesOf s
  return headerSteps sourceName
    ++ modules.map (fun name => Step.enter s!"pub mod {name}")
    ++ [Step.append body]
    ++ modules.map fun _ => Step.leave

def document (facets : List Facet) (s : Schema) (sourceName : Option String) :
    Except Unsupported String := do
  return (Listing.ofSteps (← documentSteps facets s sourceName)).render

end WireSchema.Code

namespace WireSchema

inductive CompileError where
  | parse (e : ParseError)
  | unsupported (u : Code.Unsupported)

namespace CompileError

def message : CompileError → String
  | .parse e => e.message
  | .unsupported u => u.message

end CompileError

/-- Rust code for a schema text. -/
def compile (name text : String) : Except CompileError String :=
  match Schema.parse text with
  | .error e => .error (.parse e)
  | .ok s =>
    match Code.document Code.Facet.all s (some name) with
    | .error u => .error (.unsupported u)
    | .ok code => .ok code

/-- Compiles one text after the other and stops at the first failure. -/
def compileAll (sources : List (String × String)) : Except CompileError (List String) :=
  sources.mapM fun source => compile source.1 source.2

end WireSchema
