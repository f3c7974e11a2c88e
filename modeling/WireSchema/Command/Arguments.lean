/-!
The commands and how they are spelled as arguments.

An option is given by its letter or its word. The value stands behind it, in the next argument or in
the same one; letters can share one dash.

Help is left out: a request for it, for a version or for the help of a command is an unexpected
argument here. A usage error is one line, without the summary of the commands and without a guess at
what was meant.
-/

namespace WireSchema

inductive Command where
  | compile (input : String) (recursive : Bool) (output : Option String)
  | parse (input : String)
  deriving DecidableEq, Repr

inductive UsageError where
  | noCommand
  | unknownCommand (name : String)
  | unexpected (argument : String)
  | missingValue (word : String)
  | repeated (word : String)
  | missingInput
  deriving DecidableEq, Repr

namespace UsageError

def message : UsageError → String
  | .noCommand => "error: a command is required: compile or parse"
  | .unknownCommand name => s!"error: unrecognized subcommand '{name}'"
  | .unexpected argument => s!"error: unexpected argument '{argument}' found"
  | .missingValue word => s!"error: a value is required for '--{word}' but none was supplied"
  | .repeated word => s!"error: the argument '--{word}' cannot be used multiple times"
  | .missingInput => "error: the argument '--input' was not provided"

end UsageError

inductive Switch where
  | input
  | output
  | recursive
  deriving DecidableEq, Repr

namespace Switch

def word : Switch → String
  | .input => "input"
  | .output => "output"
  | .recursive => "recursive"

def letter : Switch → Char
  | .input => 'i'
  | .output => 'o'
  | .recursive => 'r'

def takesValue : Switch → Bool
  | .recursive => false
  | _ => true

end Switch

/-- A switch as it was given; one without a value has the empty text. -/
abbrev Setting := Switch × String

namespace Arguments

/-- The switches of one argument, and the switch that still waits for its value. -/
abbrev Cluster := List Setting × Option Switch

/-- The letters behind one dash. Letters behind a switch with a value are that value; an equals sign
may stand between them. -/
def letters (allowed : List Switch) (argument : String) : List Char → Except UsageError Cluster
  | [] => .ok ([], none)
  | c :: rest =>
    match allowed.find? fun s => s.letter == c with
    | none => .error (.unexpected argument)
    | some s =>
      if s.takesValue then
        match rest with
        | [] => .ok ([], some s)
        | ['='] => .error (.missingValue s.word)
        | '=' :: value => .ok ([(s, String.ofList value)], none)
        | value => .ok ([(s, String.ofList value)], none)
      else do
        let (settings, waiting) ← letters allowed argument rest
        return ((s, "") :: settings, waiting)

/-- The word behind two dashes, with or without a value behind an equals sign. -/
def longForm (allowed : List Switch) (argument : String) (cs : List Char) :
    Except UsageError Cluster :=
  let name := String.ofList (cs.takeWhile (· != '='))
  match allowed.find? fun s => s.word == name with
  | none => .error (.unexpected argument)
  | some s =>
    match s.takesValue, cs.dropWhile (· != '=') with
    | true, [] => .ok ([], some s)
    | true, [_] => .error (.missingValue s.word)
    | true, _ :: value => .ok ([(s, String.ofList value)], none)
    | false, [] => .ok ([(s, "")], none)
    | false, _ => .error (.unexpected argument)

def cluster (allowed : List Switch) (argument : String) : Except UsageError Cluster :=
  match argument.toList with
  | '-' :: '-' :: cs => longForm allowed argument cs
  | '-' :: c :: cs => letters allowed argument (c :: cs)
  | _ => .error (.unexpected argument)

/-- A value is not empty and does not look like a switch; a single dash does not. -/
def isValue (argument : String) : Bool :=
  match argument.toList with
  | [] => false
  | ['-'] => true
  | c :: _ => c != '-'

/-- The settings in their order. Two dashes alone end them, and nothing may follow. -/
def settings (allowed : List Switch) : List String → Except UsageError (List Setting)
  | [] => .ok []
  | ["--"] => .ok []
  | "--" :: argument :: _ => .error (.unexpected argument)
  | argument :: rest => do
    match ← cluster allowed argument, rest with
    | (given, none), rest => return given ++ (← settings allowed rest)
    | (_, some s), [] => .error (.missingValue s.word)
    | (given, some s), value :: rest =>
      if isValue value then return given ++ (s, value) :: (← settings allowed rest)
      else .error (.missingValue s.word)

def checkOnce : List Setting → Except UsageError Unit
  | [] => .ok ()
  | (s, _) :: rest =>
    if rest.any fun other => other.1 == s then .error (.repeated s.word) else checkOnce rest

def given (allowed : List Switch) (arguments : List String) :
    Except UsageError (List Setting) := do
  let found ← settings allowed arguments
  checkOnce found
  return found

def inputOf (found : List Setting) : Except UsageError String :=
  match found.lookup .input with
  | some input => .ok input
  | none => .error .missingInput

end Arguments

open Arguments in
def Command.ofArguments : List String → Except UsageError Command
  | [] => .error .noCommand
  | "compile" :: arguments => do
    let found ← given [.input, .recursive, .output] arguments
    return .compile (← inputOf found) (found.lookup .recursive).isSome (found.lookup .output)
  | "parse" :: arguments => do
    let found ← given [.input] arguments
    return .parse (← inputOf found)
  | name :: _ => .error (.unknownCommand name)

end WireSchema
