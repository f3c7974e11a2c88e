import WireSchema.Code.Document
import WireSchema.Command.Arguments
import WireSchema.Files.Disk
import WireSchema.Schema.Json

/-!
What a command does to the disk, what it prints and how it ends.

A run also logs the schemas that it found and the files that it wrote, as far as the environment asks
for it. These lines are left out: what is printed here is the result of the command alone.
-/

namespace WireSchema

inductive CommandError where
  | file (e : FileError)
  | compile (e : CompileError)

namespace CommandError

def message : CommandError → String
  | .file e => "I/O error: " ++ e.message
  | .compile e => e.message

end CommandError

/-- A step on the disk; what it did before it failed stays done. -/
abbrev Task (α : Type) := ExceptT CommandError (StateM Disk) α

namespace Task

def ofFile {α : Type} (r : Except FileError α) : Task α :=
  match r with
  | .ok a => pure a
  | .error e => throw (.file e)

def ofCompile {α : Type} (r : Except CompileError α) : Task α :=
  match r with
  | .ok a => pure a
  | .error e => throw (.compile e)

end Task

/-- The directory for the code of a schema: that of the output, or the schema's own. -/
def outputDirectory (schema : Path) (output : Option Path) : Path :=
  match output with
  | some directory => directory
  | none => schema.parent?.getD (Path.ofString "")

/-- The file for the code of a schema. The extension is put in place of that of the stem, so a stem
with a dot is cut there. -/
def outputPath (schema : Path) (output : Option Path) : Path :=
  ((outputDirectory schema output).join (stemOf (schema.name?.getD ""))).withExtension "rs"

def compileFile (output : Option Path) (schema : Path) : Task Unit := do
  let text ← Task.ofFile ((← get).readText schema)
  let code ← Task.ofCompile (compile (schema.name?.getD "") text)
  let (made, d) := (← get).ensureDirectories (outputDirectory schema output)
  set d
  Task.ofFile made
  set (← Task.ofFile (d.write (outputPath schema output) code.toUTF8))

/-- Compiles the schemas one after the other and stops at the first failure. -/
def compileFiles (output : Option Path) : List Path → Task Unit
  | [] => pure ()
  | schema :: rest => do
    compileFile output schema
    compileFiles output rest

namespace Command

def perform : Command → Task String
  | .compile input recursive output => do
    let schemas ← Task.ofFile ((← get).discover (Path.ofString input) recursive)
    compileFiles (output.map Path.ofString) schemas
    return ""
  | .parse input => do
    let text ← Task.ofFile ((← get).readText (Path.ofString input))
    match Schema.parse text with
    | .ok s => return s.jsonText ++ "\n"
    | .error e => throw (.compile (.parse e))

end Command

/-- How a run ends: its exit code, what it printed and reported, and the disk that it leaves. -/
structure Outcome where
  exit : UInt32
  printed : String
  reported : String
  disk : Disk

def run (arguments : List String) (d : Disk) : Outcome :=
  match Command.ofArguments arguments with
  | .error e => ⟨2, "", e.message ++ "\n", d⟩
  | .ok command =>
    match command.perform.run d with
    | (.ok printed, d) => ⟨0, printed, "", d⟩
    | (.error e, d) => ⟨1, "", e.message ++ "\n", d⟩

end WireSchema
