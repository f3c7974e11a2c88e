import WireSchema.Command.Run

/-!
The command line. It brings what a command works on from the file system to a disk, runs the command
there, and carries the files that changed back.

A file is read by its path. For a directory, the paths of the files in it are read from standard
input, one on a line.
-/

namespace WireSchema

def withFile (d : Disk) (path : String) (content : ByteArray) : Disk :=
  let p := Path.ofString path
  let d := (d.ensureDirectories (p.parent?.getD p)).2
  (d.write p content).toOption.getD d

def inputPath : Command → String
  | .compile input _ _ => input
  | .parse input => input

def emptyDisk : IO Disk := do
  let p := Path.ofString (toString (← IO.currentDir))
  let bare : Disk := ⟨.directory [], []⟩
  return { (bare.ensureDirectories p).2 with here := p.pieces }

/-- Adds the files that are listed; a path that cannot be read is left out. -/
partial def loadListed (d : Disk) (listing : IO.FS.Stream) : IO Disk := do
  let line ← listing.getLine
  if line.isEmpty then return d
  let path := String.ofList (line.toList.filter (· != '\n'))
  let d ← try
      pure (withFile d path (← IO.FS.readBinFile path))
    catch _ => pure d
  loadListed d listing

def loadInput (d : Disk) (input : String) : IO Disk := do
  try
    return withFile d input (← IO.FS.readBinFile input)
  catch
    | .noFileOrDirectory .. => return d
    | _ => loadListed (d.ensureDirectories (Path.ofString input)).2 (← IO.getStdin)

def store (before after : Disk) : IO Unit := do
  for (location, content) in after.top.changedFrom before.top do
    IO.FS.createDirAll ("/" ++ "/".intercalate location.dropLast)
    IO.FS.writeBinFile ("/" ++ "/".intercalate location) content

end WireSchema

open WireSchema in
def main (arguments : List String) : IO UInt32 := do
  let start ← emptyDisk
  let before ← match Command.ofArguments arguments with
    | .ok command => loadInput start (inputPath command)
    | .error _ => pure start
  let outcome := run arguments before
  store before outcome.disk
  IO.print outcome.printed
  IO.eprint outcome.reported
  return outcome.exit
