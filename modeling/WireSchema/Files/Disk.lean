import WireSchema.Files.Node

/-!
A tree of files with a working directory in it, the operations that read and change it by path,
and the search for schema files in it.
-/

namespace WireSchema

structure Disk where
  top : Node
  here : Location

namespace Disk

/-- An absolute path starts at the top of the tree, any other in the working directory. -/
def start (d : Disk) (p : Path) : Location := if p.isAbsolute then [] else d.here

/-- The location that a path leads to; the empty path leads nowhere. -/
def locate (d : Disk) (p : Path) : Except FileError Location :=
  if p.pieces.isEmpty && !p.isAbsolute then .error .missing else d.top.follow (d.start p) p.pieces

def get (d : Disk) (p : Path) : Except FileError Node := do
  let location ← d.locate p
  match d.top.find? location with
  | some n => .ok n
  | none => .error .missing

def isFileAt (d : Disk) (p : Path) : Bool :=
  match d.get p with
  | .ok n => n.isFile
  | .error _ => false

def isDirectoryAt (d : Disk) (p : Path) : Bool :=
  match d.get p with
  | .ok n => !n.isFile
  | .error _ => false

def readText (d : Disk) (p : Path) : Except FileError String := do
  match ← d.get p with
  | .directory _ => .error .isDirectory
  | .file content =>
    match String.fromUTF8? content with
    | some text => .ok text
    | none => .error .notText

def list (d : Disk) (p : Path) : Except FileError (List (String × Node)) := do
  match ← d.get p with
  | .directory entries => .ok entries
  | .file _ => .error .notDirectory

/-- Where the last of the pieces stands or would stand: the directory around it, which has to be
there, and the piece itself. -/
def holder (d : Disk) (p : Path) (pieces : List String) : Except FileError (Location × String) :=
  match pieces.getLast? with
  | none => .ok (d.start p, ".")
  | some last => do
    let around ← d.top.follow (d.start p) pieces.dropLast
    match d.top.find? around with
    | some (.directory _) => .ok (around, last)
    | _ => .error .notDirectory

/-- A piece that leads to a directory, whatever stands there. -/
def isStep (piece : String) : Bool := Path.isIdle piece || piece == ".."

def put (d : Disk) (location : Location) (new : Node) : Disk :=
  { d with top := d.top.put location new }

def write (d : Disk) (p : Path) (content : ByteArray) : Except FileError Disk := do
  let (around, name) ← d.holder p p.pieces
  if isStep name then .error .isDirectory
  else
    match d.top.find? (around ++ [name]) with
    | some (.directory _) => .error .isDirectory
    | _ => .ok (d.put (around ++ [name]) (.file content))

/-- Slashes at the end do not count for a new directory. -/
def dropSlashes (pieces : List String) : List String :=
  (pieces.reverse.dropWhile (· == "")).reverse

def makeDirectory (d : Disk) (p : Path) : Except FileError Disk := do
  let (around, name) ← d.holder p (dropSlashes p.pieces)
  if isStep name || (d.top.find? (around ++ [name])).isSome then .error .alreadyThere
  else .ok (d.put (around ++ [name]) (.directory []))

def ensureDirectory (d : Disk) (p : Path) : Except FileError Disk :=
  match d.makeDirectory p with
  | .ok d => .ok d
  | .error e => if d.isDirectoryAt p then .ok d else .error e

/-- Makes sure of a directory, and first of those above it if any is missing. The directories that
were made stay also when one further down is refused. -/
def ensureDirectories (d : Disk) (p : Path) : Except FileError Unit × Disk :=
  if p.pieces.isEmpty then (.ok (), d)
  else
    match d.ensureDirectory p with
    | .ok d => (.ok (), d)
    | .error .missing =>
      match h : p.parent? with
      | none => (.error .missing, d)
      | some above =>
        have := Path.length_parent?_lt h
        match d.ensureDirectories above with
        | (.error e, d) => (.error e, d)
        | (.ok (), d) =>
          match d.ensureDirectory p with
          | .ok d => (.ok (), d)
          | .error e => (.error e, d)
    | .error e => (.error e, d)
termination_by p.pieces.length

end Disk

/-! Finding schema files. Paths are in the order of their pieces, so that `a/z` stands before `a.b`. -/

/-- The extension of schema files is `nsd`, in capitals or not. -/
def isSchemaName (name : String) : Bool :=
  match extensionOf name with
  | some extension => extension.toLower == "nsd"
  | none => false

/-- The order of the pieces, from the first on; a location stands before those inside it. -/
def Location.le : Location → Location → Bool
  | [], _ => true
  | _ :: _, [] => false
  | x :: xs, y :: ys => x < y || (x == y && Location.le xs ys)

namespace Node

/-- Schema files among the entries and, where the search is deep, in the directories among them. -/
def schemasIn (deep : Bool) : List (String × Node) → List Location
  | [] => []
  | (name, .file _) :: rest =>
    if isSchemaName name then [name] :: schemasIn deep rest else schemasIn deep rest
  | (name, .directory entries) :: rest =>
    if deep then (schemasIn deep entries).map (name :: ·) ++ schemasIn deep rest
    else schemasIn deep rest
decreasing_by
  all_goals
    simp only [List.cons.sizeOf_spec, Prod.mk.sizeOf_spec, Node.directory.sizeOf_spec]
    omega

end Node

/-- The schemas that an input stands for: a file is taken as it is, and a directory is searched. What
is found is sorted once, at the end. To sort what each directory holds on the way as well would give
the same: the order is total, and no location is found twice, so there is one sorted list of them. -/
def Disk.discover (d : Disk) (input : Path) (deep : Bool) : Except FileError (List Path) := do
  if d.isFileAt input then return [input]
  let found := Node.schemasIn deep (← d.list input)
  return (found.mergeSort Location.le).map (·.foldl Path.join input)

end WireSchema
