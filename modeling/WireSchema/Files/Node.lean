import WireSchema.Files.Path

/-!
Trees of files. Directories keep their entries in the order in which they came to be.
-/

namespace WireSchema

/-! Why a file operation is refused. -/

inductive FileError where
  | missing
  | alreadyThere
  | notDirectory
  | isDirectory
  | notText
  deriving DecidableEq, Repr

namespace FileError

/-- The wording of the operating system, and for text that of the decoder. -/
def message : FileError → String
  | .missing => "No such file or directory (os error 2)"
  | .alreadyThere => "File exists (os error 17)"
  | .notDirectory => "Not a directory (os error 20)"
  | .isDirectory => "Is a directory (os error 21)"
  | .notText => "stream did not contain valid UTF-8"

end FileError

/-! The trees, and what stands at a location of one. -/

inductive Node where
  | file (content : ByteArray)
  | directory (entries : List (String × Node))

/-- The names on the way down from the top. -/
abbrev Location := List String

namespace Node

def isFile : Node → Bool
  | .file _ => true
  | .directory _ => false

def find? : Node → Location → Option Node
  | n, [] => some n
  | .file _, _ :: _ => none
  | .directory entries, name :: rest =>
    match entries.lookup name with
    | some n => n.find? rest
    | none => none

@[simp] theorem find?_nil (n : Node) : n.find? [] = some n := by cases n <;> rfl

theorem find?_cons (entries : List (String × Node)) (name : String) (rest : Location) :
    (directory entries).find? (name :: rest) = (entries.lookup name).bind (find? · rest) := by
  rw [find?]
  cases entries.lookup name <;> rfl

def setEntry (name : String) (new : Node) : List (String × Node) → List (String × Node)
  | [] => [(name, new)]
  | entry :: rest =>
    if entry.1 = name then (name, new) :: rest else entry :: setEntry name new rest

theorem lookup_setEntry_self (name : String) (new : Node) (entries : List (String × Node)) :
    (setEntry name new entries).lookup name = some new := by
  induction entries with
  | nil => simp [setEntry]
  | cons entry rest ih =>
    obtain ⟨key, old⟩ := entry
    by_cases h : key = name
    · simp [setEntry, h]
    · have other : (name == key) = false := by simpa using Ne.symm h
      simp [setEntry, h, List.lookup_cons, other, ih]

theorem lookup_setEntry_of_ne {name other : String} (h : other ≠ name) (new : Node)
    (entries : List (String × Node)) :
    (setEntry name new entries).lookup other = entries.lookup other := by
  have differ : (other == name) = false := by simpa using h
  induction entries with
  | nil => simp [setEntry, List.lookup_cons, differ]
  | cons entry rest ih =>
    obtain ⟨key, old⟩ := entry
    by_cases first : key = name
    · simp [setEntry, List.lookup_cons, differ, first]
    · simp [setEntry, List.lookup_cons, first, ih]

/-- The tree with another node at a location. Nothing can stand below a file. -/
def put : Node → Location → Node → Node
  | _, [], new => new
  | .file content, _ :: _, _ => .file content
  | .directory entries, name :: rest, new =>
    let old := (entries.lookup name).getD (.directory [])
    .directory (setEntry name (old.put rest new) entries)

def follow (top : Node) : Location → List String → Except FileError Location
  | here, [] => .ok here
  | here, piece :: rest =>
    match top.find? here with
    | some (.directory entries) =>
      if Path.isIdle piece then top.follow here rest
      else if piece = ".." then top.follow here.dropLast rest
      else if (entries.lookup piece).isSome then top.follow (here ++ [piece]) rest
      else .error .missing
    | _ => .error .notDirectory

def filesIn : List (String × Node) → List (Location × ByteArray)
  | [] => []
  | (name, .file content) :: rest => ([name], content) :: filesIn rest
  | (name, .directory entries) :: rest =>
    (filesIn entries).map (fun f => (name :: f.1, f.2)) ++ filesIn rest

def files : Node → List (Location × ByteArray)
  | .file content => [([], content)]
  | .directory entries => filesIn entries

def changedFrom (after before : Node) : List (Location × ByteArray) :=
  after.files.filter fun f =>
    match before.find? f.1 with
    | some (.file content) => content != f.2
    | _ => true

end Node

end WireSchema
