
/-!
Paths as they are written, and the names of files.

A path keeps the pieces between its slashes, empty ones and dots included, because `a/` and `a/.`
ask for a directory where `a` does not.
-/

namespace WireSchema

/-- A file name before its last dot and behind it. A dot that leads the name divides nothing, and
neither does one of the two dots that name the directory above. -/
def splitName (name : String) : String × Option String :=
  if name = ".." then (name, none)
  else
    let backwards := name.toList.reverse
    match backwards.dropWhile (· != '.') with
    | [] | [_] => (name, none)
    | _ :: stem =>
      (String.ofList stem.reverse, some (String.ofList (backwards.takeWhile (· != '.')).reverse))

def stemOf (name : String) : String := (splitName name).1

def extensionOf (name : String) : Option String := (splitName name).2

example : splitName "a.b.nsd" = ("a.b", some "nsd") := by decide +kernel
example : splitName ".nsd" = (".nsd", none) := by decide +kernel
example : splitName "..nsd" = (".", some "nsd") := by decide +kernel
example : splitName "a." = ("a", some "") := by decide +kernel

structure Path where
  isAbsolute : Bool
  pieces : List String
  deriving DecidableEq, Repr

namespace Path

def piecesOf : List Char → List String
  | [] => []
  | cs => (cs.splitOn '/').map String.ofList

def ofString (s : String) : Path :=
  match s.toList with
  | '/' :: rest => ⟨true, piecesOf rest⟩
  | cs => ⟨false, piecesOf cs⟩

/-- A piece that stays where it is. -/
def isIdle (piece : String) : Bool := piece == "" || piece == "."

def trimIdle (pieces : List String) : List String :=
  (pieces.reverse.dropWhile isIdle).reverse

/-- The pieces without idle ones at the end. A relative path keeps its first piece. -/
def trimmed (p : Path) : List String :=
  match p.isAbsolute, p.pieces with
  | false, first :: rest => first :: trimIdle rest
  | _, pieces => trimIdle pieces

/-- The name that the path ends in; a dot or two dots are no name. -/
def name? (p : Path) : Option String :=
  p.trimmed.getLast?.filter fun piece => piece != "." && piece != ".."

theorem length_trimIdle_le (pieces : List String) : (trimIdle pieces).length ≤ pieces.length := by
  have h := (List.dropWhile_sublist isIdle (l := pieces.reverse)).length_le
  simpa [trimIdle] using h

theorem length_trimmed_le (p : Path) : p.trimmed.length ≤ p.pieces.length := by
  unfold trimmed
  split
  · next h => simpa [h] using length_trimIdle_le _
  · exact length_trimIdle_le _

/-- The path without its last piece that is not idle; `/` and the empty path have none. -/
def parent? (p : Path) : Option Path :=
  if p.trimmed.isEmpty then none
  else some ⟨p.isAbsolute, trimmed ⟨p.isAbsolute, p.trimmed.dropLast⟩⟩

theorem length_parent?_lt {p q : Path} (h : p.parent? = some q) :
    q.pieces.length < p.pieces.length := by
  unfold parent? at h
  split at h
  · cases h
  · next ne =>
    cases h
    have shorter := length_trimmed_le ⟨p.isAbsolute, p.trimmed.dropLast⟩
    have le := length_trimmed_le p
    have pos : 0 < p.trimmed.length := by
      cases hp : p.trimmed with
      | nil => simp [hp] at ne
      | cons => simp
    simp only [List.length_dropLast] at shorter
    show (trimmed ⟨p.isAbsolute, p.trimmed.dropLast⟩).length < p.pieces.length
    omega

/-- A trailing slash already divides the path from what follows. -/
def join (p : Path) (piece : String) : Path :=
  if p.pieces.getLast? = some "" then ⟨p.isAbsolute, p.pieces.dropLast ++ [piece]⟩
  else ⟨p.isAbsolute, p.pieces ++ [piece]⟩

/-- Puts the extension in place of that of the last name. A path without a name is kept. -/
def withExtension (p : Path) (extension : String) : Path :=
  match p.name? with
  | none => p
  | some name => ⟨p.isAbsolute, p.trimmed.dropLast ++ [stemOf name ++ "." ++ extension]⟩

example : ((ofString "out/").join "a.b").withExtension "rs" = ofString "out/a.rs" := by
  decide +kernel
example : ((ofString "sub").join ".").withExtension "rs" = ofString "sub.rs" := by decide +kernel
example : (ofString "./a.nsd").parent? = some (ofString ".") := by decide +kernel
example : (ofString "/a").parent? = some (ofString "/") := by decide +kernel
example : (ofString "a/./b/").parent? = some (ofString "a") := by decide +kernel

end Path

end WireSchema
