import WireSchema.Text.CharClass

/-!
Source text under construction. A line remembers its depth, so a finished listing can be put into
another one at any depth. What to write is given as steps, and a listing is what running them
leaves.
-/

namespace WireSchema.Code

open Text

structure Line where
  depth : Nat
  text : String
  deriving DecidableEq

structure Listing where
  lines : Array Line
  /-- The depth of the next line. -/
  depth : Nat
  deriving DecidableEq

inductive Step where
  /-- A line at the current depth; a newline inside starts another. -/
  | line (text : String)
  | blank
  | indent
  | dedent
  /-- A line that opens a block. -/
  | enter (header : String)
  | leave
  /-- Ends a block with a line other than a brace. -/
  | leaveWith (text : String)
  /-- Ends a block and opens the next on the same line. -/
  | reenter (header : String)
  | block (header : String) (body : List Step)
  /-- Runs the steps on an empty listing and takes over its lines. -/
  | append (body : List Step)

namespace Listing

def empty : Listing := ⟨#[], 0⟩

def isEmpty (l : Listing) : Bool := l.lines.isEmpty

/-- A line's text never ends in blanks. -/
def addLine (l : Listing) (text : String) : Listing :=
  ⟨(text.toList.splitOn '\n').foldl
    (fun lines part => lines.push ⟨l.depth, String.ofList (trimEnd part)⟩) l.lines, l.depth⟩

def addBlank (l : Listing) : Listing := ⟨l.lines.push ⟨0, ""⟩, l.depth⟩

def indent (l : Listing) : Listing := ⟨l.lines, l.depth + 1⟩

/-- The depth never falls below zero. -/
def dedent (l : Listing) : Listing := ⟨l.lines, l.depth - 1⟩

def enter (l : Listing) (header : String) : Listing :=
  (l.addLine (if header.isEmpty then "\x7b" else header ++ " \x7b")).indent

def leaveWith (l : Listing) (text : String) : Listing := l.dedent.addLine text

def leave (l : Listing) : Listing := l.leaveWith "\x7d"

def reenter (l : Listing) (header : String) : Listing :=
  (l.dedent.addLine ("\x7d " ++ header ++ " \x7b")).indent

/-- A line of another listing, at this depth. An empty line has no depth. -/
def addShifted (l : Listing) (line : Line) : Listing :=
  if line.text.isEmpty then l.addBlank
  else ⟨l.lines.push ⟨l.depth + line.depth, line.text⟩, l.depth⟩

def append (l other : Listing) : Listing := other.lines.foldl addShifted l

end Listing

mutual

def Step.run : Step → Listing → Listing
  | .line text, l => l.addLine text
  | .blank, l => l.addBlank
  | .indent, l => l.indent
  | .dedent, l => l.dedent
  | .enter header, l => l.enter header
  | .leave, l => l.leave
  | .leaveWith text, l => l.leaveWith text
  | .reenter header, l => l.reenter header
  | .block header body, l => (Step.runAll body (l.enter header)).leave
  | .append body, l => l.append (Step.runAll body Listing.empty)

def Step.runAll : List Step → Listing → Listing
  | [], l => l
  | s :: rest, l => Step.runAll rest (s.run l)

end

@[simp] theorem Step.runAll_nil (l : Listing) : Step.runAll [] l = l := by
  rw [Step.runAll]

@[simp] theorem Step.runAll_cons (s : Step) (rest : List Step) (l : Listing) :
    Step.runAll (s :: rest) l = Step.runAll rest (s.run l) := by
  rw [Step.runAll]

namespace Listing

def ofSteps (steps : List Step) : Listing := Step.runAll steps empty

def indentation (depth : Nat) : String := String.ofList (List.replicate (4 * depth) ' ')

/-- An empty line carries no indentation. -/
def renderLine (line : Line) : String :=
  if line.text.isEmpty then "\n" else indentation line.depth ++ line.text ++ "\n"

def render (l : Listing) : String := l.lines.foldl (fun text line => text ++ renderLine line) ""

end Listing

end WireSchema.Code
