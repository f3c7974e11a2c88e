import Std.Data.HashMap
import WireSchema.Schema.Basic
import WireSchema.Schema.Issue

/-!
The rules that a schema has to meet beyond its grammar. Every violation is one issue, at the
definition, field or entry that breaks the rule.
-/

namespace WireSchema

/-! Repeated keys in a list: for each item, the first item before it that has the same key. -/

section

variable {α κ : Type} [BEq κ] [Hashable κ]

def earlierFrom (key : α → κ) (seen : Std.HashMap κ α) :
    List α → Array (Option α) → Array (Option α)
  -- `seen` holds the first item of every key so far, `acc` the answers
  | [], acc => acc
  | x :: rest, acc =>
    match seen[key x]? with
    | some first => earlierFrom key seen rest (acc.push (some first))
    | none => earlierFrom key (seen.insert (key x) x) rest (acc.push none)

/-- For each item the first earlier one with the same key. -/
def earlier (key : α → κ) (items : List α) : List (Option α) :=
  (earlierFrom key ∅ items #[]).toList

def withEarlier (key : α → κ) (items : List α) : List (α × Option α) :=
  items.zip (earlier key items)

end

/-! Containment by value. A message holds another inside it through every field that is a message and
no array; optional fields count. A message that reaches itself this way has no finite value. -/

/-- Holds its value inside the message, whether the value has to be there or not. -/
def Field.isInline (f : Field) : Bool := !f.isArray && f.type = .message

def Definition.inlineTypes (d : Definition) : List String :=
  (d.fields.filter Field.isInline).map Field.typeName

def othersThan (name : String) (definitions : List Definition) : List Definition :=
  definitions.filter fun d => d.name != name

theorem length_othersThan_lt {name : String} {definitions : List Definition} {d : Definition}
    (found : definitions.find? (fun d => d.name == name) = some d) :
    (othersThan name definitions).length < definitions.length := by
  unfold othersThan
  rw [List.length_filter_lt_length_iff_exists]
  exact ⟨d, List.mem_of_find?_eq_some found, by simpa using List.find?_some found⟩

/-- Whether `target` is among the names in `pending` or held inside one of them, at any depth.
`unvisited` holds the definitions whose fields have not been looked at. -/
def reachesInline (target : String) (unvisited : List Definition) (pending : List String) : Bool :=
  match pending with
  | [] => false
  | name :: rest =>
    if name == target then true
    else
      match _found : unvisited.find? fun d => d.name == name with
      | none => reachesInline target unvisited rest
      | some d =>
        reachesInline target (othersThan name unvisited) (d.inlineTypes ++ rest)
termination_by (unvisited.length, pending.length)
decreasing_by
  · exact Prod.Lex.right _ (by simp)
  · exact Prod.Lex.left _ _ (length_othersThan_lt _found)

/-- Whether a definition holds a message of its own name inside it. -/
def Schema.holdsItself (s : Schema) (d : Definition) : Bool :=
  reachesInline d.name s.definitions d.inlineTypes

/-! The rules, one function for each. -/

def reservedFieldId : UInt16 := 65535

namespace Field

def reservedIssues (f : Field) : List Issue :=
  if f.id = reservedFieldId then [(Cause.reservedFieldId f.id f.name).issueAt f.place] else []

def idIssues (message : String) (f : Field) : Option Field → List Issue
  | some first => [(Cause.duplicateFieldId f.id f.name first.name message).issueAt f.place]
  | none => []

def nameIssues (message : String) (f : Field) : Option Field → List Issue
  | some _ => [(Cause.duplicateFieldName f.name message).issueAt f.place]
  | none => []

end Field

namespace Entry

def nameIssues (enum : String) (e : Entry) : Option Entry → List Issue
  | some _ => [(Cause.duplicateEnumName e.name enum).issueAt e.place]
  | none => []

def valueIssues (e : Entry) : Option Entry → List Issue
  | some first => [(Cause.duplicateEnumValue e.value e.name first.name).issueAt e.place]
  | none => []

end Entry

namespace Definition

def fieldIssues (message : String) (fields : List Field) : List Issue :=
  (fields.zip ((earlier Field.id fields).zip (earlier Field.name fields))).flatMap
    fun (f, sameId, sameName) =>
      f.reservedIssues ++ f.idIssues message sameId ++ f.nameIssues message sameName

def entryIssues (enum : String) (entries : List Entry) : List Issue :=
  (entries.zip ((earlier Entry.name entries).zip (earlier Entry.value entries))).flatMap
    fun (e, sameName, sameValue) => e.nameIssues enum sameName ++ e.valueIssues sameValue

def bodyIssues (d : Definition) : List Issue :=
  match d.body with
  | .message fields => fieldIssues d.name fields
  | .enum [] => [(Cause.emptyEnum d.name).issueAt d.place]
  | .enum entries => entryIssues d.name entries

end Definition

namespace Schema

def typeNameIssues (s : Schema) : List Issue :=
  (withEarlier Definition.name s.definitions).flatMap fun (d, first) =>
    if first.isSome then [(Cause.duplicateTypeName d.name).issueAt d.place] else []

def recursionIssues (s : Schema) : List Issue :=
  (s.definitions.filter s.holdsItself).map fun d =>
    (Cause.recursiveMessage d.name).issueAt d.place

/-- Every violated rule: repeated type names, then the bodies in order, then recursion. -/
def issues (s : Schema) : List Issue :=
  s.typeNameIssues ++ s.definitions.flatMap Definition.bodyIssues ++ s.recursionIssues

end Schema

end WireSchema
