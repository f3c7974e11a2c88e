import WireSchema.Schema.Basic
import WireSchema.Text.Encoding

/-!
What can be wrong with a schema. A cause holds the facts, an issue its wording at a place in the
text, and a report all issues of one text.
-/

namespace WireSchema

open Text

inductive IssueKind where
  | unexpectedToken | missingTerminator | malformedNumber | invalidName | duplicateTypeName
  | duplicateFieldId | duplicateFieldName | reservedFieldId | unresolvedType | duplicateEnumName
  | duplicateEnumValue | emptyEnum | recursiveMessage
  deriving DecidableEq

namespace IssueKind

def all : List IssueKind :=
  [.unexpectedToken, .missingTerminator, .malformedNumber, .invalidName, .duplicateTypeName,
    .duplicateFieldId, .duplicateFieldName, .reservedFieldId, .unresolvedType, .duplicateEnumName,
    .duplicateEnumValue, .emptyEnum, .recursiveMessage]

end IssueKind

structure Issue where
  kind : IssueKind
  message : String
  place : Place
  deriving DecidableEq

namespace Issue

def describe (i : Issue) : String :=
  s!"line {i.place.line}, column {i.place.column}: {i.message}"

end Issue

/-- The token that stood where another was expected; `none` at the end of the text. -/
abbrev Found := Option String

namespace Found

def describe : Found → String
  | some text => quote text
  | none => "end of input"

end Found

inductive Cause where
  /-- `what` was expected. -/
  | expected (what : String) (found : Found)
  /-- No definition starts with this token. -/
  | unexpected (found : Found)
  | repeatedModifier (found : Found)
  | unclosed (definition : String) (found : Found)
  | missingTerminator (after : String) (found : Found)
  | malformedId (number field : String)
  | malformedValue (number entry : String)
  | dottedName (what name : String)
  | duplicateTypeName (type : String)
  | duplicateFieldId (id : UInt16) (field first message : String)
  | duplicateFieldName (field message : String)
  | reservedFieldId (id : UInt16) (field : String)
  | unresolvedType (type field : String)
  | duplicateEnumName (entry enum : String)
  | duplicateEnumValue (value : Int32) (entry first : String)
  | emptyEnum (enum : String)
  | recursiveMessage (message : String)

namespace Cause

def kind : Cause → IssueKind
  | .expected .. | .unexpected .. | .repeatedModifier .. | .unclosed .. => .unexpectedToken
  | .missingTerminator .. => .missingTerminator
  | .malformedId .. | .malformedValue .. => .malformedNumber
  | .dottedName .. => .invalidName
  | .duplicateTypeName .. => .duplicateTypeName
  | .duplicateFieldId .. => .duplicateFieldId
  | .duplicateFieldName .. => .duplicateFieldName
  | .reservedFieldId .. => .reservedFieldId
  | .unresolvedType .. => .unresolvedType
  | .duplicateEnumName .. => .duplicateEnumName
  | .duplicateEnumValue .. => .duplicateEnumValue
  | .emptyEnum .. => .emptyEnum
  | .recursiveMessage .. => .recursiveMessage

def message : Cause → String
  | .expected what found => s!"Expected {what} but found {found.describe}"
  | .unexpected found => s!"Unexpected token {found.describe}"
  | .repeatedModifier found => s!"Repeated modifier {found.describe}"
  | .unclosed definition found =>
    s!"Expected \"\x7d\" to close {quote definition} but found {found.describe}"
  | .missingTerminator after found => s!"Expected \";\" after {after} but found {found.describe}"
  | .malformedId number field =>
    s!"The id {quote number} of field {quote field} is not an integer between 0 and 65535"
  | .malformedValue number entry =>
    s!"The value {quote number} of enum entry {quote entry} is not a 32-bit integer"
  | .dottedName what name => s!"The {what} {quote name} cannot contain \".\""
  | .duplicateTypeName type => s!"The type {quote type} is defined twice"
  | .duplicateFieldId id field first message =>
    s!"The id {id.toNat} of field {quote field} is already used by field {quote first} in {quote message}"
  | .duplicateFieldName field message =>
    s!"The field {quote field} is defined twice in {quote message}"
  | .reservedFieldId id field => s!"The id {id.toNat} of field {quote field} is reserved"
  | .unresolvedType type field => s!"The type {quote type} of field {quote field} is not defined"
  | .duplicateEnumName entry enum => s!"The entry {quote entry} is defined twice in {quote enum}"
  | .duplicateEnumValue value entry first =>
    s!"The value {value.toInt} of entry {quote entry} is already used by entry {quote first}"
  | .emptyEnum enum => s!"The enum {quote enum} has no entries"
  | .recursiveMessage message =>
    s!"Recursive nesting of {quote message} is not allowed outside of an array"

def issueAt (c : Cause) (place : Place) : Issue := ⟨c.kind, c.message, place⟩

end Cause

structure Report where
  issues : List Issue
  deriving DecidableEq

namespace Report

def has (r : Report) (kind : IssueKind) : Bool := r.issues.any fun i => i.kind = kind

def message (r : Report) : String :=
  r.issues.foldl (fun text i => text ++ "\n  " ++ i.describe)
    s!"Schema has {r.issues.length} error(s)"

/-- The issues in reading order; those of one place stay in the order in which they were found. -/
def ofIssues (issues : List Issue) : Report :=
  ⟨issues.mergeSort fun i j => i.place.le j.place⟩

end Report

end WireSchema
