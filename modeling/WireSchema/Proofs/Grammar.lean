import WireSchema.Proofs.Binding
import WireSchema.Proofs.Pieces
import WireSchema.Schema.Parser

/-!
The grammar of schema text as derivations: which token lists spell a define, a field, an entry, a
definition and a whole document, and what each of them means. A derivation leaves open whether a
named type is an enum or a message; that is for the binding of names to decide.
-/

namespace WireSchema.Grammar

open Text

/-- Names of types, fields and entries have no point in them. -/
def Plain (t : Token) : Prop := '.' ∉ t.text.toList

/-- A built-in type, or a name that may stand for an enum or for a message. -/
inductive TypeText : Token → FieldType → Prop
  | primitive {t : Token} {p : Primitive} (kind : t.kind = .primitive p) : TypeText t (.primitive p)
  | named {t : Token} {type : FieldType} (kind : t.kind = .identifier) (plain : Plain t)
      (isNamed : type.isNamed) : TypeText t type

/-- At most one question mark and at most one pair of brackets. -/
inductive Marks : List Token → (isOptional isArray : Bool) → Prop
  | none : Marks [] false false
  | optional {q : Token} (question : q.kind = .question) : Marks [q] true false
  | array {b : Token} (brackets : b.kind = .brackets) : Marks [b] false true
  | optionalArray {q b : Token} (question : q.kind = .question) (brackets : b.kind = .brackets) :
      Marks [q, b] true true
  | arrayOptional {b q : Token} (brackets : b.kind = .brackets) (question : q.kind = .question) :
      Marks [b, q] true true

/-- A number after an equals sign, or nothing and a number that meets `auto`. -/
inductive Assigned {α : Type} (read : List Char → Option α) (auto : α → Prop) :
    List Token → α → Prop
  | auto {a : α} (holds : auto a) : Assigned read auto [] a
  | given {e n : Token} {a : α} (equals : e.kind = .equals) (number : n.kind = .number)
      (value : read n.text.toList = some a) : Assigned read auto [e, n] a

/-- The field at an index of its message. An id that is not given is the index, as far as ids
reach. -/
inductive FieldText (index : Nat) : List Token → Field → Prop
  | mk {t name close : Token} {marks number : List Token} {type : FieldType}
      {isOptional isArray : Bool} {id : UInt16} (typed : TypeText t type)
      (marked : Marks marks isOptional isArray) (named : name.kind = .identifier)
      (plain : Plain name)
      (numbered : Assigned readUInt16? (fun id => id.toNat = min index 65535) number id)
      (closed : close.kind = .semicolon) :
      FieldText index (t :: (marks ++ name :: (number ++ [close])))
        ⟨type, t.text, name.text, id, isOptional, isArray, t.place⟩

/-- The entry at an index of its enum. A value that is not given is the index, as far as values
reach. -/
inductive EntryText (index : Nat) : List Token → Entry → Prop
  | mk {name close : Token} {number : List Token} {value : Int32}
      (named : name.kind = .identifier) (plain : Plain name)
      (numbered :
        Assigned readInt32? (fun value => value.toInt = min index 2147483647) number value)
      (closed : close.kind = .semicolon) :
      EntryText index (name :: (number ++ [close])) ⟨name.text, value, name.place⟩

/-- Items one after the other, the first of them at `index`. -/
inductive Items {α : Type} (item : Nat → List Token → α → Prop) : Nat → List Token → List α → Prop
  | nil {index : Nat} : Items item index [] []
  | cons {index : Nat} {tokens rest : List Token} {a : α} {as : List α}
      (head : item index tokens a) (tail : Items item (index + 1) rest as) :
      Items item index (tokens ++ rest) (a :: as)

/-- A definition with its keyword and its braces. -/
inductive Braced {α : Type} (keyword : Token.Kind) (item : Nat → List Token → α → Prop)
    (body : List α → Body) : List Token → Definition → Prop
  | mk {word name opening closing : Token} {inside : List Token} {items : List α}
      (starts : word.kind = keyword) (named : name.kind = .identifier) (plain : Plain name)
      (opened : opening.kind = .openBrace) (contents : Items item 0 inside items)
      (closed : closing.kind = .closeBrace) :
      Braced keyword item body (word :: name :: opening :: (inside ++ [closing]))
        ⟨name.text, name.place, body items⟩

theorem Braced.starts {α : Type} {keyword : Token.Kind} {item : Nat → List Token → α → Prop}
    {body : List α → Body} {tokens : List Token} {d : Definition}
    (text : Braced keyword item body tokens d) :
    ∃ word rest, tokens = word :: rest ∧ word.kind = keyword := by
  cases text with
  | mk starts => exact ⟨_, _, rfl, starts⟩

inductive DefinitionText : List Token → Definition → Prop
  | message {tokens : List Token} {d : Definition}
      (text : Braced .message FieldText .message tokens d) : DefinitionText tokens d
  | enum {tokens : List Token} {d : Definition}
      (text : Braced .enum EntryText .enum tokens d) : DefinitionText tokens d

/-- What a define may be set to: a name, a number, or a text without the quotes at its ends. -/
inductive DefineValue : Token → String → Prop
  | word {t : Token} (kind : t.kind = .identifier) : DefineValue t t.text
  | number {t : Token} (kind : t.kind = .number) : DefineValue t t.text
  | quoted {t : Token} {value : String} (kind : t.kind = .quoted)
      (bare : Trims (· == '"') t.text.toList value.toList) : DefineValue t value

/-- A define. The word `define` after the hash is no key where a name follows it. -/
inductive DefineText : List Token → Define → Prop
  | plain {hash key equals v close : Token} {value : String} (starts : hash.kind = .hash)
      (named : key.kind = .identifier) (set : equals.kind = .equals) (given : DefineValue v value)
      (closed : close.kind = .semicolon) :
      DefineText [hash, key, equals, v, close] ⟨key.text, value⟩
  | spelled {hash word key equals v close : Token} {value : String} (starts : hash.kind = .hash)
      (spelling : word.kind = .identifier ∧ word.text = "define") (named : key.kind = .identifier)
      (set : equals.kind = .equals) (given : DefineValue v value)
      (closed : close.kind = .semicolon) :
      DefineText [hash, word, key, equals, v, close] ⟨key.text, value⟩

theorem DefineText.starts {tokens : List Token} {d : Define} (text : DefineText tokens d) :
    ∃ hash rest, tokens = hash :: rest ∧ hash.kind = .hash := by
  cases text with
  | plain starts => exact ⟨_, _, rfl, starts⟩
  | spelled starts => exact ⟨_, _, rfl, starts⟩

/-- Defines and definitions in any order. -/
inductive DocumentText : List Token → Schema → Prop
  | nil : DocumentText [] ⟨[], []⟩
  | define {tokens rest : List Token} {d : Define} {s : Schema} (head : DefineText tokens d)
      (tail : DocumentText rest s) :
      DocumentText (tokens ++ rest) ⟨d :: s.defines, s.definitions⟩
  | definition {tokens rest : List Token} {d : Definition} {s : Schema}
      (head : DefinitionText tokens d) (tail : DocumentText rest s) :
      DocumentText (tokens ++ rest) ⟨s.defines, d :: s.definitions⟩

/-- Changes a named type to another one, if anything. -/
def Retypes (g : Field → Field) : Prop :=
  ∀ f, g f = f ∨ ∃ type, f.type.isNamed ∧ FieldType.isNamed type ∧ g f = { f with type := type }

/-- Binding changes named types only. -/
theorem retypes_resolve (s : Schema) : Retypes (Field.resolve s) := by
  intro f
  cases named : f.type.isNamed with
  | false => exact Or.inl (Field.resolve_of_builtIn named)
  | true =>
    cases found : s.definition? f.typeName with
    | none =>
      left
      rw [Field.resolve, found]
      cases f.type <;> rfl
    | some e =>
      refine Or.inr ⟨e.kind, rfl, ?_, Field.resolve_of_named named found⟩
      rw [Definition.kind]
      split <;> rfl

/-- So does taking the types back to a draft. -/
theorem retypes_draft : Retypes Field.draft := by
  intro f
  rw [Field.draft]
  split
  next named => exact Or.inr ⟨.message, named, rfl, rfl⟩
  next => exact Or.inl rfl

/-! A derivation does not see such a change. -/

section

variable {g : Field → Field} (retypes : Retypes g)

include retypes

/-- The text of a field does not tell which named type it is of. -/
theorem FieldText.retype {index : Nat} {tokens : List Token} {f : Field}
    (text : FieldText index tokens f) : FieldText index tokens (g f) := by
  rcases retypes f with same | ⟨type, named, named', changed⟩
  · rwa [same]
  · rw [changed]
    cases text with
    | mk typed marked isName plain numbered closed =>
      cases typed with
      | primitive kind => cases named
      | named kind isPlain _ => exact .mk (.named kind isPlain named') marked isName plain numbered closed

theorem Items.retype {index : Nat} {tokens : List Token} {fields : List Field}
    (items : Items FieldText index tokens fields) : Items FieldText index tokens (fields.map g) := by
  induction items with
  | nil => exact .nil
  | cons head _ ih => exact .cons (head.retype retypes) ih

theorem DefinitionText.retype {tokens : List Token} {d : Definition}
    (text : DefinitionText tokens d) : DefinitionText tokens (d.mapFields g) := by
  cases text with
  | message text =>
    obtain ⟨starts, named, plain, opened, contents, closed⟩ := text
    exact .message (.mk starts named plain opened (contents.retype retypes) closed)
  | enum text =>
    obtain ⟨starts, named, plain, opened, contents, closed⟩ := text
    exact .enum (.mk starts named plain opened contents closed)

/-- A text spells a document with any named types. -/
theorem DocumentText.retype {tokens : List Token} {s : Schema} (text : DocumentText tokens s) :
    DocumentText tokens (s.mapFields g) := by
  induction text with
  | nil => exact .nil
  | define head _ ih => exact .define head ih
  | definition head _ ih => exact .definition (head.retype retypes) ih

end

/-! The end of the text is no part of a derivation. -/

def Unfinished (tokens : List Token) : Prop := ∀ t ∈ tokens, t.kind ≠ .finish

theorem unfinished_nil : Unfinished [] := fun _ member => absurd member List.not_mem_nil

theorem unfinished_cons {t : Token} {tokens : List Token} :
    Unfinished (t :: tokens) ↔ t.kind ≠ .finish ∧ Unfinished tokens := List.forall_mem_cons

theorem unfinished_append {tokens rest : List Token} :
    Unfinished (tokens ++ rest) ↔ Unfinished tokens ∧ Unfinished rest := List.forall_mem_append

theorem Marks.unfinished {marks : List Token} {isOptional isArray : Bool}
    (text : Marks marks isOptional isArray) : Unfinished marks := by
  cases text <;> simp_all [Unfinished]

theorem Assigned.unfinished {α : Type} {read : List Char → Option α} {auto : α → Prop}
    {number : List Token} {a : α} (text : Assigned read auto number a) : Unfinished number := by
  cases text <;> simp_all [Unfinished]

theorem FieldText.unfinished {index : Nat} {tokens : List Token} {f : Field}
    (text : FieldText index tokens f) : Unfinished tokens := by
  obtain ⟨typed, marked, named, -, numbered, closed⟩ := text
  have first : ∀ {t : Token} {type : FieldType}, TypeText t type → t.kind ≠ .finish := by
    intro t type typed
    cases typed <;> simp_all
  simp [unfinished_cons, unfinished_append, unfinished_nil, first typed, marked.unfinished,
    numbered.unfinished, named, closed]

theorem EntryText.unfinished {index : Nat} {tokens : List Token} {e : Entry}
    (text : EntryText index tokens e) : Unfinished tokens := by
  obtain ⟨named, -, numbered, closed⟩ := text
  simp [unfinished_cons, unfinished_append, unfinished_nil, numbered.unfinished, named, closed]

/-- Items whose texts do not end the text do not end it together. -/
theorem Items.unfinished {α : Type} {item : Nat → List Token → α → Prop}
    (each : ∀ index tokens a, item index tokens a → Unfinished tokens) {index : Nat}
    {tokens : List Token} {items : List α} (text : Items item index tokens items) :
    Unfinished tokens := by
  induction text with
  | nil => exact unfinished_nil
  | cons head _ ih => exact unfinished_append.mpr ⟨each _ _ _ head, ih⟩

theorem DefinitionText.unfinished {tokens : List Token} {d : Definition}
    (text : DefinitionText tokens d) : Unfinished tokens := by
  cases text with
  | message text =>
    obtain ⟨starts, named, -, opened, contents, closed⟩ := text
    have inside := contents.unfinished fun _ _ _ item => item.unfinished
    simp [unfinished_cons, unfinished_append, unfinished_nil, starts, named, opened, inside, closed]
  | enum text =>
    obtain ⟨starts, named, -, opened, contents, closed⟩ := text
    have inside := contents.unfinished fun _ _ _ item => item.unfinished
    simp [unfinished_cons, unfinished_append, unfinished_nil, starts, named, opened, inside, closed]

theorem DefineText.unfinished {tokens : List Token} {d : Define} (text : DefineText tokens d) :
    Unfinished tokens := by
  have value : ∀ {v : Token} {value : String}, DefineValue v value → v.kind ≠ .finish := by
    intro v value given
    cases given <;> simp_all
  cases text with
  | plain starts named set given closed =>
    simp [unfinished_cons, unfinished_nil, starts, named, set, value given, closed]
  | spelled starts spelling named set given closed =>
    simp [unfinished_cons, unfinished_nil, starts, spelling, named, set, value given, closed]

/-- No part of a document is the end of the text. -/
theorem DocumentText.unfinished {tokens : List Token} {s : Schema} (text : DocumentText tokens s) :
    Unfinished tokens := by
  induction text with
  | nil => exact unfinished_nil
  | define head _ ih => exact unfinished_append.mpr ⟨head.unfinished, ih⟩
  | definition head _ ih => exact unfinished_append.mpr ⟨head.unfinished, ih⟩

end WireSchema.Grammar
