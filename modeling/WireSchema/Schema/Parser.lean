import WireSchema.Schema.Issue
import WireSchema.Text.Encoding

/-!
Reading a schema from tokens. Parsing never gives up: a construct that cannot be read is noted and
skipped up to the next semicolon, closing brace or definition, so one pass finds every issue.
-/

namespace WireSchema

open Text

structure Reply (α : Type) where
  /-- The value, or the issue that ended the construct early. -/
  result : Except Issue α
  /-- The tokens it left. -/
  rest : List Token
  /-- Issues it noted and went on from. -/
  noted : List Issue

/-- A parser knows the place after the last token, for issues at the end of the input, and leaves
a suffix of its tokens. -/
structure Parser (α : Type) where
  run : Place → List Token → Reply α
  suffix : ∀ finish tokens, (run finish tokens).rest <:+ tokens

namespace Parser

def pure {α : Type} (a : α) : Parser α where
  run _ tokens := ⟨.ok a, tokens, []⟩
  suffix _ tokens := List.suffix_refl tokens

def bind {α β : Type} (p : Parser α) (f : α → Parser β) : Parser β where
  run finish tokens :=
    let r := p.run finish tokens
    match r.result with
    | .ok a =>
      let r' := (f a).run finish r.rest
      ⟨r'.result, r'.rest, r.noted ++ r'.noted⟩
    | .error issue => ⟨.error issue, r.rest, r.noted⟩
  suffix finish tokens := by
    have h := p.suffix finish tokens
    dsimp only
    split
    · exact ((Parser.suffix _ finish _).trans h)
    · exact h

instance : Monad Parser where
  pure := Parser.pure
  bind := Parser.bind

def placeOf (finish : Place) : List Token → Place
  | [] => finish
  | t :: _ => t.place

def foundIn : List Token → Found
  | [] => none
  | t :: _ => if t.kind = .finish then none else some t.text

def fail {α : Type} (cause : Found → Cause) : Parser α where
  run finish tokens := ⟨.error ((cause (foundIn tokens)).issueAt (placeOf finish tokens)), tokens, []⟩
  suffix _ tokens := List.suffix_refl tokens

def note (cause : Found → Cause) : Parser Unit where
  run finish tokens := ⟨.ok (), tokens, [(cause (foundIn tokens)).issueAt (placeOf finish tokens)]⟩
  suffix _ tokens := List.suffix_refl tokens

/-- Notes an issue at a place that has been passed. -/
def noteAt (place : Place) (cause : Cause) : Parser Unit where
  run _ tokens := ⟨.ok (), tokens, [cause.issueAt place]⟩
  suffix _ tokens := List.suffix_refl tokens

def accept? (test : Token → Bool) : Parser (Option Token) where
  run _ tokens :=
    match tokens with
    | t :: rest => if test t then ⟨.ok (some t), rest, []⟩ else ⟨.ok none, t :: rest, []⟩
    | [] => ⟨.ok none, [], []⟩
  suffix _ tokens := by
    split
    · split
      · exact List.suffix_cons _ _
      · exact List.suffix_refl _
    · exact List.suffix_refl _

def ofKind? (kind : Token.Kind) : Parser (Option Token) := accept? fun t => t.kind = kind

def expect (kind : Token.Kind) (what : String) : Parser Token := do
  match ← ofKind? kind with
  | some t => return t
  | none => fail (.expected what)

/-- A missing semicolon is noted and nothing is skipped for it. -/
def terminator (after : String) : Parser Unit := do
  match ← ofKind? .semicolon with
  | some _ => return ()
  | none => note (.missingTerminator after)

def plainName (t : Token) (what : String) : Parser Unit :=
  if t.text.toList.contains '.' then noteAt t.place (.dottedName what t.text) else pure ()

/-- The word `define` after the hash is no key where another name follows it. -/
def spelledDefine : List Token → Bool
  | t :: next :: _ =>
    t.kind = .identifier && t.text == "define" && next.kind = .identifier
  | _ => false

def skipSpelledDefine : Parser Unit where
  run _ tokens := ⟨.ok (), if spelledDefine tokens then tokens.tail else tokens, []⟩
  suffix _ tokens := by
    dsimp only
    split
    · exact List.tail_suffix tokens
    · exact List.suffix_refl tokens

def unquote (text : String) : String :=
  let front := text.toList.dropWhile (· == '"')
  String.ofList (front.reverse.dropWhile (· == '"')).reverse

def defineValue? (t : Token) : Option String :=
  match t.kind with
  | .identifier | .number => some t.text
  | .quoted => some (unquote t.text)
  | _ => none

def define : Parser Define := do
  skipSpelledDefine
  let key ← expect .identifier "a define key"
  let _ ← expect .equals "\"=\""
  match ← accept? fun t => (defineValue? t).isSome with
  | none => fail (.expected "a define value")
  | some t =>
    terminator s!"define {quote key.text}"
    return ⟨key.text, (defineValue? t).getD ""⟩

def isModifier (t : Token) : Bool := t.kind = .question || t.kind = .brackets

/-- The issues of modifiers that repeat an earlier one; `seen` holds the kinds before. -/
def repeatedModifiers : List Token.Kind → List Token → List Issue
  | _, [] => []
  | seen, t :: rest =>
    let later := repeatedModifiers (t.kind :: seen) rest
    if seen.contains t.kind then (Cause.repeatedModifier (some t.text)).issueAt t.place :: later
    else later

/-- Question marks and brackets in any order; the result holds the kinds that occur. -/
def modifiers : Parser (List Token.Kind) where
  run _ tokens :=
    let marks := tokens.takeWhile isModifier
    ⟨.ok (marks.map Token.kind), tokens.dropWhile isModifier, repeatedModifiers [] marks⟩
  suffix _ _ := List.dropWhile_suffix isModifier

/-- The id of a field without one: its index, as far as ids reach. -/
def autoId (index : Nat) : UInt16 := (min index 65535).toUInt16

/-- The value of an entry without one: its index, as far as values reach. -/
def autoValue (index : Nat) : Int32 := Int32.ofNat (min index 2147483647)

def fieldId (index : Nat) (name : Token) : Parser UInt16 := do
  match ← ofKind? .equals with
  | none => return autoId index
  | some _ =>
    let number ← expect .number "a field id"
    match readUInt16? number.text.toList with
    | some id => return id
    | none =>
      noteAt number.place (.malformedId number.text name.text)
      return autoId index

def entryValue (index : Nat) (name : Token) : Parser Int32 := do
  match ← ofKind? .equals with
  | none => return autoValue index
  | some _ =>
    let number ← expect .number "an enum value"
    match readInt32? number.text.toList with
    | some value => return value
    | none =>
      noteAt number.place (.malformedValue number.text name.text)
      return Int32.ofNat index

def startsField (t : Token) : Bool := t.kind = .identifier || t.kind.primitive?.isSome

def checkTypeName (t : Token) : Parser Unit :=
  if t.kind = .identifier then plainName t "type name" else pure ()

/-- A field, after its type. A named type counts as a message until all names are known. -/
def field (index : Nat) (type : Token) : Parser Field := do
  checkTypeName type
  let marks ← modifiers
  let name ← expect .identifier "a field name"
  plainName name "field name"
  let id ← fieldId index name
  terminator s!"field {quote name.text}"
  return {
    type := (type.kind.primitive?.map FieldType.primitive).getD .message
    typeName := type.text
    name := name.text
    id := id
    isOptional := marks.contains .question
    isArray := marks.contains .brackets
    place := type.place }

def startsEntry (t : Token) : Bool := t.kind = .identifier

def entry (index : Nat) (name : Token) : Parser Entry := do
  plainName name "enum entry"
  let value ← entryValue index name
  terminator s!"enum entry {quote name.text}"
  return ⟨name.text, value, name.place⟩

end Parser

namespace Token.Kind

/-- A define or a definition starts here, or the text ends. -/
def startsItem : Kind → Bool
  | .finish | .hash | .message | .enum => true
  | _ => false

end Token.Kind

namespace Parser

def skipItem (tokens : List Token) : List Token := tokens.dropWhile fun t => !t.kind.startsItem

/-- Skips to the end of a field or entry that could not be read. -/
def skipEntry : List Token → List Token
  | [] => []
  | t :: rest =>
    if t.kind = .semicolon then rest
    else if t.kind = .closeBrace || t.kind.startsItem then t :: rest
    else skipEntry rest

theorem skipItem_suffix (tokens : List Token) : skipItem tokens <:+ tokens :=
  List.dropWhile_suffix _

theorem skipEntry_suffix (tokens : List Token) : skipEntry tokens <:+ tokens := by
  induction tokens with
  | nil => exact List.suffix_refl _
  | cons t rest ih =>
    unfold skipEntry
    split
    · exact List.suffix_cons _ _
    · split
      · exact List.suffix_refl _
      · exact ih.trans (List.suffix_cons _ _)

structure Block (α : Type) where
  starts : Token → Bool
  /-- What is missing where `starts` fails. -/
  what : String
  /-- The rest of an item, given its index and first token. -/
  item : Nat → Token → Parser α

/-- The items up to the closing brace, the tokens after it and the issues on the way. -/
structure Block.Contents (α : Type) where
  items : Array α
  rest : List Token
  noted : Array Issue

/-- Reads on in a block; `items` and `noted` hold what came before. -/
def Block.readFrom {α : Type} (b : Block α) (definition : String) (finish : Place)
    (tokens : List Token) (items : Array α) (noted : Array Issue) : Block.Contents α :=
  match tokens with
  | [] => ⟨items, [], noted.push ((Cause.unclosed definition none).issueAt finish)⟩
  | t :: rest =>
    if t.kind = .closeBrace then ⟨items, rest, noted⟩
    else if t.kind.startsItem then
      ⟨items, t :: rest, noted.push ((Cause.unclosed definition (foundIn (t :: rest))).issueAt t.place)⟩
    else if b.starts t then
      let r := (b.item items.size t).run finish rest
      match r.result with
      | .ok a => b.readFrom definition finish r.rest (items.push a) (noted ++ r.noted)
      | .error issue =>
        b.readFrom definition finish (skipEntry r.rest) items ((noted ++ r.noted).push issue)
    else
      let after := if t.kind = .semicolon then rest else skipEntry rest
      b.readFrom definition finish after items
        (noted.push ((Cause.expected b.what (some t.text)).issueAt t.place))
termination_by tokens.length
decreasing_by
  · have h := ((b.item items.size t).suffix finish rest).length_le
    simp only [List.length_cons]
    omega
  · have h := ((b.item items.size t).suffix finish rest).length_le
    have h' := (skipEntry_suffix ((b.item items.size t).run finish rest).rest).length_le
    simp only [List.length_cons]
    omega
  · have h := (skipEntry_suffix rest).length_le
    simp only [List.length_cons]
    split <;> omega

theorem Block.readFrom_suffix {α : Type} (b : Block α) (definition : String) (finish : Place)
    (tokens : List Token) (items : Array α) (noted : Array Issue) :
    (b.readFrom definition finish tokens items noted).rest <:+ tokens := by
  fun_induction b.readFrom definition finish tokens items noted with
  | case1 => exact List.suffix_refl _
  | case2 => exact List.suffix_cons _ _
  | case3 => exact List.suffix_refl _
  | case4 items noted t rest _ _ _ r a _ ih =>
    exact ih.trans (((b.item items.size t).suffix finish rest).trans (List.suffix_cons _ _))
  | case5 items noted t rest _ _ _ r issue _ ih =>
    exact ih.trans ((skipEntry_suffix _).trans
      (((b.item items.size t).suffix finish rest).trans (List.suffix_cons _ _)))
  | case6 items noted t rest _ _ _ after ih =>
    refine ih.trans ?_
    dsimp only [after]
    split
    · exact List.suffix_cons _ _
    · exact (skipEntry_suffix _).trans (List.suffix_cons _ _)

def block {α : Type} (b : Block α) (definition : String) : Parser (List α) where
  run finish tokens :=
    let c := b.readFrom definition finish tokens #[] #[]
    ⟨.ok c.items.toList, c.rest, c.noted.toList⟩
  suffix finish tokens := b.readFrom_suffix definition finish tokens #[] #[]

def messageBlock : Block Field := ⟨startsField, "a field type", field⟩

def enumBlock : Block Entry := ⟨startsEntry, "an enum entry name", entry⟩

def definition {α : Type} (b : Block α) (body : List α → Body) : Parser Definition := do
  let name ← expect .identifier "a type name"
  plainName name "type name"
  let _ ← expect .openBrace "\"\x7b\""
  let items ← block b name.text
  return ⟨name.text, name.place, body items⟩

def messageDefinition : Parser Definition := definition messageBlock .message

def enumDefinition : Parser Definition := definition enumBlock .enum

structure Draft where
  defines : Array Define
  definitions : Array Definition
  noted : Array Issue

namespace Draft

def empty : Draft := ⟨#[], #[], #[]⟩

def addDefine (d : Draft) (r : Reply Define) : Draft :=
  match r.result with
  | .ok a => ⟨d.defines.push a, d.definitions, d.noted ++ r.noted⟩
  | .error issue => ⟨d.defines, d.definitions, (d.noted ++ r.noted).push issue⟩

def addDefinition (d : Draft) (r : Reply Definition) : Draft :=
  match r.result with
  | .ok a => ⟨d.defines, d.definitions.push a, d.noted ++ r.noted⟩
  | .error issue => ⟨d.defines, d.definitions, (d.noted ++ r.noted).push issue⟩

def addIssue (d : Draft) (issue : Issue) : Draft :=
  ⟨d.defines, d.definitions, d.noted.push issue⟩

def schema (d : Draft) : Schema := ⟨d.defines.toList, d.definitions.toList⟩

end Draft

/-- The tokens with which the document goes on after a construct. -/
def resume {α : Type} (r : Reply α) : List Token :=
  match r.result with
  | .ok _ => r.rest
  | .error _ => skipItem r.rest

theorem resume_suffix {α : Type} (p : Parser α) (finish : Place) (tokens : List Token) :
    resume (p.run finish tokens) <:+ tokens := by
  unfold resume
  split
  · exact p.suffix finish tokens
  · exact (skipItem_suffix _).trans (p.suffix finish tokens)

def documentFrom (finish : Place) (tokens : List Token) (draft : Draft) : Draft :=
  match tokens with
  | [] => draft
  | t :: rest =>
    if t.kind = .finish then draft
    else if t.kind = .hash then
      let r := define.run finish rest
      documentFrom finish (resume r) (draft.addDefine r)
    else if t.kind = .message then
      let r := messageDefinition.run finish rest
      documentFrom finish (resume r) (draft.addDefinition r)
    else if t.kind = .enum then
      let r := enumDefinition.run finish rest
      documentFrom finish (resume r) (draft.addDefinition r)
    else
      documentFrom finish (skipItem rest)
        (draft.addIssue ((Cause.unexpected (some t.text)).issueAt t.place))
termination_by tokens.length
decreasing_by
  · have := (resume_suffix define finish rest).length_le
    simp only [List.length_cons]; omega
  · have := (resume_suffix messageDefinition finish rest).length_le
    simp only [List.length_cons]; omega
  · have := (resume_suffix enumDefinition finish rest).length_le
    simp only [List.length_cons]; omega
  · have := (skipItem_suffix rest).length_le
    simp only [List.length_cons]; omega

def endOf (tokens : List Token) : Place :=
  match tokens.getLast? with
  | some t => ⟨t.place.line, t.place.column + t.text.length⟩
  | none => Place.start

/-- The schema that a token list spells, with named types unresolved, and the issues of its
grammar in the order in which they were found. -/
def document (tokens : List Token) : Schema × List Issue :=
  let draft := documentFrom (endOf tokens) tokens Draft.empty
  (draft.schema, draft.noted.toList)

end Parser

end WireSchema
