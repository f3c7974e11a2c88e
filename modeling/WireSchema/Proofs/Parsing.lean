import Mathlib.Data.List.TakeWhile
import WireSchema.Proofs.Grammar

/-!
What the parser reads without an issue, compared with the grammar. The parser recovers from every
fault and goes on; here only the runs without one are followed, construct by construct.
-/

namespace WireSchema.Parser

open Text Grammar

variable {α β : Type} {finish : Place} {tokens rest : List Token}

/-- The parser reads `a` without an issue and leaves `rest`. -/
def Yields (p : Parser α) (finish : Place) (tokens : List Token) (a : α) (rest : List Token) :
    Prop :=
  p.run finish tokens = ⟨.ok a, rest, []⟩

/-- The next token, if there is one, fails the test. -/
def Stops (test : Token → Bool) (rest : List Token) : Prop :=
  ∀ t later, rest = t :: later → test t = false

@[simp] theorem stops_nil (test : Token → Bool) : Stops test [] := nofun

@[simp] theorem stops_cons (test : Token → Bool) (t : Token) (later : List Token) :
    Stops test (t :: later) ↔ test t = false := by
  constructor
  · intro stops
    exact stops t later rfl
  · intro fails u more same
    cases same
    exact fails

theorem stops_dropWhile (test : Token → Bool) (tokens : List Token) :
    Stops test (tokens.dropWhile test) := by
  intro t later same
  have fails := List.head?_dropWhile_not test tokens
  rwa [same] at fails

/-- Tokens that pass are taken up to where they stop. -/
theorem takeWhile_append_of_stops {test : Token → Bool} {front rest : List Token}
    (all : ∀ t ∈ front, test t) (stops : Stops test rest) :
    (front ++ rest).takeWhile test = front ∧ (front ++ rest).dropWhile test = rest := by
  rw [List.takeWhile_append_of_pos all, List.dropWhile_append_of_pos all]
  cases rest with
  | nil => simp
  | cons t later => simp [(stops_cons test t later).mp stops]

theorem yields_pure {a b : α} :
    Yields (pure a : Parser α) finish tokens b rest ↔ a = b ∧ tokens = rest := by
  change (⟨.ok a, tokens, []⟩ : Reply α) = ⟨.ok b, rest, []⟩ ↔ _
  simp

/-- A sequence yields a value if each of its parts does, one behind the other. -/
theorem yields_bind {p : Parser α} {f : α → Parser β} {b : β} :
    Yields (p >>= f) finish tokens b rest ↔
      ∃ a middle, Yields p finish tokens a middle ∧ Yields (f a) finish middle b rest := by
  change (p.bind f).run finish tokens = _ ↔ _
  simp only [Parser.bind, Yields]
  obtain ⟨result, middle, noted⟩ := p.run finish tokens
  cases result with
  | error issue => simp
  | ok a =>
    simp only [Reply.mk.injEq, Except.ok.injEq, List.append_eq_nil_iff]
    constructor
    · rintro ⟨read, left, quiet, quiet'⟩
      refine ⟨a, middle, ⟨rfl, rfl, quiet⟩, ?_⟩
      rw [← read, ← left, ← quiet']
    · rintro ⟨_, _, ⟨rfl, rfl, quiet⟩, later⟩
      rw [later]
      exact ⟨rfl, rfl, quiet, rfl⟩

/-- A parser that fails yields nothing. -/
theorem not_yields_fail {cause : Found → Cause} {a : α} :
    ¬ Yields (fail cause) finish tokens a rest := by
  intro clean
  cases clean

theorem not_yields_note {cause : Found → Cause} : ¬ Yields (note cause) finish tokens () rest := by
  intro clean
  cases clean

theorem not_yields_noteAt {place : Place} {cause : Cause} :
    ¬ Yields (noteAt place cause) finish tokens () rest := by
  intro clean
  cases clean

theorem yields_accept?_some {test : Token → Bool} {t : Token} :
    Yields (accept? test) finish tokens (some t) rest ↔ tokens = t :: rest ∧ test t := by
  cases tokens with
  | nil => simp [Yields, accept?]
  | cons next tokens =>
    by_cases passed : test next
    · simp only [Yields, accept?, passed, if_true, Reply.mk.injEq, Except.ok.injEq,
        Option.some.injEq, and_true, List.cons.injEq]
      constructor
      · rintro ⟨rfl, rfl⟩
        exact ⟨⟨rfl, rfl⟩, passed⟩
      · rintro ⟨same, -⟩
        exact same
    · simp only [Yields, accept?, passed, Bool.false_eq_true, if_false, Reply.mk.injEq,
        Except.ok.injEq, reduceCtorEq, false_and, List.cons.injEq, false_iff]
      rintro ⟨⟨rfl, -⟩, holds⟩
      exact passed holds

/-- Nothing is taken where the next token fails the test. -/
theorem yields_accept?_none {test : Token → Bool} :
    Yields (accept? test) finish tokens none rest ↔
      tokens = rest ∧ Stops test rest := by
  cases tokens with
  | nil =>
    simp only [Yields, accept?, Reply.mk.injEq, true_and, and_true]
    constructor
    · rintro rfl
      exact ⟨rfl, stops_nil test⟩
    · exact And.left
  | cons next tokens =>
    by_cases passed : test next
    · simp only [Yields, accept?, passed, if_true, Reply.mk.injEq, Except.ok.injEq, reduceCtorEq,
        false_and, false_iff]
      rintro ⟨rfl, fails⟩
      simp [passed] at fails
    · simp only [Yields, accept?, passed, Bool.false_eq_true, if_false, Reply.mk.injEq, true_and,
        and_true]
      constructor
      · rintro rfl
        exact ⟨rfl, by simpa using passed⟩
      · exact And.left

theorem yields_ofKind?_some {kind : Token.Kind} {t : Token} :
    Yields (ofKind? kind) finish tokens (some t) rest ↔ tokens = t :: rest ∧ t.kind = kind := by
  rw [ofKind?, yields_accept?_some, decide_eq_true_eq]

/-- Nothing is taken where the next token is of another kind. -/
theorem yields_ofKind?_none {kind : Token.Kind} :
    Yields (ofKind? kind) finish tokens none rest ↔
      tokens = rest ∧ Stops (fun t => t.kind = kind) rest := by
  rw [ofKind?, yields_accept?_none]

/-- A token that is expected is the next one. -/
theorem yields_expect {kind : Token.Kind} {what : String} {t : Token} :
    Yields (expect kind what) finish tokens t rest ↔ tokens = t :: rest ∧ t.kind = kind := by
  rw [expect, yields_bind]
  constructor
  · rintro ⟨found, middle, first, later⟩
    cases found with
    | none => exact absurd later not_yields_fail
    | some u =>
      obtain ⟨rfl, rfl⟩ := yields_pure.mp later
      exact yields_ofKind?_some.mp first
  · intro next
    exact ⟨some t, rest, yields_ofKind?_some.mpr next, yields_pure.mpr ⟨rfl, rfl⟩⟩

/-- A terminator is one semicolon. -/
theorem yields_terminator {after : String} :
    Yields (terminator after) finish tokens () rest ↔
      ∃ t, tokens = t :: rest ∧ t.kind = .semicolon := by
  rw [terminator, yields_bind]
  constructor
  · rintro ⟨found, middle, first, later⟩
    cases found with
    | none => exact absurd later not_yields_note
    | some t =>
      obtain ⟨-, rfl⟩ := yields_pure.mp later
      exact ⟨t, yields_ofKind?_some.mp first⟩
  · rintro ⟨t, next⟩
    exact ⟨some t, rest, yields_ofKind?_some.mpr next, yields_pure.mpr ⟨rfl, rfl⟩⟩

theorem yields_plainName {t : Token} {what : String} :
    Yields (plainName t what) finish tokens () rest ↔ Plain t ∧ tokens = rest := by
  rw [plainName, Plain]
  split
  next dotted =>
    refine ⟨fun clean => absurd clean not_yields_noteAt, fun plain => ?_⟩
    exact absurd (List.contains_iff_mem.mp dotted) plain.1
  next plain =>
    have free : '.' ∉ t.text.toList := fun dotted => plain (List.contains_iff_mem.mpr dotted)
    refine yields_pure.trans ?_
    simp [free]

/-! Numbers after an equals sign. -/

def assigned (what : String) (read : List Char → Option α) (auto : α) (cause : Token → Cause)
    (fallback : α) : Parser α := do
  match ← ofKind? .equals with
  | none => return auto
  | some _ =>
    let number ← expect .number what
    match read number.text.toList with
    | some a => return a
    | none =>
      noteAt number.place (cause number)
      return fallback

theorem fieldId_eq (index : Nat) (name : Token) :
    fieldId index name =
      assigned "a field id" readUInt16? (autoId index) (fun n => .malformedId n.text name.text)
        (autoId index) := by
  unfold fieldId assigned
  congr 1
  funext found
  cases found with
  | none => rfl
  | some t =>
    simp only
    congr 1
    funext number
    cases readUInt16? number.text.toList <;> rfl

theorem entryValue_eq (index : Nat) (name : Token) :
    entryValue index name =
      assigned "an enum value" readInt32? (autoValue index)
        (fun n => .malformedValue n.text name.text) (Int32.ofNat index) := by
  unfold entryValue assigned
  congr 1
  funext found
  cases found with
  | none => rfl
  | some t =>
    simp only
    congr 1
    funext number
    cases readInt32? number.text.toList <;> rfl

/-- A number is read from what is assigned, and taken by position where nothing is. -/
theorem yields_assigned {what : String} {read : List Char → Option α} {auto : α}
    {cause : Token → Cause} {fallback a : α} :
    Yields (assigned what read auto cause fallback) finish tokens a rest ↔
      ∃ number, tokens = number ++ rest ∧ Assigned read (· = auto) number a ∧
        (number = [] → Stops (fun t => t.kind = .equals) rest) := by
  rw [assigned, yields_bind]
  constructor
  · rintro ⟨found, middle, first, later⟩
    cases found with
    | none =>
      obtain ⟨rfl, rfl⟩ := yields_pure.mp later
      obtain ⟨rfl, other⟩ := yields_ofKind?_none.mp first
      exact ⟨[], rfl, .auto rfl, fun _ => other⟩
    | some e =>
      obtain ⟨rfl, equals⟩ := yields_ofKind?_some.mp first
      obtain ⟨n, after, expected, converted⟩ := yields_bind.mp later
      obtain ⟨rfl, number⟩ := yields_expect.mp expected
      cases value : read n.text.toList with
      | none =>
        rw [value] at converted
        obtain ⟨_, _, noted, -⟩ := yields_bind.mp converted
        exact absurd noted not_yields_noteAt
      | some b =>
        rw [value] at converted
        obtain ⟨rfl, rfl⟩ := yields_pure.mp converted
        exact ⟨[e, n], rfl, .given equals number value, nofun⟩
  · rintro ⟨_, rfl, text, alone⟩
    cases text with
    | auto holds =>
      subst holds
      exact ⟨none, rest, yields_ofKind?_none.mpr ⟨rfl, alone rfl⟩, yields_pure.mpr ⟨rfl, rfl⟩⟩
    | given equals number value =>
      refine ⟨some _, _, yields_ofKind?_some.mpr ⟨rfl, equals⟩, ?_⟩
      refine yields_bind.mpr ⟨_, _, yields_expect.mpr ⟨rfl, number⟩, ?_⟩
      rw [value]
      exact yields_pure.mpr ⟨rfl, rfl⟩

/-- An automatic id is the index, held at the largest id. -/
theorem eq_autoId_iff {index : Nat} {id : UInt16} :
    id = autoId index ↔ id.toNat = min index 65535 := by
  have reach : (autoId index).toNat = min index 65535 := by
    rw [autoId, Nat.toUInt16_eq, UInt16.toNat_ofNat_of_lt' (by rw [UInt16.size]; omega)]
  rw [← reach, UInt16.toNat_inj]

/-- An automatic value is the index, held at the largest value. -/
theorem eq_autoValue_iff {index : Nat} {value : Int32} :
    value = autoValue index ↔ value.toInt = min index 2147483647 := by
  have reach : (autoValue index).toInt = min index 2147483647 := by
    rw [autoValue, Int32.toInt_ofNat_of_lt (by omega)]
  rw [← reach, Int32.toInt_inj]

/-- An id that the next token does not continue. -/
theorem yields_fieldId {index : Nat} {name : Token} {id : UInt16} :
    Yields (fieldId index name) finish tokens id rest ↔
      ∃ number, tokens = number ++ rest ∧
        Assigned readUInt16? (fun id => id.toNat = min index 65535) number id ∧
        (number = [] → Stops (fun t => t.kind = .equals) rest) := by
  rw [fieldId_eq, yields_assigned]
  simp only [eq_autoId_iff]

theorem yields_entryValue {index : Nat} {name : Token} {value : Int32} :
    Yields (entryValue index name) finish tokens value rest ↔
      ∃ number, tokens = number ++ rest ∧
        Assigned readInt32? (fun value => value.toInt = min index 2147483647) number value ∧
        (number = [] → Stops (fun t => t.kind = .equals) rest) := by
  rw [entryValue_eq, yields_assigned]
  simp only [eq_autoValue_iff]

/-! Question marks and brackets. -/

/-- Marks are modifiers without repetition. -/
theorem marks_iff {marks : List Token} {isOptional isArray : Bool} :
    Marks marks isOptional isArray ↔
      (∀ t ∈ marks, isModifier t) ∧ repeatedModifiers [] marks = [] ∧
        (marks.map Token.kind).contains .question = isOptional ∧
        (marks.map Token.kind).contains .brackets = isArray := by
  constructor
  · intro text
    cases text <;> simp_all [isModifier, repeatedModifiers]
  · rintro ⟨modifiers, alone, rfl, rfl⟩
    have either : ∀ t ∈ marks, t.kind = .question ∨ t.kind = .brackets := by
      simpa [isModifier] using modifiers
    match marks with
    | [] => exact .none
    | [a] =>
      rcases either a (by simp) with h | h
      · simpa [h] using Marks.optional h
      · simpa [h] using Marks.array h
    | [a, b] =>
      rcases either a (by simp) with h | h <;> rcases either b (by simp) with h' | h'
      · simp [repeatedModifiers, h, h'] at alone
      · simpa [h, h'] using Marks.optionalArray h h'
      · simpa [h, h'] using Marks.arrayOptional h h'
      · simp [repeatedModifiers, h, h'] at alone
    | a :: b :: c :: more =>
      -- Three marks of two kinds: one of them is repeated.
      rcases either a (by simp) with h | h <;> rcases either b (by simp) with h' | h' <;>
        rcases either c (by simp) with h'' | h'' <;> simp [repeatedModifiers, h, h', h''] at alone

theorem yields_modifiers {kinds : List Token.Kind} :
    Yields modifiers finish tokens kinds rest ↔
      ∃ marks, tokens = marks ++ rest ∧ kinds = marks.map Token.kind ∧
        Marks marks (kinds.contains .question) (kinds.contains .brackets) ∧
        Stops isModifier rest := by
  simp only [Yields, modifiers, Reply.mk.injEq, Except.ok.injEq, marks_iff]
  constructor
  · rintro ⟨rfl, rfl, alone⟩
    exact ⟨tokens.takeWhile isModifier, List.takeWhile_append_dropWhile.symm, rfl,
      ⟨fun _ => List.mem_takeWhile_imp, alone, rfl, rfl⟩, stops_dropWhile isModifier tokens⟩
  · rintro ⟨marks, rfl, rfl, ⟨all, alone, -, -⟩, stops⟩
    obtain ⟨taken, left⟩ := takeWhile_append_of_stops all stops
    rw [taken, left]
    exact ⟨rfl, rfl, alone⟩

/-! Fields, entries and defines, after their first token. -/

theorem yields_checkTypeName {t : Token} :
    Yields (checkTypeName t) finish tokens () rest ↔
      (t.kind = .identifier → Plain t) ∧ tokens = rest := by
  rw [checkTypeName]
  split
  next named => simp [yields_plainName, named]
  next other =>
    refine yields_pure.trans ?_
    simp [other]

/-- A word that may start a field spells a built-in type or a name that is not bound yet. -/
theorem typeText_iff {t : Token} (starts : startsField t) {type : FieldType} :
    (t.kind = .identifier → Plain t) ∧
        (t.kind.primitive?.map FieldType.primitive).getD .message = type ↔
      TypeText t type ∧ type ≠ .enum := by
  have first : t.kind = .identifier ∨ ∃ p, t.kind = .primitive p := by
    rw [startsField] at starts
    cases kind : t.kind <;> simp_all [Token.Kind.primitive?]
  rcases first with kind | ⟨p, kind⟩
  · rw [kind]
    constructor
    · rintro ⟨plain, rfl⟩
      exact ⟨.named kind (plain rfl) rfl, by simp [Token.Kind.primitive?]⟩
    · rintro ⟨typed, other⟩
      cases typed with
      | primitive kind' => simp [kind] at kind'
      | named _ plain isNamed =>
        refine ⟨fun _ => plain, ?_⟩
        cases type with
        | primitive p => cases isNamed
        | enum => exact absurd rfl other
        | message => rfl
  · rw [kind]
    constructor
    · rintro ⟨-, rfl⟩
      exact ⟨.primitive kind, nofun⟩
    · rintro ⟨typed, -⟩
      cases typed with
      | primitive kind' =>
        rw [kind] at kind'
        cases kind'
        exact ⟨nofun, rfl⟩
      | named kind' => simp [kind] at kind'

/-- A named type of a field is read as a message. -/
theorem yields_field {index : Nat} {t : Token} (starts : startsField t) {f : Field} :
    Yields (field index t) finish tokens f rest ↔
      ∃ body, tokens = body ++ rest ∧ FieldText index (t :: body) f ∧ f.type ≠ .enum := by
  rw [field, yields_bind]
  constructor
  · rintro ⟨_, _, checked, afterType⟩
    obtain ⟨plainType, rfl⟩ := yields_checkTypeName.mp checked
    obtain ⟨kinds, _, marksRead, afterMarks⟩ := yields_bind.mp afterType
    obtain ⟨marks, rfl, rfl, marked, -⟩ := yields_modifiers.mp marksRead
    obtain ⟨name, _, expected, afterName⟩ := yields_bind.mp afterMarks
    obtain ⟨rfl, named⟩ := yields_expect.mp expected
    obtain ⟨_, _, checkedName, afterCheck⟩ := yields_bind.mp afterName
    obtain ⟨plain, rfl⟩ := yields_plainName.mp checkedName
    obtain ⟨id, _, idRead, afterId⟩ := yields_bind.mp afterCheck
    obtain ⟨number, rfl, numbered, -⟩ := yields_fieldId.mp idRead
    obtain ⟨_, _, ended, afterClose⟩ := yields_bind.mp afterId
    obtain ⟨close, rfl, closed⟩ := yields_terminator.mp ended
    obtain ⟨rfl, rfl⟩ := yields_pure.mp afterClose
    obtain ⟨typed, unresolved⟩ := (typeText_iff starts).mp ⟨plainType, rfl⟩
    exact ⟨marks ++ name :: (number ++ [close]), by simp,
      .mk typed marked named plain numbered closed, unresolved⟩
  · rintro ⟨_, rfl, text, unresolved⟩
    cases text with
    | @mk _ name close marks number type isOptional isArray id typed marked named plain numbered
        closed =>
      obtain ⟨plainType, rfl⟩ := (typeText_iff starts).mpr ⟨typed, unresolved⟩
      obtain ⟨-, -, rfl, rfl⟩ := marks_iff.mp marked
      simp only [List.append_assoc, List.cons_append]
      refine ⟨(), _, yields_checkTypeName.mpr ⟨plainType, rfl⟩, ?_⟩
      refine yields_bind.mpr ⟨marks.map Token.kind, _, yields_modifiers.mpr ⟨marks, rfl, rfl, marked, ?_⟩, ?_⟩
      · simp [isModifier, named]
      refine yields_bind.mpr ⟨name, _, yields_expect.mpr ⟨rfl, named⟩, ?_⟩
      refine yields_bind.mpr ⟨(), _, yields_plainName.mpr ⟨plain, rfl⟩, ?_⟩
      refine yields_bind.mpr ⟨id, close :: rest, ?_, ?_⟩
      · exact yields_fieldId.mpr ⟨number, rfl, numbered, by simp [closed]⟩
      refine yields_bind.mpr ⟨(), rest, yields_terminator.mpr ⟨close, rfl, closed⟩, ?_⟩
      exact yields_pure.mpr ⟨rfl, rfl⟩

/-- An entry is read from the tokens that spell it. -/
theorem yields_entry {index : Nat} {name : Token} (starts : startsEntry name) {e : Entry} :
    Yields (entry index name) finish tokens e rest ↔
      ∃ body, tokens = body ++ rest ∧ EntryText index (name :: body) e := by
  rw [entry, yields_bind]
  constructor
  · rintro ⟨_, _, checked, afterName⟩
    obtain ⟨plain, rfl⟩ := yields_plainName.mp checked
    obtain ⟨value, _, read, afterValue⟩ := yields_bind.mp afterName
    obtain ⟨number, rfl, numbered, -⟩ := yields_entryValue.mp read
    obtain ⟨_, _, ended, afterClose⟩ := yields_bind.mp afterValue
    obtain ⟨close, rfl, closed⟩ := yields_terminator.mp ended
    obtain ⟨rfl, rfl⟩ := yields_pure.mp afterClose
    refine ⟨number ++ [close], by simp, ?_⟩
    exact .mk (by simpa [startsEntry] using starts) plain numbered closed
  · rintro ⟨_, rfl, text⟩
    cases text with
    | @mk _ close number value named plain numbered closed =>
      rw [List.append_assoc]
      refine ⟨(), _, yields_plainName.mpr ⟨plain, rfl⟩, ?_⟩
      refine yields_bind.mpr ⟨value, close :: rest, ?_, ?_⟩
      · exact yields_entryValue.mpr ⟨number, rfl, numbered, by simp [closed]⟩
      · refine yields_bind.mpr ⟨(), rest, yields_terminator.mpr ⟨close, rfl, closed⟩, ?_⟩
        exact yields_pure.mpr ⟨rfl, rfl⟩

/-- The value of a quoted text is what is left of it without the quotes at its ends. -/
theorem unquote_eq_iff {text value : String} :
    unquote text = value ↔ Trims (· == '"') text.toList value.toList := by
  rw [trims_iff, unquote, ← String.toList_inj, String.toList_ofList, eq_comm]

/-- The value of a define is what its token is worth by the grammar. -/
theorem defineValue?_eq_some_iff {t : Token} {value : String} :
    defineValue? t = some value ↔ DefineValue t value := by
  constructor
  · intro given
    rw [defineValue?] at given
    split at given
    next kind => cases given; exact .word kind
    next kind => cases given; exact .number kind
    next kind => exact .quoted kind (unquote_eq_iff.mp (Option.some.inj given))
    next => cases given
  · intro given
    cases given with
    | word kind => rw [defineValue?, kind]
    | number kind => rw [defineValue?, kind]
    | quoted kind bare =>
      simp only [defineValue?, kind]
      rw [unquote_eq_iff.mpr bare]

theorem yields_skipSpelledDefine :
    Yields skipSpelledDefine finish tokens () rest ↔
      (if spelledDefine tokens then tokens.tail else tokens) = rest := by
  simp [Yields, skipSpelledDefine]

/-- The word is passed over if it is spelled out and a key follows. -/
theorem spelledDefine_eq_true_iff :
    spelledDefine tokens = true ↔
      ∃ word key later, tokens = word :: key :: later ∧
        (word.kind = .identifier ∧ word.text = "define") ∧ key.kind = .identifier := by
  constructor
  · intro spelled
    rw [spelledDefine.eq_def] at spelled
    split at spelled
    next word key later => exact ⟨word, key, later, rfl, by simpa using spelled⟩
    next => cases spelled
  · rintro ⟨word, key, later, rfl, spelling, named⟩
    simp [spelledDefine, spelling, named]

def keyed : Parser Define := do
  let key ← expect .identifier "a define key"
  let _ ← expect .equals "\"=\""
  match ← accept? fun t => (defineValue? t).isSome with
  | none => fail (.expected "a define value")
  | some t =>
    terminator s!"define {quote key.text}"
    return ⟨key.text, (defineValue? t).getD ""⟩

theorem define_eq : define = skipSpelledDefine >>= fun _ => keyed := rfl

theorem yields_keyed {d : Define} :
    Yields keyed finish tokens d rest ↔
      ∃ key equals v close, tokens = key :: equals :: v :: close :: rest ∧
        key.kind = .identifier ∧ equals.kind = .equals ∧ close.kind = .semicolon ∧
        ∃ value, DefineValue v value ∧ d = ⟨key.text, value⟩ := by
  rw [keyed, yields_bind]
  constructor
  · rintro ⟨key, _, expected, afterKey⟩
    obtain ⟨rfl, named⟩ := yields_expect.mp expected
    obtain ⟨equals, _, expected', afterEquals⟩ := yields_bind.mp afterKey
    obtain ⟨rfl, set⟩ := yields_expect.mp expected'
    obtain ⟨found, _, accepted, afterValue⟩ := yields_bind.mp afterEquals
    cases found with
    | none => exact absurd afterValue not_yields_fail
    | some v =>
      obtain ⟨rfl, isValue⟩ := yields_accept?_some.mp accepted
      obtain ⟨value, given⟩ := Option.isSome_iff_exists.mp isValue
      obtain ⟨_, _, ended, afterClose⟩ := yields_bind.mp afterValue
      obtain ⟨close, rfl, closed⟩ := yields_terminator.mp ended
      obtain ⟨rfl, rfl⟩ := yields_pure.mp afterClose
      exact ⟨key, equals, v, close, rfl, named, set, closed, value,
        defineValue?_eq_some_iff.mp given, by rw [given, Option.getD_some]⟩
  · rintro ⟨key, equals, v, close, rfl, named, set, closed, value, given, rfl⟩
    rw [← defineValue?_eq_some_iff] at given
    refine ⟨key, _, yields_expect.mpr ⟨rfl, named⟩, ?_⟩
    refine yields_bind.mpr ⟨equals, _, yields_expect.mpr ⟨rfl, set⟩, ?_⟩
    refine yields_bind.mpr ⟨some v, _, yields_accept?_some.mpr ⟨rfl, by rw [given]; rfl⟩, ?_⟩
    refine yields_bind.mpr ⟨(), rest, yields_terminator.mpr ⟨close, rfl, closed⟩, ?_⟩
    exact yields_pure.mpr ⟨by rw [given, Option.getD_some], rfl⟩

/-- A define is read from the tokens that spell it. -/
theorem yields_define {hash : Token} (starts : hash.kind = .hash) {d : Define} :
    Yields define finish tokens d rest ↔
      ∃ body, tokens = body ++ rest ∧ DefineText (hash :: body) d := by
  rw [define_eq, yields_bind]
  constructor
  · rintro ⟨_, _, skipped, afterSkip⟩
    obtain rfl := yields_skipSpelledDefine.mp skipped
    obtain ⟨key, equals, v, close, front, named, set, closed, value, given, rfl⟩ :=
      yields_keyed.mp afterSkip
    split at front
    next spelled =>
      obtain ⟨word, _, _, rfl, spelling, -⟩ := spelledDefine_eq_true_iff.mp spelled
      cases front
      exact ⟨[word, key, equals, v, close], rfl, .spelled starts spelling named set given closed⟩
    next => exact ⟨[key, equals, v, close], front, .plain starts named set given closed⟩
  · rintro ⟨_, rfl, text⟩
    cases text with
    | @plain _ key equals v close value _ named set given closed =>
      have unspelled : ¬ spelledDefine ([key, equals, v, close] ++ rest) = true := by
        rw [spelledDefine_eq_true_iff]
        rintro ⟨_, _, _, same, -, other⟩
        cases same
        simp [set] at other
      refine ⟨(), _, yields_skipSpelledDefine.mpr (if_neg unspelled), ?_⟩
      exact yields_keyed.mpr ⟨key, equals, v, close, rfl, named, set, closed, value, given, rfl⟩
    | @spelled _ word key equals v close value _ spelling named set given closed =>
      have spelled : spelledDefine ([word, key, equals, v, close] ++ rest) = true :=
        spelledDefine_eq_true_iff.mpr ⟨word, key, _, rfl, spelling, named⟩
      refine ⟨(), _, yields_skipSpelledDefine.mpr (if_pos spelled), ?_⟩
      exact yields_keyed.mpr ⟨key, equals, v, close, rfl, named, set, closed, value, given, rfl⟩

end WireSchema.Parser
