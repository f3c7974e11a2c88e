import WireSchema.Proofs.Spacing

/-!
Definitions written out as schema text. Whatever the text of a schema looked like, its definitions
can be printed in one form, with every id and every value given, and the printed text is accepted as
the same definitions. The words of an accepted text stay what they are wherever a break follows
them, so no name that is printed can turn into a keyword; and a number in decimal is read as itself.
-/

namespace WireSchema

/-! The printed form. -/

/-- The entry as schema text spells it, without the closing semicolon. -/
def Entry.spelling (e : Entry) : String := s!"{e.name} = {e.value.toInt}"

def braced (keyword name : String) (inside : List String) : List String :=
  s!"{keyword} {name} \x7b" :: (inside ++ ["\x7d"])

/-- The clauses of a definition, one for each field or entry among them. -/
def Definition.clauses (d : Definition) : List String :=
  match d.body with
  | .message fields => braced "message" d.name (fields.map fun f => f.spelling ++ ";")
  | .enum entries => braced "enum" d.name (entries.map fun e => e.spelling ++ ";")

/-- All definitions in order, with the same gap between each two clauses. -/
def Schema.printed (gap : String) (s : Schema) : String :=
  gap.intercalate (s.definitions.flatMap Definition.clauses)

/-! Decimal numbers. -/

namespace Text

/-- Digits are read from the left. -/
theorem readDigits?_append (n : Nat) (cs ds : List Char) :
    readDigits? n (cs ++ ds) = (readDigits? n cs).bind (readDigits? · ds) := by
  induction cs generalizing n with
  | nil => rfl
  | cons c cs ih =>
    rw [List.cons_append, readDigits?, readDigits?]
    cases digitValue? c with
    | none => rfl
    | some d => exact ih (10 * n + d)

theorem digitValue?_digitChar : ∀ d < 10, digitValue? d.digitChar = some d := by decide

/-- A number is read back from its digits. -/
theorem readDigits?_toDigits (n : Nat) : readDigits? 0 (Nat.toDigits 10 n) = some n := by
  induction n using Nat.strongRecOn with
  | _ n ih =>
    by_cases small : n < 10
    · rw [Nat.toDigits_of_lt_base small, readDigits?, digitValue?_digitChar n small]
      simp [readDigits?]
    · rw [Nat.toDigits_of_base_le (by decide) (Nat.le_of_not_lt small), readDigits?_append,
        ih (n / 10) (by omega), Option.bind_some, readDigits?,
        digitValue?_digitChar _ (Nat.mod_lt n (by decide))]
      exact congrArg some (Nat.div_add_mod n 10)

theorem readNat?_toDigits (n : Nat) : readNat? (Nat.toDigits 10 n) = some n := by
  obtain ⟨c, cs, whole⟩ := List.exists_cons_of_ne_nil (Nat.toDigits_ne_nil (n := n) (b := 10))
  rw [whole, readNat?, ← whole, readDigits?_toDigits]

theorem isDigit_of_mem_toDigits {n : Nat} {c : Char} (member : c ∈ Nat.toDigits 10 n) :
    isDigit c = true := by
  have digit := Nat.isDigit_of_mem_toDigits (by decide) (by decide) member
  have part : Token.Rule.isNamePart c = true := by
    simp [Token.Rule.isNamePart, Char.isAlphanum, digit]
  exact forall_ascii (P := fun c => c.isDigit = true → isDigit c = true) (by decide)
    (Token.toNat_lt_of_isNamePart part) digit

theorem readUnsigned?_toDigits (n : Nat) : readUnsigned? (Nat.toDigits 10 n) = some n := by
  rw [readUnsigned?.eq_def]
  split
  next cs whole =>
    exact absurd (isDigit_of_mem_toDigits (whole ▸ List.mem_cons_self)) (by decide)
  next => exact readNat?_toDigits n

theorem toList_toString_ofNat (n : Nat) :
    (toString (Int.ofNat n)).toList = Nat.toDigits 10 n := Nat.toList_repr

theorem toList_toString_negSucc (n : Nat) :
    (toString (Int.negSucc n)).toList = '-' :: Nat.toDigits 10 (n + 1) := by
  have minus : toString (Int.negSucc n) = "-" ++ Nat.repr (n + 1) := rfl
  rw [minus, String.toList_append, Nat.toList_repr]
  rfl

/-- An integer is read back from its text, with its sign. -/
theorem readSigned?_toString (n : Int) : readSigned? (toString n).toList = some n := by
  cases n with
  | ofNat n =>
    rw [toList_toString_ofNat, readSigned?.eq_def]
    split
    next cs whole =>
      exact absurd (isDigit_of_mem_toDigits (whole ▸ List.mem_cons_self)) (by decide)
    next cs whole =>
      exact absurd (isDigit_of_mem_toDigits (whole ▸ List.mem_cons_self)) (by decide)
    next => rw [readNat?_toDigits, Option.map_some]
  | negSucc n =>
    rw [toList_toString_negSucc, readSigned?, readNat?_toDigits]
    rfl

/-- An id is read back from its text. -/
theorem readUInt16?_toString (id : UInt16) : readUInt16? (toString id.toNat).toList = some id := by
  have digits := toList_toString_ofNat id.toNat
  rw [show toString id.toNat = toString (Int.ofNat id.toNat) from rfl, digits, readUInt16?,
    readUnsigned?_toDigits]
  simp only [if_pos (show id.toNat < 65536 from id.toNat_lt)]
  exact congrArg some UInt16.ofNat_toNat

/-- A value is read back from its text. -/
theorem readInt32?_toString (value : Int32) :
    readInt32? (toString value.toInt).toList = some value := by
  have inside : -2147483648 ≤ value.toInt ∧ value.toInt < 2147483648 :=
    ⟨value.le_toInt, value.toInt_lt⟩
  rw [readInt32?, readSigned?_toString]
  simp only [if_pos inside, Int32.ofInt_toInt]

end Text

namespace Token

open Text Rule

variable {k : Kind} {c : Char} {cs p q : List Char} {w : String} {tokens : List Token}
  {words more : List (Kind × String)}

/-! Words that stay what they are. -/

/-- A word is a token of this kind wherever a break follows it. -/
def Firm (k : Kind) (w : String) : Prop :=
  ∀ c rest, isBreak c = true → lexeme? (w.toList ++ c :: rest) = some (k, w.toList.length)

/-- All meaningful tokens are firm, if each number among them stands behind an equals sign. -/
theorem Lexed.firm {offset : Nat} {place : Place} (lexed : Lexed offset place cs tokens)
    (apart : (significant tokens).IsChain Apart) :
    ∀ t ∈ significant tokens, t.kind ≠ .finish → Firm t.kind t.text := by
  induction lexed with
  | finish =>
    intro t member real
    rw [List.mem_singleton.mp member] at real
    exact absurd rfl real
  | @token offset place w rest k tokens found later ih =>
    rw [significant_cons] at apart ⊢
    cases trivia : k.isTrivia with
    | true =>
      simp only [trivia, if_true] at apart ⊢
      exact ih apart
    | false =>
      simp only [trivia, Bool.false_eq_true, if_false] at apart ⊢
      refine List.forall_mem_cons.mpr ⟨fun _ c rest breaks => ?_, ih apart.tail⟩
      rw [String.toList_ofList]
      exact lexeme?_swap found trivia (later.opens apart) (Or.inr ⟨c, rfl, breaks⟩)

theorem firm_of_lexeme? (found : lexeme? w.toList = some (k, w.toList.length))
    (meaningful : k.isTrivia = false) : Firm k w := by
  intro c rest breaks
  have alone : lexeme? (w.toList ++ []) = some (k, w.toList.length) := by rwa [List.append_nil]
  exact lexeme?_swap alone meaningful (fun _ _ first => by cases first) (Or.inr ⟨c, rfl, breaks⟩)

/-- A text that is a number to its end is lexed as one. -/
theorem lexeme?_number (long : number cs = cs.length) (given : cs ≠ []) :
    lexeme? cs = some (.number, cs.length) := by
  obtain ⟨c, cs, rfl⟩ := List.exists_cons_of_ne_nil given
  have found : number (c :: cs) ≠ 0 := by rw [long]; nofun
  have first := front_of_number found
  rw [lexeme?_of_front (by rw [first]; nofun), first, ← long]
  exact if_neg found

theorem unsignedNumber_digits (digits : ∀ c ∈ cs, isDigit c = true) :
    unsignedNumber cs = cs.length := by
  rw [unsignedNumber_eq, List.takeWhile_eq_self_iff.mpr digits,
    List.dropWhile_eq_nil_iff.mpr digits]
  rfl

theorem number_digits (digits : ∀ c ∈ cs, isDigit c = true) : number cs = cs.length := by
  have unsigned : signLength cs = 0 := by
    rw [signLength.eq_def]
    split
    · exact absurd (digits '+' List.mem_cons_self) (by decide)
    · exact absurd (digits '-' List.mem_cons_self) (by decide)
    · rfl
  rw [number, unsigned, List.drop_zero, unsignedNumber_digits digits]
  split <;> omega

theorem number_minus (digits : ∀ c ∈ cs, isDigit c = true) (given : cs ≠ []) :
    number ('-' :: cs) = ('-' :: cs).length := by
  have sign : signLength ('-' :: cs) = 1 := rfl
  rw [number, sign, List.drop_succ_cons, List.drop_zero, unsignedNumber_digits digits,
    if_neg (List.length_pos_of_ne_nil given).ne', List.length_cons, Nat.add_comm]

/-- A printed number is one token. -/
theorem firm_toString (n : Int) : Firm .number (toString n) := by
  refine firm_of_lexeme? ?_ rfl
  cases n with
  | ofNat n =>
    rw [toList_toString_ofNat]
    exact lexeme?_number (number_digits fun c => isDigit_of_mem_toDigits) Nat.toDigits_ne_nil
  | negSucc n =>
    rw [toList_toString_negSucc]
    exact lexeme?_number (number_minus (fun c => isDigit_of_mem_toDigits) Nat.toDigits_ne_nil)
      (List.cons_ne_nil _ _)

/-! What a piece of text is read as. -/

/-- In front of any text, the piece is read as the given words. -/
def Reads (p : List Char) (words : List (Kind × String)) : Prop :=
  ∀ rest more, Spells rest more → Spells (p ++ rest) (words ++ more)

theorem Space.reads (space : Space p) : Reads p [] := fun _ _ spells => space.spells spells

/-- What is read from two texts is read from both together. -/
theorem Reads.append (first : Reads p words) (later : Reads q more) :
    Reads (p ++ q) (words ++ more) := by
  intro rest others spells
  rw [List.append_assoc, List.append_assoc]
  exact first _ _ (later _ _ spells)

theorem Reads.blank (later : Reads p words) : Reads (' ' :: p) words :=
  fun rest more spells => (later rest more spells).blank (by decide)

/-- A firm word is read before any break. -/
theorem Firm.reads (firm : Firm k w) (meaningful : k.isTrivia = false)
    (breaks : isBreak c = true) (later : Reads (c :: p) words) :
    Reads (w.toList ++ c :: p) ((k, w) :: words) := by
  intro rest more spells
  have word := Spells.word (firm c (p ++ rest) breaks) meaningful (later rest more spells)
  rw [String.ofList_toList] at word
  rwa [List.append_assoc]

/-- Marks need no break behind them. -/
theorem reads_mark {mark : List Char} (marked : front c = .mark c) (kind : (Front.mark c).kind = k)
    (meaningful : k.isTrivia = false) (length : k.length = literal (c :: mark)) :
    Reads (c :: mark) [(k, String.ofList (c :: mark))] := by
  intro rest more spells
  have found : lexeme? (c :: mark ++ rest) = some (k, (c :: mark).length) := by
    rw [List.cons_append, lexeme?_of_front (by rw [marked]; nofun), marked, kind, Kind.lexeme?,
      length, ← List.cons_append, literal_append]
    rfl
  exact .word found meaningful spells

/-- Phrases that are set apart by space are read one after the other. -/
theorem reads_intercalate {gap : List Char} (space : Space gap)
    {phrases : List (String × List (Kind × String))}
    (each : ∀ phrase ∈ phrases, Reads phrase.1.toList phrase.2) :
    Reads (gap.intercalate (phrases.map fun phrase => phrase.1.toList))
      (phrases.flatMap Prod.snd) := by
  induction phrases with
  | nil => exact Space.nil.reads
  | cons phrase phrases ih =>
    obtain ⟨first, each⟩ := List.forall_mem_cons.mp each
    rw [List.map_cons, List.flatMap_cons]
    cases phrases with
    | nil =>
      rw [List.map_nil, List.intercalate_singleton, List.flatMap_nil, List.append_nil]
      exact first
    | cons next phrases =>
      rw [List.map_cons, List.intercalate_cons_cons, List.append_assoc]
      exact first.append (space.reads.append (ih each))

end Token

namespace Grammar

open Text Token

/-! What an accepted text spells can be printed. -/

/-- A name as schema text can spell it. -/
structure Spellable (name : String) : Prop where
  firm : Firm .identifier name
  plain : '.' ∉ name.toList

/-- A word as schema text can spell it where a type is due. -/
def SpellsType (w : String) : FieldType → Prop
  | .primitive p => Firm (.primitive p) w
  | .enum | .message => Spellable w

/-- All that is printed of a definition can be spelled. -/
structure Printable (d : Definition) : Prop where
  name : Spellable d.name
  fields : ∀ f ∈ d.fields, SpellsType f.typeName f.type ∧ Spellable f.name
  entries : ∀ e ∈ d.entries, Spellable e.name

def AllFirm (tokens : List Token) : Prop := ∀ t ∈ tokens, Firm t.kind t.text

section

variable {tokens : List Token}

theorem spellable_of_firm {t : Token} (firm : Firm t.kind t.text)
    (named : t.kind = .identifier) (plain : Plain t) : Spellable t.text :=
  ⟨named ▸ firm, plain⟩

/-- A type that is read from a token is spelled by its word. -/
theorem TypeText.spellsType {t : Token} {type : FieldType} (typed : TypeText t type)
    (firm : Firm t.kind t.text) : SpellsType t.text type := by
  cases typed with
  | primitive kind =>
    rw [kind] at firm
    exact firm
  | named kind plain isNamed =>
    cases type with
    | primitive p => cases isNamed
    | enum | message => exact spellable_of_firm firm kind plain

/-- The names that a field is read with can be printed. -/
theorem FieldText.spellable {index : Nat} {f : Field} (text : FieldText index tokens f)
    (firms : AllFirm tokens) : SpellsType f.typeName f.type ∧ Spellable f.name := by
  obtain ⟨typed, -, named, plain, -, -⟩ := text
  exact ⟨typed.spellsType (firms _ (by simp)),
    spellable_of_firm (firms _ (by simp)) named plain⟩

theorem EntryText.spellable {index : Nat} {e : Entry} (text : EntryText index tokens e)
    (firms : AllFirm tokens) : Spellable e.name := by
  obtain ⟨named, plain, -, -⟩ := text
  exact spellable_of_firm (firms _ (by simp)) named plain

theorem firms_append {rest : List Token} :
    AllFirm (tokens ++ rest) ↔ AllFirm tokens ∧ AllFirm rest := List.forall_mem_append

theorem Items.spellable {α : Type} {item : Nat → List Token → α → Prop} {P : α → Prop}
    (each : ∀ index tokens a, item index tokens a → AllFirm tokens → P a) {index : Nat}
    {items : List α} (text : Items item index tokens items) (firms : AllFirm tokens) :
    ∀ a ∈ items, P a := by
  induction text with
  | nil => exact nofun
  | cons head _ ih =>
    obtain ⟨first, later⟩ := firms_append.mp firms
    exact List.forall_mem_cons.mpr ⟨each _ _ _ head first, ih later⟩

theorem DefinitionText.printable {d : Definition} (text : DefinitionText tokens d)
    (firms : AllFirm tokens) : Printable d := by
  cases text with
  | message text =>
    obtain ⟨-, named, plain, -, contents, -⟩ := text
    refine ⟨spellable_of_firm (firms _ (by simp)) named plain, ?_, nofun⟩
    exact contents.spellable (fun _ _ _ text => text.spellable)
      fun t member => firms t (by simp [member])
  | enum text =>
    obtain ⟨-, named, plain, -, contents, -⟩ := text
    refine ⟨spellable_of_firm (firms _ (by simp)) named plain, nofun, ?_⟩
    exact contents.spellable (fun _ _ _ text => text.spellable)
      fun t member => firms t (by simp [member])

/-- Every definition that is read can be printed. -/
theorem DocumentText.printable {s : Schema} (text : DocumentText tokens s)
    (firms : AllFirm tokens) : ∀ d ∈ s.definitions, Printable d := by
  induction text with
  | nil => exact nofun
  | define _ _ ih => exact ih (firms_append.mp firms).2
  | definition head _ ih =>
    obtain ⟨first, later⟩ := firms_append.mp firms
    exact List.forall_mem_cons.mpr ⟨head.printable first, ih later⟩

end

/-! The words of the printed form. -/

def wordKind : FieldType → Kind
  | .primitive p => .primitive p
  | .enum | .message => .identifier

def markWords (f : Field) : List (Kind × String) :=
  (if f.isArray then [(.brackets, "[]")] else []) ++
    (if f.isOptional then [(.question, "?")] else [])

def assignedWords (number : String) : List (Kind × String) :=
  [(.equals, "="), (.number, number), (.semicolon, ";")]

def fieldWords (f : Field) : List (Kind × String) :=
  (wordKind f.type, f.typeName) ::
    (markWords f ++ (.identifier, f.name) :: assignedWords (toString f.id.toNat))

def entryWords (e : Entry) : List (Kind × String) :=
  (.identifier, e.name) :: assignedWords (toString e.value.toInt)

def bracedPhrases (k : Kind) (keyword name : String)
    (inside : List (String × List (Kind × String))) : List (String × List (Kind × String)) :=
  (s!"{keyword} {name} \x7b", [(k, keyword), (.identifier, name), (.openBrace, "\x7b")]) ::
    (inside ++ [("\x7d", [(.closeBrace, "\x7d")])])

def phrases (d : Definition) : List (String × List (Kind × String)) :=
  match d.body with
  | .message fields =>
    bracedPhrases .message "message" d.name (fields.map fun f => (f.spelling ++ ";", fieldWords f))
  | .enum entries =>
    bracedPhrases .enum "enum" d.name (entries.map fun e => (e.spelling ++ ";", entryWords e))

def documentWords (definitions : List Definition) : List (Kind × String) :=
  (definitions.flatMap phrases).flatMap Prod.snd

theorem map_fst_phrases (d : Definition) : (phrases d).map Prod.fst = d.clauses := by
  rw [phrases, Definition.clauses]
  cases d.body <;> simp [bracedPhrases, braced]

/-! The printed form is read as its words. -/

theorem reads_assigned {name number : String} (named : Spellable name)
    (firm : Firm .number number) :
    Reads (name.toList ++ ' ' :: '=' :: ' ' :: (number.toList ++ [';']))
      ((.identifier, name) :: assignedWords number) := by
  have closed : Reads [';'] [(.semicolon, ";")] := reads_mark (by decide) rfl rfl rfl
  have equals : Reads ['='] [(.equals, "=")] := reads_mark (by decide) rfl rfl rfl
  have later := (equals.append (firm.reads rfl (by decide) closed).blank).blank
  exact named.firm.reads rfl (by decide) later

theorem reads_entry {e : Entry} (named : Spellable e.name) :
    Reads (e.spelling ++ ";").toList (entryWords e) := by
  have whole : (e.spelling ++ ";").toList =
      e.name.toList ++ ' ' :: '=' :: ' ' :: ((toString e.value.toInt).toList ++ [';']) := by
    have spelled : e.spelling = e.name ++ " = " ++ toString e.value.toInt := rfl
    simp only [spelled, String.toList_append, List.append_assoc]
    rfl
  rw [whole]
  exact reads_assigned named (firm_toString _)

theorem SpellsType.firm {w : String} {type : FieldType} (spells : SpellsType w type) :
    Firm (wordKind type) w := by
  cases type with
  | primitive p => exact spells
  | enum | message => exact Spellable.firm spells

/-- A field that is printed is read as its words. -/
theorem reads_field {f : Field} (typed : SpellsType f.typeName f.type) (named : Spellable f.name) :
    Reads (f.spelling ++ ";").toList (fieldWords f) := by
  have later := (reads_assigned named (firm_toString f.id.toNat)).blank
  have question : Reads ['?'] [(.question, "?")] := reads_mark (by decide) rfl rfl rfl
  have brackets : Reads ['[', ']'] [(.brackets, "[]")] := reads_mark (by decide) rfl rfl rfl
  have spelled : (f.spelling ++ ";").toList =
      f.typeName.toList ++ ((if f.isArray then ['[', ']'] else []) ++
        ((if f.isOptional then ['?'] else []) ++ ' ' ::
          (f.name.toList ++ ' ' :: '=' :: ' ' :: ((toString f.id.toNat).toList ++ [';'])))) := by
    have whole : f.spelling = f.typeName ++ (if f.isArray then "[]" else "") ++
        (if f.isOptional then "?" else "") ++ " " ++ f.name ++ " = " ++ toString f.id.toNat := rfl
    simp only [whole, String.toList_append, List.append_assoc]
    cases f.isArray <;> cases f.isOptional <;> rfl
  have meaningful : (wordKind f.type).isTrivia = false := by cases f.type <;> rfl
  rw [spelled, fieldWords, markWords]
  -- what follows the type is a mark or a blank, and a break in any case
  cases f.isArray <;> cases f.isOptional
  · exact typed.firm.reads meaningful (by decide) later
  · exact typed.firm.reads meaningful (by decide) (question.append later)
  · exact typed.firm.reads meaningful (by decide) (brackets.append later)
  · exact typed.firm.reads meaningful (by decide) (brackets.append (question.append later))

theorem reads_opening {k : Kind} {keyword name : String} (word : Firm k keyword)
    (meaningful : k.isTrivia = false) (named : Spellable name) :
    Reads (s!"{keyword} {name} \x7b").toList
      [(k, keyword), (.identifier, name), (.openBrace, "\x7b")] := by
  have opened : Reads ['\x7b'] [(.openBrace, "\x7b")] := reads_mark (by decide) rfl rfl rfl
  have whole : (s!"{keyword} {name} \x7b").toList =
      keyword.toList ++ ' ' :: (name.toList ++ [' ', '\x7b']) := by
    have text : s!"{keyword} {name} \x7b" = keyword ++ " " ++ name ++ " \x7b" := rfl
    simp only [text, String.toList_append, List.append_assoc]
    rfl
  rw [whole]
  exact word.reads meaningful (by decide) (named.firm.reads rfl (by decide) opened.blank).blank

theorem reads_bracedPhrases {k : Kind} {keyword name : String}
    {inside : List (String × List (Kind × String))} (word : Firm k keyword)
    (meaningful : k.isTrivia = false) (named : Spellable name)
    (each : ∀ phrase ∈ inside, Reads phrase.1.toList phrase.2) :
    ∀ phrase ∈ bracedPhrases k keyword name inside, Reads phrase.1.toList phrase.2 := by
  have closed : Reads "\x7d".toList [(.closeBrace, "\x7d")] := reads_mark (by decide) rfl rfl rfl
  exact List.forall_mem_cons.mpr ⟨reads_opening word meaningful named,
    List.forall_mem_append.mpr ⟨each, List.forall_mem_singleton.mpr closed⟩⟩

/-- A definition that is printed is read as its phrases. -/
theorem reads_phrases {d : Definition} (printable : Printable d) :
    ∀ phrase ∈ phrases d, Reads phrase.1.toList phrase.2 := by
  rw [phrases]
  cases body : d.body with
  | message fields =>
    have word : Firm .message "message" := firm_of_lexeme? (by decide) rfl
    refine reads_bracedPhrases word rfl printable.name (List.forall_mem_map.mpr fun f inside => ?_)
    obtain ⟨typed, named⟩ := printable.fields f (by rwa [Definition.fields, body])
    exact reads_field typed named
  | enum entries =>
    have word : Firm .enum "enum" := firm_of_lexeme? (by decide) rfl
    refine reads_bracedPhrases word rfl printable.name (List.forall_mem_map.mpr fun e inside => ?_)
    exact reads_entry (printable.entries e (by rwa [Definition.entries, body]))

/-! The words derive what was printed. -/

def ofMeaning (word : Kind × String) : Token := ⟨word.1, word.2, 0, Place.start⟩

theorem map_meaning_ofMeaning (words : List (Kind × String)) :
    (words.map ofMeaning).map meaning = words := by
  rw [List.map_map]
  exact List.map_id words

theorem typeText_word {w : String} {type : FieldType} (typed : SpellsType w type) :
    TypeText (ofMeaning (wordKind type, w)) type := by
  cases type with
  | primitive p => exact .primitive rfl
  | enum | message => exact .named rfl (Spellable.plain typed) rfl

theorem marks_words (f : Field) : Marks ((markWords f).map ofMeaning) f.isOptional f.isArray := by
  rw [markWords]
  cases f.isArray <;> cases f.isOptional
  · exact .none
  · exact .optional rfl
  · exact .array rfl
  · exact .arrayOptional rfl rfl

theorem assigned_words {α : Type} {read : List Char → Option α} {auto : α → Prop} {a : α}
    {number : String} (value : read number.toList = some a) :
    Assigned read auto [ofMeaning (.equals, "="), ofMeaning (.number, number)] a :=
  .given rfl rfl value

theorem fieldText_words {f : Field} (typed : SpellsType f.typeName f.type)
    (named : Spellable f.name) (index : Nat) :
    FieldText index ((fieldWords f).map ofMeaning) f.unplaced := by
  have plain : Plain (ofMeaning (.identifier, f.name)) := named.plain
  rw [fieldWords, List.map_cons, List.map_append]
  exact .mk (typeText_word typed) (marks_words f) rfl plain
    (assigned_words (readUInt16?_toString f.id)) rfl

theorem entryText_words {e : Entry} (named : Spellable e.name) (index : Nat) :
    EntryText index ((entryWords e).map ofMeaning) e.unplaced := by
  have plain : Plain (ofMeaning (.identifier, e.name)) := named.plain
  exact .mk rfl plain (assigned_words (readInt32?_toString e.value)) rfl

/-- The words of items spell them one after the other. -/
theorem items_words {α : Type} {item : Nat → List Token → α → Prop} {unplace : α → α}
    {words : α → List (Kind × String)} {items : List α}
    (each : ∀ a ∈ items, ∀ index, item index ((words a).map ofMeaning) (unplace a)) (index : Nat) :
    Items item index ((items.flatMap words).map ofMeaning) (items.map unplace) := by
  induction items generalizing index with
  | nil => exact .nil
  | cons a items ih =>
    obtain ⟨first, each⟩ := List.forall_mem_cons.mp each
    rw [List.flatMap_cons, List.map_append, List.map_cons]
    exact .cons (first index) (ih each (index + 1))

/-- The words of a definition spell it if those of its items do. -/
theorem braced_words {α : Type} {k : Kind} {keyword name : String}
    {item : Nat → List Token → α → Prop} {body : List α → Body}
    {inside : List (String × List (Kind × String))} {items : List α} (named : Spellable name)
    (contents : Items item 0 ((inside.flatMap Prod.snd).map ofMeaning) items) :
    Braced k item body (((bracedPhrases k keyword name inside).flatMap Prod.snd).map ofMeaning)
      ⟨name, Place.start, body items⟩ := by
  have plain : Plain (ofMeaning (.identifier, name)) := named.plain
  rw [bracedPhrases, List.flatMap_cons, List.flatMap_append, List.map_append, List.map_append]
  exact .mk rfl rfl plain rfl contents rfl

theorem definitionText_words {d : Definition} (printable : Printable d) :
    DefinitionText (((phrases d).flatMap Prod.snd).map ofMeaning) d.unplaced := by
  rw [phrases, Definition.unplaced]
  cases body : d.body with
  | message fields =>
    refine .message (braced_words printable.name ?_)
    rw [List.flatMap_map]
    refine items_words (fun f inside => ?_) 0
    obtain ⟨typed, named⟩ := printable.fields f (by rwa [Definition.fields, body])
    exact fieldText_words typed named
  | enum entries =>
    refine .enum (braced_words printable.name ?_)
    rw [List.flatMap_map]
    refine items_words (fun e inside => ?_) 0
    exact entryText_words (printable.entries e (by rwa [Definition.entries, body]))

/-- The words that are printed spell the definitions without their places. -/
theorem documentText_words {definitions : List Definition}
    (printable : ∀ d ∈ definitions, Printable d) :
    DocumentText ((documentWords definitions).map ofMeaning)
      ⟨[], definitions.map Definition.unplaced⟩ := by
  rw [documentWords]
  induction definitions with
  | nil => exact .nil
  | cons d definitions ih =>
    obtain ⟨first, printable⟩ := List.forall_mem_cons.mp printable
    rw [List.flatMap_cons, List.flatMap_append, List.map_append, List.map_cons]
    exact .definition (definitionText_words first) (ih printable)

end Grammar

theorem Definition.unplaced_unplaced (d : Definition) : d.unplaced.unplaced = d.unplaced := by
  obtain ⟨name, place, body⟩ := d
  cases body <;> simp [unplaced, Body.unplaced, Function.comp_def, Field.unplaced, Entry.unplaced]

namespace Schema

open Token Grammar

/-- An accepted text derives its schema, and from firm tokens only. -/
theorem firm_derivation_of_parse {text : String} {s : Schema} (parses : parse text = .ok s) :
    ∃ tokens, AllFirm tokens ∧ DocumentText tokens s := by
  obtain ⟨tokens, lexes, accepted⟩ := parse_eq_ok_iff.mp parses
  have lexed := lex_eq_ok_iff.mp lexes
  have firm := lexed.firm (apart_of_ofTokens lexed accepted)
  refine ⟨_, fun t member => ?_, derived_of_ofTokens accepted⟩
  have real := List.mem_takeWhile_imp member
  exact firm t (List.takeWhile_subset _ member) (of_decide_eq_true real)

/-- The definitions of an accepted text are printable. -/
theorem printable_of_parse {text : String} {s : Schema} (parses : parse text = .ok s) :
    ∀ d ∈ s.definitions, Printable d := by
  obtain ⟨tokens, firms, derived⟩ := firm_derivation_of_parse parses
  exact derived.printable firms

/-- The words of a printed text. -/
theorem spells_printed {gap : String} {s : Schema} (printable : ∀ d ∈ s.definitions, Printable d)
    (space : Space gap.toList) :
    Spells (s.printed gap).toList (documentWords s.definitions ++ [(.finish, "")]) := by
  have texts : (s.definitions.flatMap Definition.clauses).map String.toList =
      (s.definitions.flatMap phrases).map fun phrase => phrase.1.toList := by
    simp only [List.map_flatMap, ← map_fst_phrases, List.map_map]
    rfl
  have each : ∀ phrase ∈ s.definitions.flatMap phrases, Reads phrase.1.toList phrase.2 := by
    intro phrase member
    obtain ⟨d, inside, member⟩ := List.mem_flatMap.mp member
    exact reads_phrases (printable d inside) phrase member
  have reads := reads_intercalate space each [] _ Spells.finish
  rwa [List.append_nil, ← texts, ← String.toList_intercalate] at reads

/-- Tokens with these words are accepted as the definitions, without places. -/
theorem accepted_words {s : Schema} (printable : ∀ d ∈ s.definitions, Printable d) (bound : s.Bound)
    (lawful : s.Lawful) :
    ofTokens ((documentWords s.definitions ++ [(Kind.finish, "")]).map ofMeaning) =
      .ok ⟨[], s.definitions.map Definition.unplaced⟩ := by
  have derived := documentText_words printable
  -- neither the rules nor the binding of names look at defines
  have lawful' := s.lawful_unplaced.mpr lawful
  refine ofTokens_of_derived ?_ (s.bound_unplaced.mpr bound)
    ⟨lawful'.names, lawful'.bodies, lawful'.finite⟩
  rw [List.map_append, List.takeWhile_append_of_pos]
  · exact (List.append_nil _).symm ▸ derived
  · exact fun t member => decide_eq_true (derived.unfinished t member)

/-- The printed definitions of an accepted text are accepted, as the same definitions apart from
places. -/
theorem parse_printed {text gap : String} {s : Schema} (parses : parse text = .ok s)
    (space : Space gap.toList) :
    ∃ s', parse (s.printed gap) = .ok s' ∧ s'.defines = [] ∧
      s'.definitions.map Definition.unplaced = s.definitions.map Definition.unplaced := by
  have printable := printable_of_parse parses
  obtain ⟨tokens₀, -, accepted₀⟩ := parse_eq_ok_iff.mp parses
  have accepted := accepted_words printable (bound_of_ofTokens accepted₀)
    (lawful_of_ofTokens accepted₀)
  obtain ⟨tokens, lexed, means⟩ := (spells_printed printable space).exists_lexed 0 Place.start
  obtain ⟨s', accepted', unplaced⟩ :=
    exists_ofTokens_of_meaning accepted (means.trans (map_meaning_ofMeaning _).symm)
  obtain ⟨defines, definitions⟩ := Schema.mk.inj unplaced
  refine ⟨s', parse_eq_ok_iff.mpr ⟨tokens, lex_eq_ok_iff.mpr lexed, accepted'⟩, defines, ?_⟩
  rw [definitions, List.map_map]
  exact List.map_congr_left fun d _ => d.unplaced_unplaced

/-- Marks out of order, ids and values that are left out, a negative one, and a type that is defined
later. -/
def deckText : String := "message m\x7bint?[]i;e j;\x7denum e\x7ba=-1;b;\x7d"

def deckTokens : List Token :=
  [⟨.message, "message", 0, ⟨1, 1⟩⟩, ⟨.blank, " ", 7, ⟨1, 8⟩⟩, ⟨.identifier, "m", 8, ⟨1, 9⟩⟩,
    ⟨.openBrace, "\x7b", 9, ⟨1, 10⟩⟩, ⟨.primitive .int, "int", 10, ⟨1, 11⟩⟩,
    ⟨.question, "?", 13, ⟨1, 14⟩⟩, ⟨.brackets, "[]", 14, ⟨1, 15⟩⟩,
    ⟨.identifier, "i", 16, ⟨1, 17⟩⟩, ⟨.semicolon, ";", 17, ⟨1, 18⟩⟩,
    ⟨.identifier, "e", 18, ⟨1, 19⟩⟩, ⟨.blank, " ", 19, ⟨1, 20⟩⟩, ⟨.identifier, "j", 20, ⟨1, 21⟩⟩,
    ⟨.semicolon, ";", 21, ⟨1, 22⟩⟩, ⟨.closeBrace, "\x7d", 22, ⟨1, 23⟩⟩,
    ⟨.enum, "enum", 23, ⟨1, 24⟩⟩, ⟨.blank, " ", 27, ⟨1, 28⟩⟩, ⟨.identifier, "e", 28, ⟨1, 29⟩⟩,
    ⟨.openBrace, "\x7b", 29, ⟨1, 30⟩⟩, ⟨.identifier, "a", 30, ⟨1, 31⟩⟩,
    ⟨.equals, "=", 31, ⟨1, 32⟩⟩, ⟨.number, "-1", 32, ⟨1, 33⟩⟩, ⟨.semicolon, ";", 34, ⟨1, 35⟩⟩,
    ⟨.identifier, "b", 35, ⟨1, 36⟩⟩, ⟨.semicolon, ";", 36, ⟨1, 37⟩⟩,
    ⟨.closeBrace, "\x7d", 37, ⟨1, 38⟩⟩, ⟨.finish, "", 38, ⟨1, 39⟩⟩]

def deckSchema : Schema :=
  ⟨[], [⟨"m", ⟨1, 9⟩, .message
      [⟨.primitive .int, "int", "i", 0, true, true, ⟨1, 11⟩⟩,
        ⟨.enum, "e", "j", 1, false, false, ⟨1, 19⟩⟩]⟩,
    ⟨"e", ⟨1, 29⟩, .enum [⟨"a", -1, ⟨1, 31⟩⟩, ⟨"b", 1, ⟨1, 36⟩⟩]⟩]⟩

theorem deck_parsed : parse deckText = .ok deckSchema := by
  refine parse_eq_ok_iff.mpr ⟨deckTokens, lex_eq_ok_iff.mpr (by decide +kernel), ?_⟩
  refine ofTokens_eq_ok_iff_draft.mpr ?_
  exact ⟨by decide +kernel, by decide +kernel, by decide +kernel,
    deckSchema.issues_eq_nil_iff.mp (by cbv)⟩

def deckPrinted : String :=
  "message m \x7b int[]? i = 0; e j = 1; \x7d enum e \x7b a = -1; b = 1; \x7d"

theorem parse_printed_deck :
    ∃ s', parse deckPrinted = .ok s' ∧ s'.defines = [] ∧
      s'.definitions.map Definition.unplaced = deckSchema.definitions.map Definition.unplaced := by
  have space : Space " ".toList := .blank (Or.inl (by decide)) .nil
  have text : deckSchema.printed " " = deckPrinted := by decide +kernel
  rw [← text]
  exact parse_printed deck_parsed space

end Schema

end WireSchema
