import WireSchema.Proofs.Printing

/-!
Names and keywords. A keyword that a digit of another script follows at once is taken for a name,
so the tokens of a text may hold a name spelled like a keyword. No accepted text has such a token:
a number would be next to it, and the grammar has numbers behind an equals sign only. So no name of
an accepted schema is a keyword, and a field's type is one exactly if it is built in.
-/

namespace WireSchema

/-- The words that schema text has a meaning of its own for. -/
def Schema.keywords : List String := "message" :: "enum" :: Primitive.all.map Primitive.keyword

theorem Primitive.keyword_mem_keywords (p : Primitive) : p.keyword ∈ Schema.keywords :=
  List.mem_cons_of_mem _ (List.mem_cons_of_mem _ (List.mem_map_of_mem p.mem_all))

namespace Token

open Text Rule

variable {k : Kind} {w : String}

/-- A firm word is a token of its kind in front of a semicolon too. -/
theorem Firm.lexeme?_closed (firm : Firm k w) :
    lexeme? (w.toList ++ [';']) = some (k, w.toList.length) :=
  firm ';' [] (by decide)

/-- What the lexer takes for a name is not a keyword. -/
theorem Firm.notMem_keywords (firm : Firm .identifier w) : w ∉ Schema.keywords := by
  have kinds : ∀ w ∈ Schema.keywords,
      (lexeme? (w.toList ++ [';'])).map Prod.fst ≠ some .identifier := by decide
  intro member
  apply kinds w member
  rw [firm.lexeme?_closed, Option.map_some]

-- Without a break behind it, a keyword can be a name: here a number follows.
example : Lexed 0 Place.start "int٣".toList
    [⟨.identifier, "int", 0, ⟨1, 1⟩⟩, ⟨.number, "٣", 3, ⟨1, 4⟩⟩, ⟨.finish, "", 5, ⟨1, 5⟩⟩] := by
  decide

/-- The rule of a built-in type finds its keyword and nothing else. -/
theorem Firm.eq_keyword {p : Primitive} (firm : Firm (.primitive p) w) : w = p.keyword := by
  obtain ⟨length, positive⟩ := length_of_lexeme? firm.lexeme?_closed
  rw [Kind.length] at length
  obtain ⟨⟨rest, whole⟩, -, all⟩ := keyword_ne_zero (length ▸ positive)
  have same : p.keyword.toList = w.toList := List.append_inj_left whole (all.symm.trans length)
  exact String.toList_injective same.symm

end Token

namespace Grammar

open Token

variable {tokens : List Token}

/-- A type is a named one if its word is not a keyword. -/
theorem SpellsType.isNamed_iff {w : String} {type : FieldType} (spells : SpellsType w type) :
    type.isNamed ↔ w ∉ Schema.keywords := by
  cases type with
  | primitive p =>
    rw [Firm.eq_keyword spells]
    simp [FieldType.isNamed, p.keyword_mem_keywords]
  | enum | message => simp [FieldType.isNamed, (Spellable.firm spells).notMem_keywords]

theorem DefineText.firm {d : Define} (text : DefineText tokens d) (firms : AllFirm tokens) :
    Firm .identifier d.key := by
  cases text with
  | plain _ named => exact named ▸ firms _ (by simp)
  | spelled _ _ named => exact named ▸ firms _ (by simp)

/-- The key of each define is a name that the lexer takes for one. -/
theorem DocumentText.firm {s : Schema} (text : DocumentText tokens s) (firms : AllFirm tokens) :
    ∀ d ∈ s.defines, Firm .identifier d.key := by
  induction text with
  | nil => exact nofun
  | define head _ ih =>
    obtain ⟨first, later⟩ := firms_append.mp firms
    exact List.forall_mem_cons.mpr ⟨head.firm first, ih later⟩
  | definition _ _ ih => exact ih (firms_append.mp firms).2

end Grammar

namespace Schema

open Token Grammar

/-- No name in an accepted text is a keyword, be it a key, the name of a definition, a field or an
entry, or a type that is not built in. -/
theorem keywords_unused {text : String} {s : Schema} (parses : parse text = .ok s) :
    (∀ d ∈ s.defines, d.key ∉ keywords) ∧
      ∀ d ∈ s.definitions, d.name ∉ keywords ∧
        (∀ f ∈ d.fields, f.name ∉ keywords ∧ (f.type.isNamed ↔ f.typeName ∉ keywords)) ∧
        ∀ e ∈ d.entries, e.name ∉ keywords := by
  obtain ⟨tokens, firms, derived⟩ := firm_derivation_of_parse parses
  refine ⟨fun d member => (derived.firm firms d member).notMem_keywords, fun d member => ?_⟩
  have printable := derived.printable firms d member
  refine ⟨printable.name.firm.notMem_keywords, fun f inside => ?_, fun e inside => ?_⟩
  · obtain ⟨typed, named⟩ := printable.fields f inside
    exact ⟨named.firm.notMem_keywords, typed.isNamed_iff⟩
  · exact (printable.entries e inside).firm.notMem_keywords

/-- Names that are keywords but for a letter. -/
def almostText : String :=
  "#int_=1;message Message\x7bEnum bool_;int ints;\x7denum Enum\x7benums;\x7d"

def almostTokens : List Token :=
  [⟨.hash, "#", 0, ⟨1, 1⟩⟩, ⟨.identifier, "int_", 1, ⟨1, 2⟩⟩, ⟨.equals, "=", 5, ⟨1, 6⟩⟩,
    ⟨.number, "1", 6, ⟨1, 7⟩⟩, ⟨.semicolon, ";", 7, ⟨1, 8⟩⟩, ⟨.message, "message", 8, ⟨1, 9⟩⟩,
    ⟨.blank, " ", 15, ⟨1, 16⟩⟩, ⟨.identifier, "Message", 16, ⟨1, 17⟩⟩,
    ⟨.openBrace, "\x7b", 23, ⟨1, 24⟩⟩, ⟨.identifier, "Enum", 24, ⟨1, 25⟩⟩,
    ⟨.blank, " ", 28, ⟨1, 29⟩⟩, ⟨.identifier, "bool_", 29, ⟨1, 30⟩⟩, ⟨.semicolon, ";", 34, ⟨1, 35⟩⟩,
    ⟨.primitive .int, "int", 35, ⟨1, 36⟩⟩, ⟨.blank, " ", 38, ⟨1, 39⟩⟩,
    ⟨.identifier, "ints", 39, ⟨1, 40⟩⟩, ⟨.semicolon, ";", 43, ⟨1, 44⟩⟩,
    ⟨.closeBrace, "\x7d", 44, ⟨1, 45⟩⟩, ⟨.enum, "enum", 45, ⟨1, 46⟩⟩, ⟨.blank, " ", 49, ⟨1, 50⟩⟩,
    ⟨.identifier, "Enum", 50, ⟨1, 51⟩⟩, ⟨.openBrace, "\x7b", 54, ⟨1, 55⟩⟩,
    ⟨.identifier, "enums", 55, ⟨1, 56⟩⟩, ⟨.semicolon, ";", 60, ⟨1, 61⟩⟩,
    ⟨.closeBrace, "\x7d", 61, ⟨1, 62⟩⟩, ⟨.finish, "", 62, ⟨1, 63⟩⟩]

def almostSchema : Schema :=
  ⟨[⟨"int_", "1"⟩], [⟨"Message", ⟨1, 17⟩, .message
      [⟨.enum, "Enum", "bool_", 0, false, false, ⟨1, 25⟩⟩,
        ⟨.primitive .int, "int", "ints", 1, false, false, ⟨1, 36⟩⟩]⟩,
    ⟨"Enum", ⟨1, 51⟩, .enum [⟨"enums", 0, ⟨1, 56⟩⟩]⟩]⟩

theorem almost_parsed : parse almostText = .ok almostSchema := by
  refine parse_eq_ok_iff.mpr ⟨almostTokens, lex_eq_ok_iff.mpr (by decide), ?_⟩
  refine ofTokens_eq_ok_iff_draft.mpr ?_
  exact ⟨by decide +kernel, by decide +kernel, by decide +kernel,
    almostSchema.issues_eq_nil_iff.mp (by cbv)⟩

theorem keywords_unused_almost :
    (∀ d ∈ almostSchema.defines, d.key ∉ keywords) ∧
      ∀ d ∈ almostSchema.definitions, d.name ∉ keywords ∧
        (∀ f ∈ d.fields, f.name ∉ keywords ∧ (f.type.isNamed ↔ f.typeName ∉ keywords)) ∧
        ∀ e ∈ d.entries, e.name ∉ keywords :=
  keywords_unused almost_parsed

end Schema

end WireSchema
