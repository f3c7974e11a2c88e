import Mathlib.Data.List.Nodup
import WireSchema.Code.Document
import WireSchema.Proofs.Acceptance
import WireSchema.Proofs.Lexing

/-!
Names in generated code. A name of schema text has letters, digits and underscores only, and every
change of case and every escape keeps to these. The checks of the generator see to the rest: where
there is code, each name in it is an identifier and no keyword, and names of one scope are distinct,
also those that are never checked themselves.
-/

namespace WireSchema.Code

open Text Token Token.Rule

variable {c : Char} {cs : List Char}

/-! Case. -/

def Parts (cs : List Char) : Prop := ∀ c ∈ cs, isNamePart c = true

instance (cs : List Char) : Decidable (Parts cs) :=
  decidable_of_iff (cs.all isNamePart = true) List.all_eq_true

theorem parts_nil : Parts [] := nofun

theorem parts_cons : Parts (c :: cs) ↔ isNamePart c = true ∧ Parts cs := List.forall_mem_cons

theorem parts_append {ds : List Char} : Parts (cs ++ ds) ↔ Parts cs ∧ Parts ds :=
  List.forall_mem_append

theorem Parts.flatMap {α : Type} {f : α → List Char} {l : List α} (each : ∀ a ∈ l, Parts (f a)) :
    Parts (l.flatMap f) := by
  intro c member
  obtain ⟨a, inside, member⟩ := List.mem_flatMap.mp member
  exact each a inside c member

/-- The case of a character of names is again one of names. -/
theorem parts_upperChar (part : isNamePart c = true) : Parts (upperChar c) :=
  forall_ascii (P := fun c => isNamePart c = true → Parts (upperChar c)) (by decide)
    (toNat_lt_of_isNamePart part) part

theorem parts_lowerChar (part : isNamePart c = true) : Parts (lowerChar c) :=
  forall_ascii (P := fun c => isNamePart c = true → Parts (lowerChar c)) (by decide)
    (toNat_lt_of_isNamePart part) part

theorem Parts.lowerFrom {before acc : List Char} (parts : Parts cs) (done : Parts acc) :
    Parts (lowerFrom before acc cs) := by
  induction cs generalizing before acc with
  | nil =>
    rw [Text.lowerFrom]
    exact fun c member => done c (List.mem_reverse.mp member)
  | cons c cs ih =>
    obtain ⟨part, parts⟩ := parts_cons.mp parts
    have small : (c == capitalSigma) = false := by
      rw [beq_eq_false_iff_ne]
      rintro rfl
      cases part
    rw [Text.lowerFrom, small]
    refine ih parts (parts_append.mpr ⟨?_, done⟩)
    exact fun d member => parts_lowerChar part d (List.mem_reverse.mp member)

theorem Parts.capitalize {lowerRest : Bool} (parts : Parts cs) :
    Parts (capitalize lowerRest cs) := by
  cases cs with
  | nil => exact parts_nil
  | cons c cs =>
    obtain ⟨part, parts⟩ := parts_cons.mp parts
    refine parts_append.mpr ⟨parts_upperChar part, ?_⟩
    split
    · exact parts.lowerFrom parts_nil
    · exact parts

theorem Parts.pascalCase (parts : Parts cs) : Parts (pascalCase cs) := by
  rw [Code.pascalCase]
  split
  · apply Parts.flatMap
    intro word member
    have inside : Parts word := fun c inside =>
      parts c ((mem_splitOn (List.mem_of_mem_filter member)).2 inside)
    exact inside.capitalize
  · exact parts.capitalize

/-- Snake case has underscores, what is no capital, and the small letters of capitals. -/
theorem forall_mem_snakeFrom {P : Char → Prop} {previous : Option Char} (underscore : P '_')
    (kept : ∀ c ∈ cs, isUpper c = false → P c) (lowered : ∀ c ∈ cs, ∀ d ∈ lowerChar c, P d) :
    ∀ d ∈ snakeFrom previous cs, P d := by
  induction cs generalizing previous with
  | nil => exact nofun
  | cons c cs ih =>
    obtain ⟨keptHere, kept⟩ := List.forall_mem_cons.mp kept
    obtain ⟨loweredHere, lowered⟩ := List.forall_mem_cons.mp lowered
    rw [Code.snakeFrom]
    split
    next =>
      refine List.forall_mem_append.mpr ⟨List.forall_mem_append.mpr ⟨?_, loweredHere⟩,
        ih kept lowered⟩
      split
      · exact List.forall_mem_singleton.mpr underscore
      · exact nofun
    next small =>
      exact List.forall_mem_cons.mpr ⟨keptHere (by simpa using small), ih kept lowered⟩

theorem Parts.snakeFrom {previous : Option Char} (parts : Parts cs) :
    Parts (snakeFrom previous cs) :=
  forall_mem_snakeFrom (by decide) (fun c member _ => parts c member)
    fun c member => parts_lowerChar (parts c member)

/-! Identifiers. -/

/-- Letters, digits and underscores, no digit in front, not an underscore alone and no keyword. -/
structure IsName (name : String) : Prop where
  shape : ∃ c cs, name.toList = c :: cs ∧ isNameStart c = true ∧ Parts cs
  solid : name ≠ "_"
  free : name ∉ keywords

theorem IsName.parts {name : String} (named : IsName name) : Parts name.toList := by
  obtain ⟨c, cs, whole, start, parts⟩ := named.shape
  rw [whole]
  exact parts_cons.mpr ⟨isNamePart_of_isNameStart start, parts⟩

/-- No keyword is left after escaping. -/
theorem escapeKeyword_notMem (name : String) : escapeKeyword name ∉ keywords := by
  have escaped : ∀ word ∈ keywords, word ++ "_" ∉ keywords := by decide
  rw [escapeKeyword]
  split
  next keyword => exact escaped name (List.contains_iff_mem.mp keyword)
  next other => exact fun member => other (List.contains_iff_mem.mpr member)

theorem parts_escapeKeyword {name : String} (parts : Parts name.toList) :
    Parts (escapeKeyword name).toList := by
  rw [escapeKeyword]
  split
  · rw [String.toList_append]
    exact parts_append.mpr ⟨parts, by decide⟩
  · exact parts

/-- An identifier is not a lone underscore and does not start with a digit. -/
theorem isIdent_iff {name : String} : isIdent name = true ↔
    name ≠ "_" ∧ ∃ c cs, name.toList = c :: cs ∧ c.isDigit = false := by
  have lone : name = "_" ↔ name.toList = ['_'] := by rw [← String.toList_inj]; rfl
  rw [isIdent, Ne, lone]
  split
  next none => simp [none]
  next underscore => simp [underscore]
  next c cs other whole =>
    rw [whole]
    constructor
    · intro digit
      refine ⟨?_, c, cs, rfl, by simpa using digit⟩
      rintro ⟨rfl, rfl⟩
      exact other rfl rfl
    · rintro ⟨-, d, ds, same, digit⟩
      cases same
      rw [digit]
      rfl

theorem isName_escapeKeyword {name : String} (parts : Parts name.toList)
    (ident : isIdent (escapeKeyword name) = true) : IsName (escapeKeyword name) := by
  obtain ⟨solid, c, cs, whole, digit⟩ := isIdent_iff.mp ident
  have all := parts_escapeKeyword parts
  rw [whole] at all
  obtain ⟨part, rest⟩ := parts_cons.mp all
  refine ⟨⟨c, cs, whole, ?_, rest⟩, solid, escapeKeyword_notMem name⟩
  simpa [isNamePart, isNameStart, Char.isAlphanum, digit] using part

theorem isName_typeIdent {name : String} (parts : Parts name.toList)
    (ident : isIdent (typeIdent name) = true) : IsName (typeIdent name) := by
  apply isName_escapeKeyword _ ident
  rw [pascal, String.toList_ofList]
  exact parts.pascalCase

theorem isName_moduleIdent {name : String} (parts : Parts name.toList)
    (ident : isIdent (moduleIdent name) = true) : IsName (moduleIdent name) := by
  apply isName_escapeKeyword _ ident
  rw [snake, String.toList_ofList]
  exact parts.snakeFrom

/-! The checks. -/

theorem bind_eq_ok_iff {ε α β : Type} {x : Except ε α} {f : α → Except ε β} {b : β} :
    x >>= f = .ok b ↔ ∃ a, x = .ok a ∧ f a = .ok b := by
  cases x <;> simp [bind, Except.bind]

theorem then_eq_ok_iff {ε β : Type} {x : Except ε Unit} {f : Unit → Except ε β} {b : β} :
    x >>= f = .ok b ↔ x = .ok () ∧ f () = .ok b := by
  cases x <;> simp [bind, Except.bind]

theorem checkIdent_eq_ok_iff {owner name ident : String} :
    checkIdent owner name ident = .ok () ↔ isIdent ident = true := by
  rw [checkIdent]
  split <;> simp_all

/-- A name can be taken once. -/
theorem take_eq_ok_iff {taken taken' : Taken} {name ident : String} {clash : String → Unsupported} :
    take taken name ident clash = .ok taken' ↔
      ident ∉ taken.map Prod.fst ∧ taken' = (ident, name) :: taken := by
  have unknown : taken.lookup ident = none ↔ ident ∉ taken.map Prod.fst := by
    rw [List.lookup_eq_none_iff, List.mem_map]
    constructor
    · rintro others ⟨p, member, rfl⟩
      simpa using others p member
    · intro absent p member
      rw [bne_iff_ne]
      rintro rfl
      exact absent ⟨p, member, rfl⟩
  rw [take, ← unknown]
  cases taken.lookup ident with
  | some first => simp
  | none => simp [eq_comm]

/-- The keys of items are distinct, and none of them is taken. -/
def Fresh {α : Type} (key : α → String) (taken : Taken) (items : List α) : Prop :=
  (items.map key).Nodup ∧ ∀ a ∈ items, key a ∉ taken.map Prod.fst

section

variable {α : Type} {key : α → String} {taken : Taken} {a : α} {items : List α}

theorem fresh_nil : Fresh key taken [] := ⟨.nil, nofun⟩

theorem fresh_cons (name : String) : Fresh key taken (a :: items) ↔
    key a ∉ taken.map Prod.fst ∧ Fresh key ((key a, name) :: taken) items := by
  rw [Fresh, Fresh, List.map_cons, List.nodup_cons, List.forall_mem_cons, List.map_cons]
  simp only [List.mem_cons, not_or, List.mem_map]
  constructor
  · rintro ⟨⟨alone, distinct⟩, free, others⟩
    exact ⟨free, distinct, fun b member =>
      ⟨fun same => alone ⟨b, member, same⟩, others b member⟩⟩
  · rintro ⟨free, distinct, others⟩
    refine ⟨⟨?_, distinct⟩, free, fun b member => (others b member).2⟩
    rintro ⟨b, member, same⟩
    exact (others b member).1 same

end

theorem checkTypeIdents_eq_ok_iff {idents : Taken} {definitions : List Definition} :
    checkTypeIdents idents definitions = .ok () ↔
      Fresh (fun d => typeIdent d.name) idents definitions := by
  induction definitions generalizing idents with
  | nil => exact ⟨fun _ => fresh_nil, fun _ => rfl⟩
  | cons d definitions ih =>
    rw [checkTypeIdents, bind_eq_ok_iff, fresh_cons d.name]
    simp only [take_eq_ok_iff, and_assoc, exists_and_left, exists_eq_left, ih]

/-- Entries pass if their identifiers are valid and distinct. -/
theorem checkEntries_eq_ok_iff {owner : String} {idents : Taken} {entries : List Entry} :
    checkEntries owner idents entries = .ok () ↔
      (∀ e ∈ entries, isIdent (variantIdent e.name) = true) ∧
        Fresh (fun e => variantIdent e.name) idents entries := by
  induction entries generalizing idents with
  | nil => exact ⟨fun _ => ⟨nofun, fresh_nil⟩, fun _ => rfl⟩
  | cons e entries ih =>
    rw [checkEntries, then_eq_ok_iff, bind_eq_ok_iff, fresh_cons e.name, List.forall_mem_cons,
      checkIdent_eq_ok_iff]
    simp only [take_eq_ok_iff, and_assoc, exists_and_left, exists_eq_left, ih]
    exact and_congr_right fun _ => and_left_comm

/-- Fields pass if their identifiers and their constants are valid and distinct. -/
theorem checkFields_eq_ok_iff {s : Schema} {owner : String} {idents consts : Taken}
    {fields : List Field} :
    checkFields s owner idents consts fields = .ok () ↔
      (∀ f ∈ fields, checkReference s owner f = .ok () ∧ isIdent (fieldIdent f) = true) ∧
        Fresh fieldIdent idents fields ∧ Fresh (fieldConst · "ID") consts fields := by
  induction fields generalizing idents consts with
  | nil => exact ⟨fun _ => ⟨nofun, fresh_nil, fresh_nil⟩, fun _ => rfl⟩
  | cons f fields ih =>
    rw [checkFields, then_eq_ok_iff, then_eq_ok_iff, bind_eq_ok_iff, fresh_cons f.name,
      fresh_cons f.name, List.forall_mem_cons, checkIdent_eq_ok_iff]
    simp only [bind_eq_ok_iff, take_eq_ok_iff, and_assoc, exists_and_left, exists_eq_left, ih]
    constructor
    · rintro ⟨known, ident, free, freeConst, others, later, laterConst⟩
      exact ⟨known, ident, others, free, later, freeConst, laterConst⟩
    · rintro ⟨known, ident, others, free, later, freeConst, laterConst⟩
      exact ⟨known, ident, free, freeConst, others, later, laterConst⟩

theorem checkTypeName_eq_ok_iff {d : Definition} :
    checkTypeName d = .ok () ↔
      isIdent (typeIdent d.name) = true ∧ typeIdent d.name ∉ reservedTypeNames := by
  rw [checkTypeName, then_eq_ok_iff, checkIdent_eq_ok_iff, ← List.contains_iff_mem]
  refine and_congr_right fun _ => ?_
  cases reservedTypeNames.contains (typeIdent d.name) <;>
    simp [throw, throwThe, MonadExceptOf.throw, pure, Except.pure]

/-- What the check of a definition asks for. -/
theorem checkDefinition_eq_ok_iff {s : Schema} {d : Definition} :
    checkDefinition s d = .ok () ↔
      (isIdent (typeIdent d.name) = true ∧ typeIdent d.name ∉ reservedTypeNames) ∧
        ((∀ f ∈ d.fields, checkReference s d.name f = .ok () ∧ isIdent (fieldIdent f) = true) ∧
          Fresh fieldIdent [] d.fields ∧ Fresh (fieldConst · "ID") [] d.fields) ∧
        (∀ e ∈ d.entries, isIdent (variantIdent e.name) = true) ∧
          Fresh (fun e => variantIdent e.name) [] d.entries := by
  rw [checkDefinition, then_eq_ok_iff, then_eq_ok_iff, checkTypeName_eq_ok_iff,
    checkFields_eq_ok_iff, checkEntries_eq_ok_iff]

/-- Code is written only for definitions that pass the check. -/
theorem checkDefinition_of_typesSteps {facets : List Facet} {s : Schema}
    {definitions : List Definition} {steps : List Step}
    (done : typesSteps facets s definitions = .ok steps) :
    ∀ d ∈ definitions, checkDefinition s d = .ok () := by
  induction definitions generalizing steps with
  | nil => exact nofun
  | cons d definitions ih =>
    rw [typesSteps, bind_eq_ok_iff] at done
    obtain ⟨own, first, done⟩ := done
    obtain ⟨others, later, -⟩ := bind_eq_ok_iff.mp done
    rw [typeSteps, then_eq_ok_iff] at first
    exact List.forall_mem_cons.mpr ⟨first.1, ih later⟩

theorem mem_enumsFirst {definitions : List Definition} {d : Definition} :
    d ∈ enumsFirst definitions ↔ d ∈ definitions := by
  rw [enumsFirst, List.mem_append, List.mem_filter, List.mem_filter]
  cases d.isEnum <;> simp

theorem exists_of_mem_mapM {ε α β : Type} {f : α → Except ε β} {l : List α} {bs : List β}
    (done : l.mapM f = .ok bs) {b : β} (member : b ∈ bs) : ∃ a ∈ l, f a = .ok b := by
  induction l generalizing bs with
  | nil =>
    cases done
    cases member
  | cons a l ih =>
    rw [List.mapM_cons, bind_eq_ok_iff] at done
    obtain ⟨first, here, done⟩ := done
    obtain ⟨others, later, same⟩ := bind_eq_ok_iff.mp done
    cases same
    rcases List.mem_cons.mp member with rfl | member
    · exact ⟨a, List.mem_cons_self, here⟩
    · obtain ⟨a', inside, found⟩ := ih later member
      exact ⟨a', List.mem_cons_of_mem a inside, found⟩

theorem isName_of_moduleName {whole name : String} {segment : List Char}
    (named : moduleName whole segment = .ok name) : IsName name := by
  rw [moduleName] at named
  split at named
  next valid =>
    cases named
    rw [Bool.and_eq_true, isSegment.eq_def, Bool.and_eq_true, List.all_eq_true] at valid
    apply isName_moduleIdent _ valid.2
    rw [String.toList_ofList]
    exact valid.1.1
  next => cases named

/-- Every module of the namespace has a name. -/
theorem isName_of_modulesOf {s : Schema} {modules : List String}
    (found : modulesOf s = .ok modules) : ∀ m ∈ modules, IsName m := by
  intro m member
  rw [modulesOf] at found
  split at found
  next whole _ =>
    obtain ⟨segment, -, named⟩ := exists_of_mem_mapM found member
    exact isName_of_moduleName named
  next =>
    cases found
    cases member

/-! Names that are not checked themselves. -/

theorem append_injective (suffix : String) :
    Function.Injective fun name : String => name ++ suffix := by
  intro a b same
  have chars := congrArg String.toList same
  simp only [String.toList_append, List.append_cancel_right_eq] at chars
  exact String.toList_inj.mp chars

/-- Constants that differ with one suffix differ with any. -/
theorem nodup_fieldConst {fields : List Field} {suffix : String}
    (distinct : (fields.map (fieldConst · suffix)).Nodup) (other : String) :
    (fields.map (fieldConst · other)).Nodup := by
  have split : ∀ suffix, fields.map (fieldConst · suffix) =
      (fields.map fun f => screaming f.name).map (· ++ "_" ++ suffix) := by
    intro suffix
    rw [List.map_map]
    rfl
  have injective : ∀ suffix : String,
      Function.Injective fun name : String => name ++ "_" ++ suffix :=
    fun suffix => (append_injective suffix).comp (append_injective "_")
  rw [split, List.nodup_map_iff (injective _)] at distinct ⊢
  exact distinct

/-- Fields of distinct identifiers have distinct flags. -/
theorem nodup_readFlag {fields : List Field} (distinct : (fields.map fieldIdent).Nodup) :
    (fields.map readFlag).Nodup := by
  have idents : fields.map fieldIdent = (fields.map fun f => snake f.name).map escapeKeyword := by
    rw [List.map_map]
    rfl
  have flags : fields.map readFlag = (fields.map fun f => snake f.name).map (· ++ "_read") := by
    rw [List.map_map]
    rfl
  rw [flags, List.nodup_map_iff (append_injective "_read")]
  rw [idents] at distinct
  exact distinct.of_map _

end WireSchema.Code

namespace WireSchema.Grammar

open Token

variable {tokens rest : List Token}

def Spelled (tokens : List Token) (name : String) : Prop :=
  ∃ t ∈ tokens, t.kind = .identifier ∧ Plain t ∧ t.text = name

theorem Spelled.mono {name : String} (spelled : Spelled tokens name) (inside : tokens ⊆ rest) :
    Spelled rest name := by
  obtain ⟨t, member, named⟩ := spelled
  exact ⟨t, inside member, named⟩

theorem FieldText.spelled {index : Nat} {f : Field} (text : FieldText index tokens f) :
    Spelled tokens f.name := by
  obtain ⟨-, -, named, plain, -, -⟩ := text
  exact ⟨_, by simp, named, plain, rfl⟩

theorem EntryText.spelled {index : Nat} {e : Entry} (text : EntryText index tokens e) :
    Spelled tokens e.name := by
  obtain ⟨named, plain, -, -⟩ := text
  exact ⟨_, by simp, named, plain, rfl⟩

theorem Items.spelled {α : Type} {item : Nat → List Token → α → Prop} {name : α → String}
    (each : ∀ index tokens a, item index tokens a → Spelled tokens (name a)) {index : Nat}
    {items : List α} (text : Items item index tokens items) :
    ∀ a ∈ items, Spelled tokens (name a) := by
  induction text with
  | nil => exact nofun
  | cons head _ ih =>
    refine List.forall_mem_cons.mpr ⟨(each _ _ _ head).mono (List.subset_append_left _ _), ?_⟩
    exact fun a member => (ih a member).mono (List.subset_append_right _ _)

/-- Every name of a definition is spelled by one of the tokens. -/
structure SpelledOut (tokens : List Token) (d : Definition) : Prop where
  name : Spelled tokens d.name
  fields : ∀ f ∈ d.fields, Spelled tokens f.name
  entries : ∀ e ∈ d.entries, Spelled tokens e.name

theorem SpelledOut.mono {d : Definition} (spelled : SpelledOut tokens d) (inside : tokens ⊆ rest) :
    SpelledOut rest d :=
  ⟨spelled.name.mono inside, fun f member => (spelled.fields f member).mono inside,
    fun e member => (spelled.entries e member).mono inside⟩

theorem DefinitionText.spelled {d : Definition} (text : DefinitionText tokens d) :
    SpelledOut tokens d := by
  cases text with
  | message text =>
    obtain ⟨-, named, plain, -, contents, -⟩ := text
    refine ⟨⟨_, by simp, named, plain, rfl⟩, fun f member => ?_, nofun⟩
    have inside := contents.spelled (fun _ _ _ text => text.spelled) f member
    exact inside.mono fun t member => by simp [member]
  | enum text =>
    obtain ⟨-, named, plain, -, contents, -⟩ := text
    refine ⟨⟨_, by simp, named, plain, rfl⟩, nofun, fun e member => ?_⟩
    have inside := contents.spelled (fun _ _ _ text => text.spelled) e member
    exact inside.mono fun t member => by simp [member]

/-- Every name of a schema is spelled by one of its tokens. -/
theorem DocumentText.spelled {s : Schema} (text : DocumentText tokens s) :
    ∀ d ∈ s.definitions, SpelledOut tokens d := by
  induction text with
  | nil => exact nofun
  | define _ _ ih => exact fun d member => (ih d member).mono (List.subset_append_right _ _)
  | definition head _ ih =>
    refine List.forall_mem_cons.mpr ⟨head.spelled.mono (List.subset_append_left _ _), ?_⟩
    exact fun d member => (ih d member).mono (List.subset_append_right _ _)

end WireSchema.Grammar

namespace WireSchema.Code

open Token Token.Rule Grammar

/-- A name without points has characters of names only. -/
theorem parts_of_identifier {w rest : List Char}
    (found : lexeme? (w ++ rest) = some (.identifier, w.length)) (plain : '.' ∉ w) : Parts w := by
  obtain ⟨c, u, rfl, -⟩ := exists_cons_of_lexeme? found
  obtain ⟨length, positive⟩ := length_of_lexeme? found
  have read : identifier (c :: (u ++ rest)) = (c :: u).length := length
  obtain ⟨start, tail⟩ := identifier_ne_zero (read ▸ positive)
  rw [read, List.length_cons, Nat.add_comm, Nat.add_left_cancel_iff] at tail
  refine parts_cons.mpr ⟨isNamePart_of_isNameStart start, fun d member => ?_⟩
  have inside : d ∈ (u ++ rest).take (nameTail (u ++ rest)) := by rwa [← tail, List.take_left]
  rcases mem_take_nameTail inside with part | rfl
  · exact part
  · exact absurd (List.mem_cons_of_mem c member) plain

theorem Spelled.parts {text : String} {tokens : List Token} {name : String}
    (lexes : lex text = .ok tokens) (spelled : Spelled tokens name) : Parts name.toList := by
  obtain ⟨t, member, kind, plain, rfl⟩ := spelled
  rcases (lex_eq_ok_iff.mp lexes).shape member with finish | ⟨rest, found⟩
  · rw [kind] at finish
    cases finish
  · rw [kind] at found
    exact parts_of_identifier found plain

structure Lettered (d : Definition) : Prop where
  name : Parts d.name.toList
  fields : ∀ f ∈ d.fields, Parts f.name.toList
  entries : ∀ e ∈ d.entries, Parts e.name.toList

/-- The names of a schema are made of the characters of names. -/
theorem lettered_of_parse {text : String} {s : Schema} (parses : Schema.parse text = .ok s) :
    ∀ d ∈ s.definitions, Lettered d := by
  intro d member
  obtain ⟨tokens, lexes, accepted⟩ := Schema.parse_eq_ok_iff.mp parses
  have inside : (significant tokens).takeWhile (fun t => t.kind ≠ .finish) ⊆ tokens :=
    fun t member => List.mem_of_mem_filter ((List.takeWhile_subset _) member)
  have spelled := ((Schema.derived_of_ofTokens accepted).spelled d member).mono inside
  exact ⟨Spelled.parts lexes spelled.name, fun f member => Spelled.parts lexes (spelled.fields f member),
    fun e member => Spelled.parts lexes (spelled.entries e member)⟩

/-- The names that the code of a definition has. -/
structure WellNamed (d : Definition) : Prop where
  type : IsName (typeIdent d.name)
  unreserved : typeIdent d.name ∉ reservedTypeNames
  fields : ∀ f ∈ d.fields, IsName (fieldIdent f)
  distinctFields : (d.fields.map fieldIdent).Nodup
  distinctIds : (d.fields.map (fieldConst · "ID")).Nodup
  distinctLengths : (d.fields.map (fieldConst · "MIN_LEN")).Nodup
  distinctFlags : (d.fields.map readFlag).Nodup
  variants : ∀ e ∈ d.entries, IsName (variantIdent e.name)
  distinctVariants : (d.entries.map fun e => variantIdent e.name).Nodup

theorem Lettered.wellNamed {s : Schema} {d : Definition} (lettered : Lettered d)
    (checked : checkDefinition s d = .ok ()) : WellNamed d := by
  obtain ⟨⟨type, unreserved⟩, ⟨each, idents, consts⟩, variants, distinct⟩ :=
    checkDefinition_eq_ok_iff.mp checked
  exact {
    type := isName_typeIdent lettered.name type
    unreserved := unreserved
    fields := fun f member => isName_moduleIdent (lettered.fields f member) (each f member).2
    distinctFields := idents.1
    distinctIds := consts.1
    distinctLengths := nodup_fieldConst consts.1 _
    distinctFlags := nodup_readFlag idents.1
    variants := fun e member => isName_typeIdent (lettered.entries e member) (variants e member)
    distinctVariants := distinct.1 }

end WireSchema.Code
