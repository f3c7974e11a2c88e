import WireSchema.Code.Document
import WireSchema.Proofs.Grammar
import WireSchema.Proofs.Rules

/-!
Places say where issues are and decide nothing else. A schema without its places meets the same
rules and becomes the same code, and tokens that differ in their places alone derive schemas that
differ in their places alone.
-/

namespace WireSchema

open Relation

def Field.unplaced (f : Field) : Field := { f with place := Place.start }

def Entry.unplaced (e : Entry) : Entry := { e with place := Place.start }

def Body.unplaced : Body → Body
  | .message fields => .message (fields.map Field.unplaced)
  | .enum entries => .enum (entries.map Entry.unplaced)

def Definition.unplaced (d : Definition) : Definition := ⟨d.name, Place.start, d.body.unplaced⟩

/-- The schema with all places forgotten. -/
def Schema.unplaced (s : Schema) : Schema := ⟨s.defines, s.definitions.map Definition.unplaced⟩

namespace Definition

@[simp] theorem name_unplaced (d : Definition) : d.unplaced.name = d.name := rfl

@[simp] theorem fields_unplaced (d : Definition) :
    d.unplaced.fields = d.fields.map Field.unplaced := by
  obtain ⟨name, place, body⟩ := d
  cases body <;> rfl

@[simp] theorem entries_unplaced (d : Definition) :
    d.unplaced.entries = d.entries.map Entry.unplaced := by
  obtain ⟨name, place, body⟩ := d
  cases body <;> rfl

@[simp] theorem isEnum_unplaced (d : Definition) : d.unplaced.isEnum = d.isEnum := by
  obtain ⟨name, place, body⟩ := d
  cases body <;> rfl

@[simp] theorem kind_unplaced (d : Definition) : d.unplaced.kind = d.kind := by
  rw [kind, isEnum_unplaced, kind]

theorem inlineTypes_unplaced (d : Definition) : d.unplaced.inlineTypes = d.inlineTypes := by
  rw [inlineTypes, inlineTypes, fields_unplaced, List.filter_map, List.map_map]
  rfl

theorem lawful_unplaced (d : Definition) : d.unplaced.Lawful ↔ d.Lawful := by
  rw [← bodyIssues_eq_nil_iff, ← bodyIssues_eq_nil_iff]
  obtain ⟨name, place, body⟩ := d
  cases body with
  | message fields =>
    rw [unplaced, Body.unplaced, bodyIssues, bodyIssues, fieldIssues_eq_nil_iff,
      fieldIssues_eq_nil_iff]
    simp [Field.unplaced, Function.comp_def]
  | enum entries =>
    cases entries with
    | nil => simp [unplaced, Body.unplaced, bodyIssues]
    | cons e entries =>
      change entryIssues name ((e :: entries).map Entry.unplaced) = [] ↔
        entryIssues name (e :: entries) = []
      rw [entryIssues_eq_nil_iff, entryIssues_eq_nil_iff]
      simp [Entry.unplaced, Function.comp_def]

end Definition

namespace Schema

theorem definition?_unplaced (s : Schema) (name : String) :
    s.unplaced.definition? name = (s.definition? name).map Definition.unplaced := by
  rw [definition?, unplaced, List.find?_map]
  rfl

/-- Which message holds which does not depend on places. -/
theorem holds_unplaced (s : Schema) : s.unplaced.Holds = s.Holds := by
  funext a b
  apply propext
  rw [holds_iff, holds_iff, definition?_unplaced]
  cases s.definition? a <;> simp [Definition.inlineTypes_unplaced]

/-- Neither does whether names are bound. -/
theorem bound_unplaced (s : Schema) : s.unplaced.Bound ↔ s.Bound := by
  simp only [Bound, unplaced, List.forall_mem_map, Definition.fields_unplaced]
  refine forall₂_congr fun d _ => forall₂_congr fun f _ => imp_congr_right fun _ => ?_
  change (∃ e, s.unplaced.definition? f.typeName = some e ∧ f.type = e.kind) ↔ _
  rw [definition?_unplaced]
  cases s.definition? f.typeName <;> simp

theorem lawful_unplaced (s : Schema) : s.unplaced.Lawful ↔ s.Lawful := by
  have names : s.unplaced.definitions.map Definition.name = s.definitions.map Definition.name := by
    simp [unplaced, Function.comp_def]
  have bodies : (∀ d ∈ s.unplaced.definitions, d.Lawful) ↔ ∀ d ∈ s.definitions, d.Lawful := by
    simp [unplaced, Definition.lawful_unplaced]
  have finite : (∀ d ∈ s.unplaced.definitions, ¬ TransGen s.unplaced.Holds d.name d.name) ↔
      ∀ d ∈ s.definitions, ¬ TransGen s.Holds d.name d.name := by
    rw [holds_unplaced]
    simp [unplaced]
  constructor
  · intro lawful
    exact ⟨names ▸ lawful.names, bodies.mp lawful.bodies, finite.mp lawful.finite⟩
  · intro lawful
    exact ⟨names ▸ lawful.names, bodies.mpr lawful.bodies, finite.mpr lawful.finite⟩

end Schema

namespace Code

theorem fieldsSteps_unplaced (d : Definition) : fieldsSteps d.unplaced = fieldsSteps d := by
  simp only [fieldsSteps, implBlock, Definition.name_unplaced, Definition.fields_unplaced,
    List.map_map, List.length_map]
  rfl

theorem constructorSteps_unplaced (d : Definition) :
    constructorSteps d.unplaced = constructorSteps d := by
  simp only [constructorSteps, implBlock, Definition.name_unplaced, Definition.fields_unplaced,
    List.map_map, List.length_map, List.isEmpty_map]
  rfl

theorem sizeSteps_unplaced (d : Definition) : sizeSteps d.unplaced = sizeSteps d := by
  simp only [sizeSteps, minSizeSteps, implBlock, Definition.name_unplaced,
    Definition.fields_unplaced, List.map_map, List.filter_map, List.isEmpty_map, List.flatMap_map]
  rfl

theorem serializeSteps_unplaced (d : Definition) :
    serializeSteps d.unplaced = serializeSteps d := by
  simp only [serializeSteps, implBlock, Definition.name_unplaced, Definition.fields_unplaced,
    List.isEmpty_map, List.flatMap_map]
  rfl

theorem deserializeSteps_unplaced (d : Definition) :
    deserializeSteps d.unplaced = deserializeSteps d := by
  simp only [deserializeSteps, readLoopSteps, implBlock, Definition.name_unplaced,
    Definition.fields_unplaced, List.isEmpty_map, List.map_map]
  rfl

theorem enumSteps_unplaced (d : Definition) : enumSteps d.unplaced = enumSteps d := by
  simp only [enumSteps, variantSteps, Definition.name_unplaced, Definition.entries_unplaced,
    List.isEmpty_map, List.map_map]
  rfl

theorem Facet.steps_unplaced (facet : Facet) (d : Definition) :
    facet.steps d.unplaced = facet.steps d := by
  cases facet with
  | fields => exact congrArg Except.ok (fieldsSteps_unplaced d)
  | constructor => exact congrArg Except.ok (constructorSteps_unplaced d)
  | size => exact congrArg Except.ok (sizeSteps_unplaced d)
  | serialize => exact congrArg Except.ok (serializeSteps_unplaced d)
  | deserialize => exact congrArg Except.ok (deserializeSteps_unplaced d)
  | binding => rfl
  | enum => exact enumSteps_unplaced d

theorem checkReference_unplaced (s : Schema) (owner : String) (f : Field) :
    checkReference s.unplaced owner f.unplaced = checkReference s owner f := by
  have same : (s.unplaced.definition? f.typeName).map Definition.isEnum =
      (s.definition? f.typeName).map Definition.isEnum := by
    rw [Schema.definition?_unplaced]
    simp [Function.comp_def]
  have named : f.unplaced.typeName = f.typeName := rfl
  simp only [checkReference, named, same]
  rfl

/-- The names of fields are checked without regard to their places. -/
theorem checkFields_unplaced (s : Schema) (owner : String) (idents consts : Taken)
    (fields : List Field) :
    checkFields s.unplaced owner idents consts (fields.map Field.unplaced) =
      checkFields s owner idents consts fields := by
  induction fields generalizing idents consts with
  | nil => rfl
  | cons f fields ih =>
    rw [List.map_cons, checkFields, checkFields, checkReference_unplaced]
    simp only [ih]
    rfl

theorem checkEntries_unplaced (owner : String) (idents : Taken) (entries : List Entry) :
    checkEntries owner idents (entries.map Entry.unplaced) = checkEntries owner idents entries := by
  induction entries generalizing idents with
  | nil => rfl
  | cons e entries ih =>
    rw [List.map_cons, checkEntries, checkEntries]
    simp only [ih]
    rfl

theorem checkDefinition_unplaced (s : Schema) (d : Definition) :
    checkDefinition s.unplaced d.unplaced = checkDefinition s d := by
  rw [checkDefinition, checkDefinition, Definition.fields_unplaced, Definition.entries_unplaced,
    checkFields_unplaced, checkEntries_unplaced]
  rfl

/-- The names of types are checked without regard to their places. -/
theorem checkTypeIdents_unplaced (idents : Taken) (definitions : List Definition) :
    checkTypeIdents idents (definitions.map Definition.unplaced) =
      checkTypeIdents idents definitions := by
  induction definitions generalizing idents with
  | nil => rfl
  | cons d definitions ih =>
    rw [List.map_cons, checkTypeIdents, checkTypeIdents]
    simp only [ih]
    rfl

theorem typeSteps_unplaced (facets : List Facet) (s : Schema) (d : Definition) :
    typeSteps facets s.unplaced d.unplaced = typeSteps facets s d := by
  have applies : (Facet.applies · d.unplaced) = (Facet.applies · d) := by
    funext facet
    rw [Facet.applies, Facet.applies, Definition.isEnum_unplaced]
  have steps : facetStep d.unplaced = facetStep d := by
    funext facet
    rw [facetStep, facetStep, Facet.steps_unplaced]
  rw [typeSteps, typeSteps, checkDefinition_unplaced, applies, steps]

/-- The code of types does not tell where they stood in the text. -/
theorem typesSteps_unplaced (facets : List Facet) (s : Schema) (definitions : List Definition) :
    typesSteps facets s.unplaced (definitions.map Definition.unplaced) =
      typesSteps facets s definitions := by
  induction definitions with
  | nil => rfl
  | cons d definitions ih => rw [List.map_cons, typesSteps, typesSteps, typeSteps_unplaced, ih]

theorem enumsFirst_unplaced (definitions : List Definition) :
    enumsFirst (definitions.map Definition.unplaced) =
      (enumsFirst definitions).map Definition.unplaced := by
  simp [enumsFirst, List.filter_map, Function.comp_def]

/-- The code does not hang on places. -/
theorem document_unplaced (facets : List Facet) (s : Schema) (sourceName : Option String) :
    document facets s.unplaced sourceName = document facets s sourceName := by
  have idents : checkTypeIdents [] s.unplaced.definitions = checkTypeIdents [] s.definitions :=
    checkTypeIdents_unplaced [] s.definitions
  have body : bodySteps facets s.unplaced = bodySteps facets s := by
    rw [bodySteps, bodySteps, show s.unplaced.definitions = s.definitions.map Definition.unplaced
      from rfl, enumsFirst_unplaced, typesSteps_unplaced]
  rw [document, document, documentSteps, documentSteps, idents, body]
  rfl

end Code

/-- What a token means: all but where it stands. -/
def Token.meaning (t : Token) : Token.Kind × String := (t.kind, t.text)

namespace Grammar

open Text Token

variable {t t' : Token} {tokens tokens' : List Token}

theorem kind_eq (same : t'.meaning = t.meaning) : t'.kind = t.kind := congrArg Prod.fst same

theorem text_eq (same : t'.meaning = t.meaning) : t'.text = t.text := congrArg Prod.snd same

theorem Plain.move (plain : Plain t) (same : t'.meaning = t.meaning) : Plain t' := by
  rwa [Plain, text_eq same]

theorem TypeText.move {type : FieldType} (text : TypeText t type)
    (same : t'.meaning = t.meaning) : TypeText t' type := by
  cases text with
  | primitive kind => exact .primitive ((kind_eq same).trans kind)
  | named kind plain named => exact .named ((kind_eq same).trans kind) (plain.move same) named

theorem Marks.move {isOptional isArray : Bool} (text : Marks tokens isOptional isArray)
    (same : tokens'.map meaning = tokens.map meaning) : Marks tokens' isOptional isArray := by
  cases text with
  | none =>
    rw [List.map_eq_nil_iff.mp same]
    exact .none
  | optional question =>
    obtain ⟨q, rest, rfl, first, same⟩ := List.map_eq_cons_iff.mp same
    rw [List.map_eq_nil_iff.mp same]
    exact .optional ((kind_eq first).trans question)
  | array brackets =>
    obtain ⟨b, rest, rfl, first, same⟩ := List.map_eq_cons_iff.mp same
    rw [List.map_eq_nil_iff.mp same]
    exact .array ((kind_eq first).trans brackets)
  | optionalArray question brackets =>
    obtain ⟨q, rest, rfl, first, same⟩ := List.map_eq_cons_iff.mp same
    obtain ⟨b, rest, rfl, second, same⟩ := List.map_eq_cons_iff.mp same
    rw [List.map_eq_nil_iff.mp same]
    exact .optionalArray ((kind_eq first).trans question) ((kind_eq second).trans brackets)
  | arrayOptional brackets question =>
    obtain ⟨b, rest, rfl, first, same⟩ := List.map_eq_cons_iff.mp same
    obtain ⟨q, rest, rfl, second, same⟩ := List.map_eq_cons_iff.mp same
    rw [List.map_eq_nil_iff.mp same]
    exact .arrayOptional ((kind_eq first).trans brackets) ((kind_eq second).trans question)

theorem Assigned.move {α : Type} {read : List Char → Option α} {auto : α → Prop} {a : α}
    (text : Assigned read auto tokens a) (same : tokens'.map meaning = tokens.map meaning) :
    Assigned read auto tokens' a := by
  cases text with
  | auto holds =>
    rw [List.map_eq_nil_iff.mp same]
    exact .auto holds
  | given equals number value =>
    obtain ⟨e, rest, rfl, first, same⟩ := List.map_eq_cons_iff.mp same
    obtain ⟨n, rest, rfl, second, same⟩ := List.map_eq_cons_iff.mp same
    rw [List.map_eq_nil_iff.mp same]
    exact .given ((kind_eq first).trans equals) ((kind_eq second).trans number)
      (by rwa [text_eq second])

/-- Tokens that mean the same derive the same item, apart from what `unplace` forgets. -/
def Moves {α : Type} (item : Nat → List Token → α → Prop) (unplace : α → α) : Prop :=
  ∀ index tokens tokens' a, item index tokens a → tokens'.map meaning = tokens.map meaning →
    ∃ a', item index tokens' a' ∧ unplace a' = unplace a

theorem moves_fieldText : Moves FieldText Field.unplaced := by
  rintro index _ tokens' _ ⟨typed, marked, named, plain, numbered, closed⟩ same
  simp only [List.map_cons, List.map_append, List.map_nil, List.map_eq_cons_iff,
    List.map_eq_append_iff, List.map_eq_nil_iff] at same
  obtain ⟨t, _, rfl, sameType, marks, _, rfl, sameMarks, name, _, rfl, sameName, number, _, rfl,
    sameNumber, close, _, rfl, sameClose, rfl⟩ := same
  refine ⟨_, .mk (typed.move sameType) (marked.move sameMarks) ((kind_eq sameName).trans named)
    (plain.move sameName) (numbered.move sameNumber) ((kind_eq sameClose).trans closed), ?_⟩
  simp only [Field.unplaced, text_eq sameType, text_eq sameName]

theorem moves_entryText : Moves EntryText Entry.unplaced := by
  rintro index _ tokens' _ ⟨named, plain, numbered, closed⟩ same
  simp only [List.map_cons, List.map_append, List.map_nil, List.map_eq_cons_iff,
    List.map_eq_append_iff, List.map_eq_nil_iff] at same
  obtain ⟨name, _, rfl, sameName, number, _, rfl, sameNumber, close, _, rfl, sameClose, rfl⟩ := same
  refine ⟨_, .mk ((kind_eq sameName).trans named) (plain.move sameName) (numbered.move sameNumber)
    ((kind_eq sameClose).trans closed), ?_⟩
  simp only [Entry.unplaced, text_eq sameName]

/-- Items are spelled by the same words at other places, up to the places. -/
theorem Items.move {α : Type} {item : Nat → List Token → α → Prop} {unplace : α → α}
    (each : Moves item unplace) {index : Nat} {items : List α}
    (text : Items item index tokens items)
    (same : tokens'.map meaning = tokens.map meaning) :
    ∃ items', Items item index tokens' items' ∧ items'.map unplace = items.map unplace := by
  induction text generalizing tokens' with
  | nil =>
    rw [List.map_eq_nil_iff.mp same]
    exact ⟨[], .nil, rfl⟩
  | cons head _ ih =>
    rw [List.map_append] at same
    obtain ⟨first, rest, rfl, sameFirst, sameRest⟩ := List.map_eq_append_iff.mp same
    obtain ⟨a', head', unplaced⟩ := each _ _ _ _ head sameFirst
    obtain ⟨items', tail', unplacedTail⟩ := ih sameRest
    refine ⟨a' :: items', .cons head' tail', ?_⟩
    rw [List.map_cons, List.map_cons, unplaced, unplacedTail]

/-- So is a definition. -/
theorem Braced.move {α : Type} {keyword : Token.Kind} {item : Nat → List Token → α → Prop}
    {body : List α → Body} {unplace : α → α} (each : Moves item unplace)
    (forgets : ∀ items, (body items).unplaced = body (items.map unplace)) {d : Definition}
    (text : Braced keyword item body tokens d) (same : tokens'.map meaning = tokens.map meaning) :
    ∃ d', Braced keyword item body tokens' d' ∧ d'.unplaced = d.unplaced := by
  obtain ⟨starts, named, plain, opened, contents, closed⟩ := text
  simp only [List.map_cons, List.map_append, List.map_nil, List.map_eq_cons_iff,
    List.map_eq_append_iff, List.map_eq_nil_iff] at same
  obtain ⟨word, _, rfl, sameWord, name, _, rfl, sameName, opening, _, rfl, sameOpening, inside, _,
    rfl, sameInside, closing, _, rfl, sameClosing, rfl⟩ := same
  obtain ⟨items', contents', unplaced⟩ := contents.move each sameInside
  refine ⟨_, .mk ((kind_eq sameWord).trans starts) ((kind_eq sameName).trans named)
    (plain.move sameName) ((kind_eq sameOpening).trans opened) contents'
    ((kind_eq sameClosing).trans closed), ?_⟩
  simp only [Definition.unplaced, forgets, unplaced, text_eq sameName]

theorem DefinitionText.move {d : Definition} (text : DefinitionText tokens d)
    (same : tokens'.map meaning = tokens.map meaning) :
    ∃ d', DefinitionText tokens' d' ∧ d'.unplaced = d.unplaced := by
  cases text with
  | message text =>
    obtain ⟨d', text', unplaced⟩ := text.move moves_fieldText (fun _ => rfl) same
    exact ⟨d', .message text', unplaced⟩
  | enum text =>
    obtain ⟨d', text', unplaced⟩ := text.move moves_entryText (fun _ => rfl) same
    exact ⟨d', .enum text', unplaced⟩

theorem DefineValue.move {value : String} (given : DefineValue t value)
    (same : t'.meaning = t.meaning) : DefineValue t' value := by
  cases given with
  | word kind => exact text_eq same ▸ .word ((kind_eq same).trans kind)
  | number kind => exact text_eq same ▸ .number ((kind_eq same).trans kind)
  | quoted kind bare =>
    exact .quoted ((kind_eq same).trans kind) (text_eq same ▸ bare)

/-- A define has no place, so it is spelled as it is. -/
theorem DefineText.move {d : Define} (text : DefineText tokens d)
    (same : tokens'.map meaning = tokens.map meaning) : DefineText tokens' d := by
  cases text with
  | plain starts named set given closed =>
    simp only [List.map_cons, List.map_nil, List.map_eq_cons_iff, List.map_eq_nil_iff] at same
    obtain ⟨hash, _, rfl, sameHash, key, _, rfl, sameKey, equals, _, rfl, sameEquals, v, _, rfl,
      sameValue, close, _, rfl, sameClose, rfl⟩ := same
    rw [← text_eq sameKey]
    exact .plain ((kind_eq sameHash).trans starts) ((kind_eq sameKey).trans named)
      ((kind_eq sameEquals).trans set) (given.move sameValue) ((kind_eq sameClose).trans closed)
  | spelled starts spelling named set given closed =>
    simp only [List.map_cons, List.map_nil, List.map_eq_cons_iff, List.map_eq_nil_iff] at same
    obtain ⟨hash, _, rfl, sameHash, word, _, rfl, sameWord, key, _, rfl, sameKey, equals, _, rfl,
      sameEquals, v, _, rfl, sameValue, close, _, rfl, sameClose, rfl⟩ := same
    rw [← text_eq sameKey]
    exact .spelled ((kind_eq sameHash).trans starts)
      ⟨(kind_eq sameWord).trans spelling.1, (text_eq sameWord).trans spelling.2⟩
      ((kind_eq sameKey).trans named) ((kind_eq sameEquals).trans set) (given.move sameValue)
      ((kind_eq sameClose).trans closed)

/-- Tokens that mean the same derive the same schema, apart from its places. -/
theorem DocumentText.move {s : Schema} (text : DocumentText tokens s)
    (same : tokens'.map meaning = tokens.map meaning) :
    ∃ s', DocumentText tokens' s' ∧ s'.unplaced = s.unplaced := by
  induction text generalizing tokens' with
  | nil =>
    rw [List.map_eq_nil_iff.mp same]
    exact ⟨_, .nil, rfl⟩
  | define head _ ih =>
    rw [List.map_append] at same
    obtain ⟨first, rest, rfl, sameFirst, sameRest⟩ := List.map_eq_append_iff.mp same
    obtain ⟨s', tail', unplaced⟩ := ih sameRest
    refine ⟨_, .define (head.move sameFirst) tail', ?_⟩
    obtain ⟨defines, definitions⟩ := Schema.mk.inj unplaced
    simp only [Schema.unplaced, defines, definitions]
  | definition head _ ih =>
    rw [List.map_append] at same
    obtain ⟨first, rest, rfl, sameFirst, sameRest⟩ := List.map_eq_append_iff.mp same
    obtain ⟨d', head', unplacedHead⟩ := head.move sameFirst
    obtain ⟨s', tail', unplaced⟩ := ih sameRest
    refine ⟨_, .definition head' tail', ?_⟩
    obtain ⟨defines, definitions⟩ := Schema.mk.inj unplaced
    simp only [Schema.unplaced, List.map_cons, unplacedHead, defines, definitions]

end Grammar

end WireSchema
