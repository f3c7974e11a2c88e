import WireSchema.Proofs.Casing
import WireSchema.Proofs.Declarations

/-!
When there is no code for an accepted schema. The generator refuses nothing but names: identifiers
of types, fields and variants that are none or that clash, and segments of the namespace that name
no module. Unknown types and empty enums are kept out by the rules of the schema, and constants of
fields clash only where the fields do, because a name in capitals can be put back into small letters.
-/

namespace WireSchema.Code

open Text Token Token.Rule

variable {s : Schema} {d : Definition} {u : Unsupported} {cs : List Char}

/-! Capitals and back. -/

def Small (cs : List Char) : Prop := ∀ c ∈ cs, isNamePart c = true ∧ isUpper c = false

instance (cs : List Char) : Decidable (Small cs) :=
  decidable_of_iff (cs.all (fun c => isNamePart c && !isUpper c) = true) (by simp [Small])

theorem small_lowerChar {c : Char} (part : isNamePart c = true) : Small (lowerChar c) :=
  forall_ascii (P := fun c => isNamePart c = true → Small (lowerChar c)) (by decide)
    (toNat_lt_of_isNamePart part) part

theorem small_snakeCase (parts : Parts cs) : Small (snakeCase cs) :=
  forall_mem_snakeFrom (by decide) (fun c member small => ⟨parts c member, small⟩)
    fun c member => small_lowerChar (parts c member)

/-- Constants of fields clash only where the fields do. -/
theorem fieldIdent_eq_of_fieldConst {f g : Field} {suffix : String} (first : Parts f.name.toList)
    (second : Parts g.name.toList) (same : fieldConst f suffix = fieldConst g suffix) :
    fieldIdent f = fieldIdent g := by
  have snakes : snake f.name = snake g.name :=
    (fieldConst_eq_iff first.ascii second.ascii).mp same
  rw [fieldIdent, fieldIdent, snakes]

/-- An identifier of a field has no capitals, so it is no constant of one. -/
theorem fieldIdent_ne_fieldConst {f : Field} (parts : Parts f.name.toList) (g : Field) :
    fieldIdent f ≠ fieldConst g "ID" := by
  intro same
  have inside : 'D' ∈ (fieldIdent f).toList := by
    rw [same, fieldConst, String.toList_append]
    exact List.mem_append_right _ (by decide)
  have capital : 'D' ∈ snakeCase f.name.toList := by
    rw [fieldIdent, escapeKeyword, snake] at inside
    split at inside
    · rw [String.toList_append, String.toList_ofList, List.mem_append] at inside
      exact inside.resolve_right (by decide)
    · rwa [String.toList_ofList] at inside
  exact absurd (small_snakeCase parts 'D' capital).2 (by decide)

/-! What a schema has to be like for code, and what it is blamed for. -/

theorem isDigit_of_isNameStart {c : Char} (start : isNameStart c = true) : c.isDigit = false :=
  forall_ascii (P := fun c => isNameStart c = true → c.isDigit = false) (by decide)
    (toNat_lt_of_isNamePart (isNamePart_of_isNameStart start)) start

/-- A name passes the check of identifiers. -/
theorem IsName.isIdent {name : String} (named : IsName name) : isIdent name = true := by
  obtain ⟨c, cs, whole, start, -⟩ := named.shape
  exact isIdent_iff.mpr ⟨named.solid, c, cs, whole, isDigit_of_isNameStart start⟩

/-- The namespace of a schema is what the first define with that key says, unless it is blank. -/
def InNamespace (s : Schema) (whole : String) : Prop :=
  (∃ before d after, s.defines = before ++ d :: after ∧ (∀ e ∈ before, e.key ≠ "namespace") ∧
    d.key = "namespace" ∧ d.value = whole) ∧ ∃ c ∈ whole.toList, isBlank c = false

/-- The segments of a namespace are the pieces between its dots, without the blanks at their ends
and as far as there is anything left of them. -/
def Segment (whole : String) (segment : List Char) : Prop :=
  ∃ pieces piece, Separates '.' whole.toList pieces ∧ piece ∈ pieces ∧
    Trims isBlank piece segment ∧ segment ≠ []

/-- A segment of a namespace that names a module. -/
structure IsModule (segment : List Char) : Prop where
  parts : Parts segment
  named : IsName (moduleIdent (String.ofList segment))

/-- All names of a schema make names of code, and in each scope distinct ones. -/
structure Nameable (s : Schema) : Prop where
  types : ∀ d ∈ s.definitions, IsName (typeIdent d.name) ∧ typeIdent d.name ∉ reservedTypeNames
  distinctTypes : (s.definitions.map fun d => typeIdent d.name).Nodup
  fields : ∀ d ∈ s.definitions,
    (∀ f ∈ d.fields, IsName (fieldIdent f)) ∧ (d.fields.map fieldIdent).Nodup
  variants : ∀ d ∈ s.definitions, (∀ e ∈ d.entries, IsName (variantIdent e.name)) ∧
    (d.entries.map fun e => variantIdent e.name).Nodup
  modules : ∀ whole, InNamespace s whole → ∀ segment, Segment whole segment → IsModule segment

/-- Names of a schema that stand in the way of code. -/
inductive Blames (s : Schema) : Unsupported → Prop
  | type {d : Definition} (member : d ∈ s.definitions) (bad : ¬ IsName (typeIdent d.name)) :
    Blames s (.notIdent d.name d.name (typeIdent d.name))
  | reserved {d : Definition} (member : d ∈ s.definitions)
    (reserved : typeIdent d.name ∈ reservedTypeNames) :
    Blames s (.reservedName d.name (typeIdent d.name))
  | types {d e : Definition} (inside : [d, e].Sublist s.definitions)
    (same : typeIdent d.name = typeIdent e.name) :
    Blames s (.typeClash d.name e.name (typeIdent e.name))
  | field {d : Definition} {f : Field} (member : d ∈ s.definitions) (inside : f ∈ d.fields)
    (bad : ¬ IsName (fieldIdent f)) : Blames s (.notIdent d.name f.name (fieldIdent f))
  | fields {d : Definition} {f g : Field} (member : d ∈ s.definitions)
    (inside : [f, g].Sublist d.fields) (same : fieldIdent f = fieldIdent g) :
    Blames s (.fieldClash d.name f.name g.name (fieldIdent g))
  | variant {d : Definition} {e : Entry} (member : d ∈ s.definitions) (inside : e ∈ d.entries)
    (bad : ¬ IsName (variantIdent e.name)) :
    Blames s (.notIdent d.name e.name (variantIdent e.name))
  | variants {d : Definition} {e e' : Entry} (member : d ∈ s.definitions)
    (inside : [e, e'].Sublist d.entries) (same : variantIdent e.name = variantIdent e'.name) :
    Blames s (.entryClash d.name e.name e'.name (variantIdent e'.name))
  | module {whole : String} {segment : List Char} (defined : InNamespace s whole)
    (inside : Segment whole segment) (bad : ¬ IsModule segment) :
    Blames s (.badNamespace whole (String.ofList segment))

theorem not_nodup_of_sublist {α : Type} (key : α → String) {a b : α} {l : List α}
    (inside : [a, b].Sublist l) (same : key a = key b) : ¬ (l.map key).Nodup := by
  intro distinct
  have pair := distinct.sublist (inside.map key)
  simp [same] at pair

/-- What is blamed is wrong. -/
theorem Blames.not_nameable (blames : Blames s u) : ¬ Nameable s := by
  intro nameable
  cases blames with
  | type member bad => exact bad (nameable.types _ member).1
  | reserved member reserved => exact (nameable.types _ member).2 reserved
  | types inside same => exact not_nodup_of_sublist _ inside same nameable.distinctTypes
  | field member inside bad => exact bad ((nameable.fields _ member).1 _ inside)
  | fields member inside same =>
    exact not_nodup_of_sublist _ inside same (nameable.fields _ member).2
  | variant member inside bad => exact bad ((nameable.variants _ member).1 _ inside)
  | variants member inside same =>
    exact not_nodup_of_sublist (fun e : Entry => variantIdent e.name) inside same
      (nameable.variants _ member).2
  | module defined inside bad => exact bad (nameable.modules _ defined _ inside)

/-! Why a check fails. -/

theorem bind_eq_error_iff {ε α β : Type} {x : Except ε α} {f : α → Except ε β} {e : ε} :
    x >>= f = .error e ↔ x = .error e ∨ ∃ a, x = .ok a ∧ f a = .error e := by
  cases x <;> simp [bind, Except.bind]

/-- A traversal fails at one of its elements. -/
theorem exists_of_mapM_eq_error {ε α β : Type} {f : α → Except ε β} {l : List α} {e : ε}
    (fails : l.mapM f = .error e) : ∃ a ∈ l, f a = .error e := by
  induction l with
  | nil => cases fails
  | cons a l ih =>
    rw [List.mapM_cons, bind_eq_error_iff] at fails
    rcases fails with fails | ⟨b, -, fails⟩
    · exact ⟨a, List.mem_cons_self, fails⟩
    · rcases bind_eq_error_iff.mp fails with fails | ⟨bs, -, done⟩
      · obtain ⟨a', inside, fails⟩ := ih fails
        exact ⟨a', List.mem_cons_of_mem a inside, fails⟩
      · cases done

/-- An identifier is refused only if it is not a name. -/
theorem checkIdent_eq_error {owner name ident : String}
    (fails : checkIdent owner name ident = .error u) :
    ¬ IsName ident ∧ u = .notIdent owner name ident := by
  rw [checkIdent] at fails
  split at fails
  next => cases fails
  next bad =>
    cases fails
    exact ⟨fun named => bad named.isIdent, rfl⟩

section

variable {α : Type} {key name : α → String} {before : List α} {a : α}

/-- Identifiers as items before have taken them, the last one in front. -/
def takenBy (key name : α → String) (before : List α) : Taken :=
  (before.map fun a => (key a, name a)).reverse

theorem takenBy_concat : takenBy key name (before ++ [a]) =
    (key a, name a) :: takenBy key name before := by
  simp [takenBy]

theorem mem_takenBy {ident : String} :
    ident ∈ (takenBy key name before).map Prod.fst ↔ ∃ a ∈ before, key a = ident := by
  simp [takenBy]

/-- A name is taken only if none before it has its key. -/
theorem take_takenBy_eq_ok {clash : String → Unsupported} {taken : Taken}
    (taking : take (takenBy key name before) (name a) (key a) clash = .ok taken) :
    (∀ b ∈ before, key b ≠ key a) ∧ taken = takenBy key name (before ++ [a]) := by
  obtain ⟨free, rfl⟩ := take_eq_ok_iff.mp taking
  exact ⟨fun b member same => free (mem_takenBy.mpr ⟨b, member, same⟩), takenBy_concat.symm⟩

/-- The clash is with an item before. -/
theorem take_takenBy_eq_error {ident second : String} {clash : String → Unsupported}
    (fails : take (takenBy key name before) second ident clash = .error u) :
    ∃ b ∈ before, key b = ident ∧ u = clash (name b) := by
  rw [take] at fails
  split at fails
  next first found =>
    cases fails
    obtain ⟨p, member, rfl, rfl⟩ : ∃ p ∈ takenBy key name before, p.1 = ident ∧ p.2 = first := by
      obtain ⟨before, after, whole, -⟩ := List.lookup_eq_some_iff.mp found
      exact ⟨(ident, first), by simp [whole], rfl, rfl⟩
    obtain ⟨b, inside, rfl⟩ := List.mem_map.mp (List.mem_reverse.mp member)
    exact ⟨b, inside, rfl, rfl⟩
  next => cases fails

theorem pair_sublist {b : α} {rest : List α} (member : b ∈ before) :
    [b, a].Sublist (before ++ a :: rest) :=
  List.Sublist.append (List.singleton_sublist.mpr member) (by simp : [a].Sublist (a :: rest))

end

/-- Refused for the names of its types, a schema has two that clash. -/
theorem blames_of_checkTypeIdents {before rest : List Definition}
    (whole : s.definitions = before ++ rest)
    (fails : checkTypeIdents (takenBy (fun d => typeIdent d.name) Definition.name before) rest =
      .error u) : Blames s u := by
  induction rest generalizing before with
  | nil => cases fails
  | cons d rest ih =>
    rcases bind_eq_error_iff.mp fails with fails | ⟨taken, taking, fails⟩
    · obtain ⟨e, member, same, rfl⟩ := take_takenBy_eq_error fails
      exact .types (whole ▸ pair_sublist member) same
    · obtain ⟨-, rfl⟩ := take_takenBy_eq_ok taking
      exact ih (by rw [whole, List.append_assoc]; rfl) fails

/-- Refused for an entry, a schema has one without a name or two that clash. -/
theorem blames_of_checkEntries (member : d ∈ s.definitions) {before rest : List Entry}
    (whole : d.entries = before ++ rest)
    (fails : checkEntries d.name (takenBy (fun e => variantIdent e.name) Entry.name before) rest =
      .error u) : Blames s u := by
  induction rest generalizing before with
  | nil => cases fails
  | cons e rest ih =>
    rcases bind_eq_error_iff.mp fails with fails | ⟨-, -, fails⟩
    · obtain ⟨bad, rfl⟩ := checkIdent_eq_error fails
      exact .variant member (by simp [whole]) bad
    rcases bind_eq_error_iff.mp fails with fails | ⟨taken, taking, fails⟩
    · obtain ⟨b, inside, same, rfl⟩ := take_takenBy_eq_error fails
      exact .variants member (whole ▸ pair_sublist inside) same
    · obtain ⟨-, rfl⟩ := take_takenBy_eq_ok taking
      exact ih (by rw [whole, List.append_assoc]; rfl) fails

/-- Where the references are known, fields fail for their identifiers; once these are free, so are
the constants. -/
theorem blames_of_checkFields (member : d ∈ s.definitions) (lettered : Lettered d)
    (known : ∀ f ∈ d.fields, checkReference s d.name f = .ok ()) {before rest : List Field}
    (whole : d.fields = before ++ rest)
    (fails : checkFields s d.name (takenBy fieldIdent Field.name before)
      (takenBy (fieldConst · "ID") Field.name before) rest = .error u) : Blames s u := by
  induction rest generalizing before with
  | nil => cases fails
  | cons f rest ih =>
    have inside : f ∈ d.fields := by simp [whole]
    rw [checkFields, known f inside] at fails
    rcases bind_eq_error_iff.mp fails with fails | ⟨-, -, fails⟩
    · cases fails
    rcases bind_eq_error_iff.mp fails with fails | ⟨-, -, fails⟩
    · obtain ⟨bad, rfl⟩ := checkIdent_eq_error fails
      exact .field member inside bad
    rcases bind_eq_error_iff.mp fails with fails | ⟨idents, taking, fails⟩
    · obtain ⟨g, earlier, same, rfl⟩ := take_takenBy_eq_error fails
      exact .fields member (whole ▸ pair_sublist earlier) same
    obtain ⟨free, rfl⟩ := take_takenBy_eq_ok taking
    rcases bind_eq_error_iff.mp fails with fails | ⟨consts, taking, fails⟩
    · obtain ⟨g, earlier, same, -⟩ := take_takenBy_eq_error fails
      have other : g ∈ d.fields := by rw [whole]; exact List.mem_append_left _ earlier
      exact absurd (fieldIdent_eq_of_fieldConst (lettered.fields g other)
        (lettered.fields f inside) same) (free g earlier)
    · obtain ⟨-, rfl⟩ := take_takenBy_eq_ok taking
      exact ih (by rw [whole, List.append_assoc]; rfl) fails

theorem blames_of_checkTypeName (member : d ∈ s.definitions)
    (fails : checkTypeName d = .error u) : Blames s u := by
  rcases bind_eq_error_iff.mp fails with fails | ⟨-, -, fails⟩
  · obtain ⟨bad, rfl⟩ := checkIdent_eq_error fails
    exact .type member bad
  · split at fails
    next reserved =>
      cases fails
      exact .reserved member (List.contains_iff_mem.mp reserved)
    next => cases fails

/-- In a bound schema no reference is refused. -/
theorem checkReference_of_bound (bound : s.Bound) (member : d ∈ s.definitions) {f : Field}
    (inside : f ∈ d.fields) : checkReference s d.name f = .ok () := by
  have reference := bound d member f inside
  rw [checkReference]
  cases type : f.type with
  | primitive p => rfl
  | enum =>
    obtain ⟨e, found, same⟩ := reference (by rw [type]; rfl)
    have isEnum : e.isEnum = true := by simpa [type, Definition.kind] using same
    simp [found, isEnum]
  | message =>
    obtain ⟨e, found, same⟩ := reference (by rw [type]; rfl)
    have isEnum : e.isEnum = false := by simpa [type, Definition.kind] using same
    simp [found, isEnum]

/-- Refused for a definition, a schema has one of these faults in it. -/
theorem blames_of_checkDefinition (bound : s.Bound) (member : d ∈ s.definitions)
    (lettered : Lettered d) (fails : checkDefinition s d = .error u) : Blames s u := by
  rcases bind_eq_error_iff.mp fails with fails | ⟨-, -, fails⟩
  · exact blames_of_checkTypeName member fails
  rcases bind_eq_error_iff.mp fails with fails | ⟨-, -, fails⟩
  · exact blames_of_checkFields member lettered
      (fun f inside => checkReference_of_bound bound member inside) (List.nil_append _).symm fails
  · exact blames_of_checkEntries member (List.nil_append _).symm fails

/-- Only an enum without entries has a facet without code. -/
theorem facetStep_ne_error (inhabited : d.isEnum → d.entries ≠ []) {facet : Facet}
    (applies : facet.applies d = true) : facetStep d facet ≠ .error u := by
  intro fails
  rcases bind_eq_error_iff.mp fails with fails | ⟨_, -, fails⟩
  · cases facet with
    | enum =>
      rw [Facet.steps, enumSteps, if_neg] at fails
      · cases fails
      · exact fun none => inhabited applies (List.isEmpty_iff.mp none)
    | _ => cases fails
  · cases fails

theorem blames_of_typeSteps {facets : List Facet} (bound : s.Bound) (member : d ∈ s.definitions)
    (lettered : Lettered d) (inhabited : d.isEnum → d.entries ≠ [])
    (fails : typeSteps facets s d = .error u) : Blames s u := by
  rcases bind_eq_error_iff.mp fails with fails | ⟨_, -, fails⟩
  · exact blames_of_checkDefinition bound member lettered fails
  rcases bind_eq_error_iff.mp fails with fails | ⟨_, -, fails⟩
  · obtain ⟨facet, inside, fails⟩ := exists_of_mapM_eq_error fails
    exact absurd fails (facetStep_ne_error inhabited (List.mem_filter.mp inside).2)
  · cases fails

theorem exists_of_typesSteps_eq_error {facets : List Facet} {definitions : List Definition}
    (fails : typesSteps facets s definitions = .error u) :
    ∃ d ∈ definitions, typeSteps facets s d = .error u := by
  induction definitions with
  | nil => cases fails
  | cons d definitions ih =>
    rcases bind_eq_error_iff.mp fails with fails | ⟨_, -, fails⟩
    · exact ⟨d, List.mem_cons_self, fails⟩
    rcases bind_eq_error_iff.mp fails with fails | ⟨_, -, fails⟩
    · obtain ⟨e, member, fails⟩ := ih fails
      exact ⟨e, List.mem_cons_of_mem d member, fails⟩
    · cases fails

/-- Case keeps a digit in front in its place. -/
theorem isDigit_of_isName_moduleIdent {c : Char}
    (named : IsName (moduleIdent (String.ofList (c :: cs)))) : c.isDigit = false := by
  by_contra digit
  rw [Bool.not_eq_false] at digit
  have small : isUpper c = false :=
    forall_ascii (P := fun c => isNamePart c = true → c.isDigit = true → isUpper c = false)
      (by decide) (toNat_lt_of_isNamePart (by simp [isNamePart, Char.isAlphanum, digit]))
      (by simp [isNamePart, Char.isAlphanum, digit]) digit
  have cased : snakeCase (c :: cs) = c :: snakeFrom (some c) cs := by
    rw [snakeCase, snakeFrom, if_neg (by simp [small])]
  have first : ∃ rest, (moduleIdent (String.ofList (c :: cs))).toList = c :: rest := by
    rw [moduleIdent, snake, String.toList_ofList, cased, escapeKeyword]
    split
    · rw [String.toList_append, String.toList_ofList]
      exact ⟨_, rfl⟩
    · exact ⟨_, String.toList_ofList⟩
  obtain ⟨rest, whole⟩ := first
  obtain ⟨d, ds, whole', start, -⟩ := named.shape
  obtain ⟨rfl, -⟩ := List.cons.inj (whole.symm.trans whole')
  rw [isDigit_of_isNameStart start] at digit
  cases digit

theorem isModule_iff {segment : List Char} :
    IsModule segment ↔
      (isSegment segment && isIdent (moduleIdent (String.ofList segment))) = true := by
  rw [Bool.and_eq_true, isSegment.eq_def, Bool.and_eq_true, List.all_eq_true]
  constructor
  · rintro ⟨parts, named⟩
    refine ⟨⟨parts, ?_⟩, named.isIdent⟩
    cases segment with
    | nil => rfl
    | cons c cs => simp [isDigit_of_isName_moduleIdent named]
  · rintro ⟨⟨parts, -⟩, ident⟩
    exact ⟨parts, isName_moduleIdent (by rwa [String.toList_ofList]) ident⟩

theorem trims_isBlank_iff {piece segment : List Char} :
    Trims isBlank piece segment ↔ segment = trim piece :=
  trims_iff

/-- What is cut out of a namespace is its segments. -/
theorem mem_segments_iff {whole : String} {segment : List Char} :
    segment ∈ segments whole ↔ Segment whole segment := by
  simp only [segments, Segment, List.mem_filter, List.mem_map, separates_iff, trims_isBlank_iff,
    Bool.not_eq_true', List.isEmpty_eq_false_iff]
  constructor
  · rintro ⟨⟨piece, member, rfl⟩, solid⟩
    exact ⟨_, piece, rfl, member, rfl, solid⟩
  · rintro ⟨_, piece, rfl, member, rfl, solid⟩
    exact ⟨⟨piece, member, rfl⟩, solid⟩

/-- Trimming leaves nothing of a text exactly if there is nothing but blanks in it. -/
theorem isEmpty_trim_eq_false_iff {cs : List Char} :
    (trim cs).isEmpty = false ↔ ∃ c ∈ cs, isBlank c = false := by
  obtain ⟨⟨front, back, whole, before, behind⟩, first, -⟩ := trims_isBlank_iff.mpr (Eq.refl (trim cs))
  constructor
  · intro solid
    obtain ⟨c, rest, left⟩ := List.exists_cons_of_ne_nil (List.isEmpty_eq_false_iff.mp solid)
    refine ⟨c, ?_, first c (by rw [left]; rfl)⟩
    rw [whole, left]
    simp
  · rintro ⟨c, member, solid⟩
    rw [List.isEmpty_eq_false_iff]
    intro none
    rw [whole, none, List.nil_append, List.mem_append] at member
    rcases member with member | member
    · rw [before c member] at solid
      cases solid
    · rw [behind c member] at solid
      cases solid

/-- The namespace is the one that is defined first, unless it is blank. -/
theorem namespace?_eq_some_iff {whole : String} : s.namespace? = some whole ↔ InNamespace s whole := by
  rw [Schema.namespace?, Option.filter_eq_some_iff, Bool.not_eq_true', isEmpty_trim_eq_false_iff,
    InNamespace, Schema.define?, Option.map_eq_some_iff]
  refine and_congr_left fun _ => ?_
  simp only [List.find?_eq_some_iff_append, beq_iff_eq, Bool.not_eq_true', beq_eq_false_iff_ne]
  constructor
  · rintro ⟨d, ⟨key, before, after, split, others⟩, value⟩
    exact ⟨before, d, after, split, others, key, value⟩
  · rintro ⟨before, d, after, split, others, key, value⟩
    exact ⟨d, ⟨key, before, after, split, others⟩, value⟩

/-- Refused for its namespace, a schema has a segment that is no module. -/
theorem blames_of_modulesOf (fails : modulesOf s = .error u) : Blames s u := by
  rw [modulesOf] at fails
  split at fails
  next whole defined =>
    obtain ⟨segment, inside, fails⟩ := exists_of_mapM_eq_error fails
    rw [moduleName] at fails
    split at fails
    next => cases fails
    next bad =>
      cases fails
      exact .module (namespace?_eq_some_iff.mp defined) (mem_segments_iff.mp inside)
        fun valid => bad (isModule_iff.mp valid)
  next => cases fails

/-- An accepted schema is blamed for its names only. -/
theorem blames_of_document {text : String} {facets : List Facet} {sourceName : Option String}
    (parses : Schema.parse text = .ok s) (fails : document facets s sourceName = .error u) :
    Blames s u := by
  obtain ⟨tokens, -, accepted⟩ := Schema.parse_eq_ok_iff.mp parses
  have bound := Schema.bound_of_ofTokens accepted
  have lawful := Schema.lawful_of_ofTokens accepted
  rcases bind_eq_error_iff.mp fails with fails | ⟨_, -, fails⟩
  · rcases bind_eq_error_iff.mp fails with fails | ⟨-, -, fails⟩
    · exact blames_of_checkTypeIdents (List.nil_append _).symm fails
    rcases bind_eq_error_iff.mp fails with fails | ⟨_, -, fails⟩
    · rcases bind_eq_error_iff.mp fails with fails | ⟨_, -, fails⟩
      · obtain ⟨d, member, fails⟩ := exists_of_typesSteps_eq_error fails
        rw [mem_enumsFirst] at member
        exact blames_of_typeSteps bound member (lettered_of_parse parses d member)
          (lawful.bodies d member).inhabited fails
      · cases fails
    rcases bind_eq_error_iff.mp fails with fails | ⟨_, -, fails⟩
    · exact blames_of_modulesOf fails
    · cases fails
  · cases fails

theorem exists_of_mem_of_mapM {ε α β : Type} {f : α → Except ε β} {l : List α} {bs : List β}
    (done : l.mapM f = .ok bs) {a : α} (member : a ∈ l) : ∃ b, f a = .ok b := by
  induction l generalizing bs with
  | nil => cases member
  | cons a' l ih =>
    rw [List.mapM_cons, bind_eq_ok_iff] at done
    obtain ⟨b, here, done⟩ := done
    obtain ⟨others, later, -⟩ := bind_eq_ok_iff.mp done
    rcases List.mem_cons.mp member with rfl | member
    · exact ⟨b, here⟩
    · exact ih later member

theorem isModule_of_modulesOf {modules : List String} (found : modulesOf s = .ok modules)
    {whole : String} (defined : InNamespace s whole) {segment : List Char}
    (inside : Segment whole segment) : IsModule segment := by
  rw [modulesOf, namespace?_eq_some_iff.mpr defined] at found
  obtain ⟨name, named⟩ := exists_of_mem_of_mapM found (mem_segments_iff.mpr inside)
  rw [moduleName] at named
  split at named
  next valid => exact isModule_iff.mpr valid
  next => cases named

/-- A schema whose code is written has names throughout. -/
theorem nameable_of_document {text code : String} {facets : List Facet}
    {sourceName : Option String} (parses : Schema.parse text = .ok s)
    (done : document facets s sourceName = .ok code) : Nameable s := by
  obtain ⟨steps, built, -⟩ := bind_eq_ok_iff.mp done
  obtain ⟨distinct, checked⟩ := checked_of_documentSteps built
  have named : ∀ d ∈ s.definitions, WellNamed d := fun d member =>
    (lettered_of_parse parses d member).wellNamed (checked d member)
  obtain ⟨-, built⟩ := then_eq_ok_iff.mp built
  obtain ⟨_, -, built⟩ := bind_eq_ok_iff.mp built
  obtain ⟨modules, found, -⟩ := bind_eq_ok_iff.mp built
  exact {
    types := fun d member => ⟨(named d member).type, (named d member).unreserved⟩
    distinctTypes := distinct
    fields := fun d member => ⟨(named d member).fields, (named d member).distinctFields⟩
    variants := fun d member => ⟨(named d member).variants, (named d member).distinctVariants⟩
    modules := fun _ defined _ inside => isModule_of_modulesOf found defined inside }

theorem compile_of_parse {name text : String} (parses : Schema.parse text = .ok s) :
    compile name text = (document Facet.all s (some name)).mapError .unsupported := by
  simp only [compile, parses]
  cases document Facet.all s (some name) <;> rfl

/-- A field is blamed for its identifier, never for a constant. -/
theorem Blames.ne_fieldConst (blames : Blames s u) (lettered : ∀ d ∈ s.definitions, Lettered d)
    (owner first second : String) (f : Field) :
    u ≠ .fieldClash owner first second (fieldConst f "ID") := by
  rintro rfl
  generalize constant : fieldConst f "ID" = ident at blames
  cases blames with
  | @fields d _ g member inside _ =>
    have parts := (lettered d member).fields g (inside.subset (by simp))
    exact fieldIdent_ne_fieldConst parts f constant.symm

/-- For an accepted schema there is code exactly if its names make names of code. Where they do not,
such a name is blamed: never a type that is unknown, an enum that is empty or a constant. -/
theorem compile_refuses_names_only {name text : String} (parses : Schema.parse text = .ok s) :
    ((∃ code, compile name text = .ok code) ↔ Nameable s) ∧
      (¬ Nameable s → ∃ u, compile name text = .error (.unsupported u) ∧ Blames s u ∧
        (∀ type field owner, u ≠ .unknownType type field owner) ∧
        (∀ enum, u ≠ .emptyEnum enum) ∧
        ∀ owner first second f, u ≠ .fieldClash owner first second (fieldConst f "ID")) := by
  rw [compile_of_parse parses]
  cases done : document Facet.all s (some name) with
  | ok code =>
    have nameable := nameable_of_document parses done
    exact ⟨⟨fun _ => nameable, fun _ => ⟨code, rfl⟩⟩, fun other => absurd nameable other⟩
  | error u =>
    have blames := blames_of_document parses done
    have other := blames.not_nameable
    refine ⟨⟨nofun, fun nameable => absurd nameable other⟩, fun _ => ⟨u, rfl, blames, ?_, ?_, ?_⟩⟩
    · rintro _ _ _ rfl
      cases blames
    · rintro _ rfl
      cases blames
    · exact blames.ne_fieldConst (lettered_of_parse parses)

/-- Two fields of one name but for its case. -/
def twinText : String := "message a\x7bint x;int X;\x7d"

def twinTokens : List Token :=
  [⟨.message, "message", 0, ⟨1, 1⟩⟩, ⟨.blank, " ", 7, ⟨1, 8⟩⟩, ⟨.identifier, "a", 8, ⟨1, 9⟩⟩,
    ⟨.openBrace, "\x7b", 9, ⟨1, 10⟩⟩, ⟨.primitive .int, "int", 10, ⟨1, 11⟩⟩,
    ⟨.blank, " ", 13, ⟨1, 14⟩⟩, ⟨.identifier, "x", 14, ⟨1, 15⟩⟩, ⟨.semicolon, ";", 15, ⟨1, 16⟩⟩,
    ⟨.primitive .int, "int", 16, ⟨1, 17⟩⟩, ⟨.blank, " ", 19, ⟨1, 20⟩⟩,
    ⟨.identifier, "X", 20, ⟨1, 21⟩⟩, ⟨.semicolon, ";", 21, ⟨1, 22⟩⟩,
    ⟨.closeBrace, "\x7d", 22, ⟨1, 23⟩⟩, ⟨.finish, "", 23, ⟨1, 24⟩⟩]

def twinSchema : Schema :=
  ⟨[], [⟨"a", ⟨1, 9⟩, .message
    [⟨.primitive .int, "int", "x", 0, false, false, ⟨1, 11⟩⟩,
      ⟨.primitive .int, "int", "X", 1, false, false, ⟨1, 17⟩⟩]⟩]⟩

theorem twin_parsed : Schema.parse twinText = .ok twinSchema := by
  refine Schema.parse_eq_ok_iff.mpr ⟨twinTokens, lex_eq_ok_iff.mpr (by decide +kernel), ?_⟩
  rw [Schema.ofTokens_eq_ok_iff_draft]
  exact ⟨by decide +kernel, by decide +kernel, by decide +kernel,
    twinSchema.issues_eq_nil_iff.mp (by cbv)⟩

/-- A namespace with a segment that is a number. -/
def versionText : String := "#namespace=\"net.2\";"

def versionTokens : List Token :=
  [⟨.hash, "#", 0, ⟨1, 1⟩⟩, ⟨.identifier, "namespace", 1, ⟨1, 2⟩⟩, ⟨.equals, "=", 10, ⟨1, 11⟩⟩,
    ⟨.quoted, "\"net.2\"", 11, ⟨1, 12⟩⟩, ⟨.semicolon, ";", 18, ⟨1, 19⟩⟩,
    ⟨.finish, "", 19, ⟨1, 20⟩⟩]

def versionSchema : Schema := ⟨[⟨"namespace", "net.2"⟩], []⟩

theorem version_parsed : Schema.parse versionText = .ok versionSchema := by
  refine Schema.parse_eq_ok_iff.mpr ⟨versionTokens, lex_eq_ok_iff.mpr (by decide), ?_⟩
  apply Schema.ofTokens_of_derived
  · have bare : Trims (· == '"') "\"net.2\"".toList "net.2".toList := trims_iff.mpr (by decide)
    exact .define (.plain rfl rfl rfl (.quoted rfl bare) rfl) .nil
  · exact fun d member => by cases member
  · exact versionSchema.issues_eq_nil_iff.mp (by decide)

theorem version_segments : segments "net.2" = [['n', 'e', 't'], ['2']] := by
  rw [segments, String.toList_ofList]
  decide

theorem inNamespace_version : InNamespace versionSchema "net.2" :=
  ⟨⟨[], ⟨"namespace", "net.2"⟩, [], rfl, nofun, rfl, rfl⟩, 'n', by decide, by decide⟩

theorem not_isModule_two : ¬ IsModule ['2'] := fun valid =>
  absurd (isModule_iff.mp valid) (by decide)

theorem compile_refuses_names_only_twin :
    Nameable selfSchema ∧ ¬ Nameable twinSchema ∧
      (∃ u, compile "twin" twinText = .error (.unsupported u) ∧ Blames twinSchema u) ∧
      ¬ Nameable versionSchema ∧
      compile "version" versionText = .error (.unsupported (.badNamespace "net.2" "2")) := by
  have twins : ¬ Nameable twinSchema := fun nameable =>
    absurd (nameable.fields _ List.mem_cons_self).2 (by decide +kernel)
  have version : ¬ Nameable versionSchema := fun nameable =>
    not_isModule_two (nameable.modules _ inNamespace_version _
      (mem_segments_iff.mp (by rw [version_segments]; decide)))
  obtain ⟨u, fails, blames, -⟩ := (compile_refuses_names_only twin_parsed).2 twins
  obtain ⟨v, refused, blamed, -⟩ := (compile_refuses_names_only version_parsed).2 version
  refine ⟨(compile_refuses_names_only self_parsed).1.mp self_compiled, twins, ⟨u, fails, blames⟩,
    version, ?_⟩
  rw [refused]
  -- There is nothing but the namespace to blame, and its first segment names a module.
  cases blamed with
  | @module whole segment defined inside bad =>
    obtain rfl : "net.2" = whole := Option.some.inj (namespace?_eq_some_iff.mpr defined)
    rw [← mem_segments_iff, version_segments] at inside
    rcases List.mem_cons.mp inside with rfl | inside
    · exact absurd (isModule_iff.mpr (by decide)) bad
    · obtain rfl := List.mem_singleton.mp inside
      rfl
  | type member | reserved member | field member | fields member | variant member
  | variants member => cases member
  | types inside => cases inside

end WireSchema.Code
