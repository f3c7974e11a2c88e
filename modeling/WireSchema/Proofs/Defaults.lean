import WireSchema.Proofs.Binding
import WireSchema.Proofs.Reading
import WireSchema.Proofs.Rules

/-!
The default of a message. The rules of a schema make it a message of its type: every enum has an
entry, and no chain of messages that hold one another is longer than the list of definitions, so the
depth that the default is built to suffices. Writing any message over the default gives that message.
-/

namespace WireSchema

open Relation

namespace Schema

/-- Values that are made for each field are those of a message. -/
theorem admitsAll_map {s : Schema} {g : Field → Value} {fields : List Field}
    (each : ∀ f ∈ fields, s.admits f (g f)) : s.admitsAll fields (fields.map g) := by
  induction fields with
  | nil => rfl
  | cons f fs ih =>
    rw [List.forall_mem_cons] at each
    exact admitsAll_cons.mpr ⟨each.1, ih each.2⟩

theorem admits_of_admitsAll_map {s : Schema} {g : Field → Value} {fields : List Field}
    (all : s.admitsAll fields (fields.map g)) : ∀ f ∈ fields, s.admits f (g f) := by
  induction fields with
  | nil => exact fun f member => absurd member List.not_mem_nil
  | cons f fs ih =>
    rw [List.map_cons, admitsAll_cons] at all
    exact List.forall_mem_cons.mpr ⟨all.1, ih all.2⟩

/-- The first entry of an enum is one of its values. -/
theorem any_defaultEntry {s : Schema} {name : String} (inhabited : s.entriesOf name ≠ []) :
    (s.entriesOf name).any fun e => e.value == s.defaultEntry name := by
  rw [defaultEntry]
  cases entries : s.entriesOf name with
  | nil => exact absurd entries inhabited
  | cons e rest => simp

/-- A default fits its field where the default of the message that it holds does. -/
theorem admits_defaultValueWith {s : Schema} {message : String → List Value} {f : Field}
    (entry : f.type = .enum → s.entriesOf f.typeName ≠ [])
    (inside : f.isInline → s.admitsAll (s.fieldsOf f.typeName) (message f.typeName)) :
    s.admits f (s.defaultValueWith message f) := by
  rw [defaultValueWith]
  cases optional : f.isOptional with
  | true => exact admits_absent.mpr optional
  | false =>
    cases array : f.isArray with
    | true => exact admits_array.mpr ⟨array, rfl⟩
    | false =>
      simp only [Bool.false_eq_true, if_false]
      cases type : f.type with
      | primitive p => exact admits_scalar.mpr ⟨array, by rw [type, Scalar.type_zero]⟩
      | enum => exact admits_enum.mpr ⟨array, type, any_defaultEntry (entry type)⟩
      | message =>
        exact admits_message.mpr ⟨array, type, inside (by simp [Field.isInline, array, type])⟩

/-- A message holds the type of each field that is held inside it. -/
theorem holds_of_isInline {s : Schema} {name : String} {f : Field} (member : f ∈ s.fieldsOf name)
    (held : f.isInline) : s.Holds name f.typeName := by
  rw [fieldsOf] at member
  split at member
  next d found =>
    exact holds_iff.mpr ⟨d, found, List.mem_map_of_mem (List.mem_filter.mpr ⟨member, held⟩)⟩
  next => cases member

/-- The default of a message is one of its values, to a depth of as many definitions as there are
behind the names that it can reach. -/
theorem admitsAll_defaultMessageTo {s : Schema}
    (finite : ∀ a, ¬ TransGen s.Holds a a)
    (entries : ∀ a, ∀ f ∈ s.fieldsOf a, f.type = .enum → s.entriesOf f.typeName ≠ [])
    (depth : Nat) (definitions : List Definition) (name : String)
    (room : definitions.length ≤ depth)
    (within : ∀ b, ReflTransGen s.Holds name b → ∀ d, s.definition? b = some d →
      definitions.find? (fun d => d.name == b) = some d) :
    s.admitsAll (s.fieldsOf name) (s.defaultMessageTo depth name) := by
  induction depth generalizing definitions name with
  | zero =>
    have none : definitions = [] := List.length_eq_zero_iff.mp (Nat.le_zero.mp room)
    subst none
    cases found : s.definition? name with
    | none => rw [fieldsOf, found]; rfl
    | some d => cases within name ReflTransGen.refl d found
  | succ depth ih =>
    rw [defaultMessageTo]
    apply admitsAll_map
    intro f member
    apply admits_defaultValueWith (entries name f member)
    intro held
    have step := holds_of_isInline member held
    have ⟨d, found, _⟩ := step
    have fewer := length_othersThan_lt (within name ReflTransGen.refl d found)
    apply ih (othersThan name definitions) f.typeName (by omega)
    intro b path e known
    -- A path on from the message held inside never comes back to `name`.
    have other : b ≠ name := by
      rintro rfl
      exact finite b (TransGen.head' step path)
    rw [find?_othersThan other]
    exact within b (path.head step) e known

/-- Values that a list of defaults gives way to. -/
theorem ontoAll_map {s : Schema} {g : Field → Value} {fields : List Field}
    (each : ∀ f ∈ fields, ∀ v, s.admits f v → v.onto (g f) = v) {new : List Value}
    (admitted : s.admitsAll fields new) : Value.ontoAll new (fields.map g) = new := by
  induction fields generalizing new with
  | nil =>
    cases new with
    | nil => rfl
    | cons v vs => cases admitted
  | cons f fs ih =>
    cases new with
    | nil => cases admitted
    | cons v vs =>
      rw [List.forall_mem_cons] at each
      rw [admitsAll_cons] at admitted
      rw [List.map_cons, Value.ontoAll, each.1 v admitted.1, ih each.2 admitted.2]

/-- A default that fits its field gives way to any value of the field. -/
theorem onto_defaultValueWith {s : Schema} {message : String → List Value} {f : Field} {v : Value}
    (fits : s.admits f (s.defaultValueWith message f)) (admitted : s.admits f v)
    (inside : ∀ new, s.admitsAll (s.fieldsOf f.typeName) (message f.typeName) →
      s.admitsAll (s.fieldsOf f.typeName) new → Value.ontoAll new (message f.typeName) = new) :
    v.onto (s.defaultValueWith message f) = v := by
  cases v with
  | scalar x => rfl
  | enum n => rfl
  | array items => rfl
  | absent =>
    rw [defaultValueWith, if_pos (admits_absent.mp admitted)]
    rfl
  | message values =>
    obtain ⟨single, type, held⟩ := admits_message.mp admitted
    rw [defaultValueWith] at fits ⊢
    split
    · rfl
    next required =>
      rw [if_neg required, single, type] at fits
      rw [single, type]
      exact congrArg Value.message (inside values (admits_message.mp fits).2.2 held)

/-- The default of a message gives way to all of its values. -/
theorem ontoAll_defaultMessageTo {s : Schema} (depth : Nat) (name : String) {new : List Value}
    (fits : s.admitsAll (s.fieldsOf name) (s.defaultMessageTo depth name))
    (admitted : s.admitsAll (s.fieldsOf name) new) :
    Value.ontoAll new (s.defaultMessageTo depth name) = new := by
  induction depth generalizing name new with
  | zero =>
    cases fields : s.fieldsOf name with
    | nil =>
      rw [fields] at admitted
      cases new with
      | nil => rfl
      | cons v vs => cases admitted
    | cons f fs => rw [fields] at fits; cases fits
  | succ depth ih =>
    apply ontoAll_map _ admitted
    intro f member v holds
    exact onto_defaultValueWith (admits_of_admitsAll_map fits f member) holds
      fun new inner held => ih f.typeName inner held

theorem exists_definition_of_mem_fieldsOf {s : Schema} {name : String} {f : Field}
    (member : f ∈ s.fieldsOf name) : ∃ d ∈ s.definitions, f ∈ d.fields := by
  rw [fieldsOf] at member
  split at member
  next d found => exact ⟨d, List.mem_of_find?_eq_some found, member⟩
  next => cases member

/-- In a lawful schema no name at all leads back to itself. -/
theorem Lawful.acyclic {s : Schema} (lawful : s.Lawful) (a : String) :
    ¬ TransGen s.Holds a a := by
  intro path
  obtain ⟨b, ⟨d, found, -⟩, -⟩ := TransGen.head'_iff.mp path
  have named : d.name = a := by simpa using List.find?_some found
  subst named
  exact lawful.finite d (List.mem_of_find?_eq_some found) path

/-- A field that holds an enum has a value to hold. -/
theorem Lawful.entriesOf_ne_nil {s : Schema} (lawful : s.Lawful) (bound : s.Bound) {d : Definition}
    (member : d ∈ s.definitions) {f : Field} (inside : f ∈ d.fields) (type : f.type = .enum) :
    s.entriesOf f.typeName ≠ [] := by
  obtain ⟨e, found, kind⟩ := bound d member f inside (by rw [type]; rfl)
  have isEnum : e.isEnum = true := by
    rw [type, Definition.kind] at kind
    by_contra other
    rw [if_neg other] at kind
    cases kind
  rw [entriesOf, found]
  exact (lawful.bodies e (List.mem_of_find?_eq_some found)).inhabited isEnum

/-- The defaults of a lawful schema are messages that give way to whatever is written over them. -/
theorem Lawful.grounded {s : Schema} (lawful : s.Lawful) (bound : s.Bound) : s.Grounded := by
  intro name
  have fits : s.admitsAll (s.fieldsOf name) (s.defaultMessage name) := by
    apply admitsAll_defaultMessageTo lawful.acyclic _ _ s.definitions name (Nat.le_refl _)
    · exact fun b _ d found => found
    · intro a f member type
      obtain ⟨d, known, inside⟩ := exists_definition_of_mem_fieldsOf member
      exact lawful.entriesOf_ne_nil bound known inside type
  exact ⟨fits, fun new admitted => ontoAll_defaultMessageTo _ name fits admitted⟩

end Schema

end WireSchema
