import WireSchema.Schema.Parse

/-!
Type names and what they stand for. A draft takes every named type for a message; where each of
them has a definition, resolving binds the name to what its first definition is. Conversely a bound
schema comes back from its draft.
-/

namespace WireSchema

def Definition.kind (d : Definition) : FieldType := if d.isEnum then .enum else .message

def FieldType.isNamed : FieldType → Bool
  | .primitive _ => false
  | _ => true

namespace Schema

/-- Every named type of a field has a definition, and the first one says what the field holds. -/
def Bound (s : Schema) : Prop :=
  ∀ d ∈ s.definitions, ∀ f ∈ d.fields, f.type.isNamed →
    ∃ e, s.definition? f.typeName = some e ∧ f.type = e.kind

end Schema

/-- The same definition with its fields changed; an enum has none. -/
def Definition.mapFields (g : Field → Field) (d : Definition) : Definition :=
  match d.body with
  | .message fields => { d with body := .message (fields.map g) }
  | .enum _ => d

section

variable (g : Field → Field)

@[simp] theorem Definition.name_mapFields (d : Definition) : (d.mapFields g).name = d.name := by
  obtain ⟨name, place, body⟩ := d
  cases body <;> rfl

@[simp] theorem Definition.fields_mapFields (d : Definition) :
    (d.mapFields g).fields = d.fields.map g := by
  obtain ⟨name, place, body⟩ := d
  cases body <;> rfl

@[simp] theorem Definition.kind_mapFields (d : Definition) : (d.mapFields g).kind = d.kind := by
  obtain ⟨name, place, body⟩ := d
  cases body <;> rfl

def Schema.mapFields (s : Schema) : Schema :=
  { s with definitions := s.definitions.map (Definition.mapFields g) }

/-- A change of fields does not change which definition a name stands for. -/
theorem Schema.definition?_mapFields (s : Schema) (name : String) :
    (s.mapFields g).definition? name = (s.definition? name).map (Definition.mapFields g) := by
  rw [definition?, mapFields, List.find?_map]
  simp only [Function.comp_def, Definition.name_mapFields]
  rfl

end

theorem Definition.mapFields_mapFields (g h : Field → Field) (d : Definition) :
    (d.mapFields g).mapFields h = d.mapFields (h ∘ g) := by
  obtain ⟨name, place, body⟩ := d
  cases body with
  | message fields => simp [mapFields]
  | enum entries => rfl

/-- A change that changes none of its fields leaves a definition as it is. -/
theorem Definition.mapFields_eq_self {g : Field → Field} {d : Definition}
    (same : ∀ f ∈ d.fields, g f = f) : d.mapFields g = d := by
  obtain ⟨name, place, body⟩ := d
  cases body with
  | message fields =>
    have kept : fields.map g = fields := (List.map_congr_left same).trans (List.map_id' _)
    simp only [mapFields, kept]
  | enum entries => rfl

namespace Field

/-- Binding leaves built-in types alone. -/
theorem resolve_of_builtIn {s : Schema} {f : Field} (builtIn : f.type.isNamed = false) :
    f.resolve s = f := by
  obtain ⟨type, typeName, name, id, isOptional, isArray, place⟩ := f
  cases type with
  | primitive p => rfl
  | enum => cases builtIn
  | message => cases builtIn

/-- Binding gives a named type the kind of the definition that is found. -/
theorem resolve_of_named {s : Schema} {f : Field} {e : Definition} (named : f.type.isNamed)
    (found : s.definition? f.typeName = some e) : f.resolve s = { f with type := e.kind } := by
  obtain ⟨type, typeName, name, id, isOptional, isArray, place⟩ := f
  cases type with
  | primitive p => cases named
  | enum => rw [resolve, found]; rfl
  | message => rw [resolve, found]; rfl

theorem unresolvedIssues_eq_nil_iff (s : Schema) (f : Field) :
    f.unresolvedIssues s = [] ↔ (f.type.isNamed → ∃ e, s.definition? f.typeName = some e) := by
  rw [unresolvedIssues, ← Option.ne_none_iff_exists']
  cases f.type <;> simp [FieldType.isNamed]

/-- The field before its type name is bound. -/
def draft (f : Field) : Field := if f.type.isNamed then { f with type := .message } else f

end Field

namespace Schema

theorem resolve_eq (s : Schema) : s.resolve = s.mapFields (Field.resolve s) := rfl

/-- The schema before its type names are bound. -/
def draft (s : Schema) : Schema := s.mapFields Field.draft

/-- No type is unknown where every named type has a definition. -/
theorem unresolvedIssues_eq_nil_iff (s : Schema) :
    s.unresolvedIssues = [] ↔
      ∀ d ∈ s.definitions, ∀ f ∈ d.fields, f.type.isNamed →
        ∃ e, s.definition? f.typeName = some e := by
  simp only [unresolvedIssues, List.flatMap_eq_nil_iff, Field.unresolvedIssues_eq_nil_iff]

/-- Resolving binds every type name. -/
theorem bound_resolve {s : Schema} (known : s.unresolvedIssues = []) : s.resolve.Bound := by
  rw [unresolvedIssues_eq_nil_iff] at known
  rw [resolve_eq]
  intro d' memberD f' memberF named
  obtain ⟨d, member, rfl⟩ := List.mem_map.mp memberD
  rw [Definition.fields_mapFields] at memberF
  obtain ⟨f, inside, rfl⟩ := List.mem_map.mp memberF
  cases original : f.type.isNamed with
  | false =>
    rw [Field.resolve_of_builtIn original, original] at named
    cases named
  | true =>
    obtain ⟨e, found⟩ := known d member f inside original
    rw [Field.resolve_of_named original found]
    refine ⟨e.mapFields (Field.resolve s), ?_, ?_⟩
    · rw [definition?_mapFields, found]
      rfl
    · rw [Definition.kind_mapFields]

theorem definition?_draft {s : Schema} {name : String} {e : Definition}
    (found : s.definition? name = some e) :
    s.draft.definition? name = some (e.mapFields Field.draft) := by
  rw [draft, definition?_mapFields, found]
  rfl

/-- The draft of a bound schema has no unresolved type. -/
theorem unresolvedIssues_draft {s : Schema} (bound : s.Bound) :
    s.draft.unresolvedIssues = [] := by
  rw [unresolvedIssues_eq_nil_iff]
  intro d' memberD f' memberF named
  obtain ⟨d, member, rfl⟩ := List.mem_map.mp memberD
  rw [Definition.fields_mapFields] at memberF
  obtain ⟨f, inside, rfl⟩ := List.mem_map.mp memberF
  cases original : f.type.isNamed with
  | false =>
    rw [Field.draft, original, if_neg Bool.false_ne_true, original] at named
    cases named
  | true =>
    obtain ⟨e, found, -⟩ := bound d member f inside original
    rw [Field.draft, if_pos original]
    exact ⟨_, definition?_draft found⟩

/-- A bound schema is what its draft resolves to. -/
theorem resolve_draft {s : Schema} (bound : s.Bound) : s.draft.resolve = s := by
  have same : ∀ d ∈ s.definitions,
      (d.mapFields Field.draft).mapFields (Field.resolve s.draft) = d := by
    intro d member
    rw [Definition.mapFields_mapFields]
    apply Definition.mapFields_eq_self
    intro f inside
    rw [Function.comp_apply, Field.draft]
    split
    next named =>
      obtain ⟨e, found, kind⟩ := bound d member f inside named
      rw [Field.resolve_of_named (f := { f with type := .message }) rfl (definition?_draft found),
        Definition.kind_mapFields, ← kind]
    next builtIn => exact Field.resolve_of_builtIn (by simpa using builtIn)
  have kept : s.draft.resolve.definitions = s.definitions := by
    rw [resolve_eq, mapFields, draft, mapFields, List.map_map]
    exact (List.map_congr_left same).trans (List.map_id' _)
  exact congrArg (Schema.mk s.defines) kept

end Schema

end WireSchema
