import Mathlib.Data.List.Forall2
import WireSchema.Proofs.RoundTrip

/-!
Messages that gain fields. A later definition declares every field of an earlier one again, in
whatever order, and further fields with other ids. What was written by the earlier definition is
read by the later one: the shared fields come back and the further ones have their defaults. The two
definitions may stand in two schemas, as long as the types that the shared fields use are laid out
in the same way in both.
-/

namespace WireSchema

/-- The same declaration, but for the name of the field and the place where it stands. -/
structure Field.Matches (f g : Field) : Prop where
  id : f.id = g.id
  type : f.type = g.type
  typeName : f.typeName = g.typeName
  isOptional : f.isOptional = g.isOptional
  isArray : f.isArray = g.isArray

namespace Field.Matches

instance (f g : Field) : Decidable (f.Matches g) :=
  decidable_of_iff
    (f.id = g.id ∧ f.type = g.type ∧ f.typeName = g.typeName ∧ f.isOptional = g.isOptional ∧
      f.isArray = g.isArray)
    ⟨fun ⟨id, type, typeName, isOptional, isArray⟩ => ⟨id, type, typeName, isOptional, isArray⟩,
      fun same => ⟨same.id, same.type, same.typeName, same.isOptional, same.isArray⟩⟩

variable {f g : Field}

theorem element (same : f.Matches g) : f.element.Matches g.element :=
  ⟨same.id, same.type, same.typeName, rfl, rfl⟩

/-- Fields that match have the same header. -/
theorem header (same : f.Matches g) : f.header = g.header := by
  rw [Field.header, Field.header, Field.mark, Field.mark, same.id, same.isOptional]

end Field.Matches

namespace Schema

/-- The types that fields name, and those that the fields of these name in turn. -/
inductive Uses (s : Schema) (fields : List Field) : String → Prop
  | named {f : Field} : f ∈ fields → f.type.isNamed → Uses s fields f.typeName
  | further {name : String} {f : Field} :
      Uses s fields name → f ∈ s.fieldsOf name → f.type.isNamed → Uses s fields f.typeName

/-- The type with this name is the same in both: as a message it has the same fields, and as an enum
the same values. -/
structure Alike (s t : Schema) (name : String) : Prop where
  fields : List.Forall₂ Field.Matches (s.fieldsOf name) (t.fieldsOf name)
  entries : (s.entriesOf name).map Entry.value = (t.entriesOf name).map Entry.value

/-- Enums that are alike have the same values. -/
theorem Alike.any_entry {s t : Schema} {name : String} (alike : s.Alike t name) (n : Int32) :
    ((s.entriesOf name).any fun e => e.value == n) =
      (t.entriesOf name).any fun e => e.value == n := by
  have values := congrArg (List.any · (· == n)) alike.entries
  simpa only [List.any_map, Function.comp_def] using values

/-- A value that a field of the one schema and a field of the other hold and lay out alike. -/
structure Carries (s t : Schema) (f g : Field) (v : Value) : Prop where
  admitted : t.admits g v
  bytes : t.valueBytes g.typeName v = s.valueBytes f.typeName v
  lengths : t.valueLengths g.typeName v = s.valueLengths f.typeName v

structure CarriesAll (s t : Schema) (fs gs : List Field) (values : List Value) : Prop where
  admitted : t.admitsAll gs values
  bytes : t.records gs values = s.records fs values
  lengths : t.lengths gs values = s.lengths fs values

section

variable {s t : Schema} {fields : List Field}

mutual

/-- Where the types below are alike, a value means the same to both schemas. -/
theorem carries (alike : ∀ name, s.Uses fields name → s.Alike t name) {f g : Field}
    (same : f.Matches g)
    (used : f.type.isNamed → s.Uses fields f.typeName) :
    ∀ v : Value, s.admits f v → s.Carries t f g v
  | .absent, admitted => ⟨by rwa [admits_absent, ← same.isOptional], rfl, rfl⟩
  | .scalar x, admitted => by
    obtain ⟨single, type⟩ := admits_scalar.mp admitted
    exact ⟨admits_scalar.mpr ⟨same.isArray ▸ single, same.type ▸ type⟩, rfl, by
      cases x <;> rfl⟩
  | .enum n, admitted => by
    obtain ⟨single, type, known⟩ := admits_enum.mp admitted
    rw [(alike _ (used (by rw [type]; rfl))).any_entry, same.typeName] at known
    exact ⟨admits_enum.mpr ⟨same.isArray ▸ single, same.type ▸ type, known⟩, rfl, rfl⟩
  | .array items, admitted => by
    obtain ⟨array, each⟩ := admits_array.mp admitted
    obtain ⟨admitted, bytes, lengths⟩ := carriesEach alike same.element used items each
    refine ⟨admits_array.mpr ⟨same.isArray ▸ array, admitted⟩, ?_, ?_⟩
    · rw [valueBytes, valueBytes]
      exact congrArg _ bytes
    · rw [valueLengths, valueLengths]
      exact congrArg _ lengths
  | .message values, admitted => by
    obtain ⟨single, type, inner⟩ := admits_message.mp admitted
    have inside := used (by rw [type]; rfl)
    have body := carriesAll alike (alike _ inside).fields
      (fun h member named => .further inside member named) values inner
    rw [same.typeName] at inner body
    refine ⟨admits_message.mpr ⟨same.isArray ▸ single, same.type ▸ type, body.admitted⟩, ?_, ?_⟩
    · rw [same.typeName, valueBytes, valueBytes, body.bytes]
    · rw [same.typeName, valueLengths, valueLengths, body.lengths,
        ← length_records t _ _ body.admitted, body.bytes, length_records s _ _ inner]

/-- The items of an array are carried over one by one. -/
theorem carriesEach (alike : ∀ name, s.Uses fields name → s.Alike t name) {f g : Field}
    (same : f.Matches g)
    (used : f.type.isNamed → s.Uses fields f.typeName) :
    ∀ items : List Value, s.admitsEach f items →
      t.admitsEach g items ∧ t.eachBytes g.typeName items = s.eachBytes f.typeName items ∧
        t.eachLengths g.typeName items = s.eachLengths f.typeName items
  | [], _ => ⟨rfl, rfl, rfl⟩
  | v :: vs, admitted => by
    have both := admitsEach_cons.mp admitted
    have first := carries alike same used v both.1
    obtain ⟨later, bytes, lengths⟩ := carriesEach alike same used vs both.2
    refine ⟨admitsEach_cons.mpr ⟨first.admitted, later⟩, ?_, ?_⟩
    · rw [eachBytes, eachBytes, first.bytes, bytes]
    · rw [eachLengths, eachLengths, first.lengths, lengths]

/-- A nested message is carried over where its fields match one by one. -/
theorem carriesAll (alike : ∀ name, s.Uses fields name → s.Alike t name) {fs gs : List Field}
    (same : List.Forall₂ Field.Matches fs gs)
    (used : ∀ f ∈ fs, f.type.isNamed → s.Uses fields f.typeName) :
    ∀ values : List Value, s.admitsAll fs values → s.CarriesAll t fs gs values
  | [], admitted => by
    cases same with
    | nil => exact ⟨rfl, rfl, rfl⟩
    | cons => cases admitted
  | v :: vs, admitted => by
    cases same with
    | nil => cases admitted
    | cons one others =>
      have both := admitsAll_cons.mp admitted
      rw [List.forall_mem_cons] at used
      have first := carries alike one used.1 v both.1
      have later := carriesAll alike others used.2 vs both.2
      refine ⟨admitsAll_cons.mpr ⟨first.admitted, later.admitted⟩, ?_, ?_⟩
      · rw [records, records, first.bytes, later.bytes, one.header]
      · rw [lengths, lengths, first.lengths, later.lengths]

end

end

end Schema

def Field.successor (gs : List Field) (f : Field) : Field :=
  (gs.find? fun g => g.id == f.id).getD f

def forward (gs : List Field) (r : Field × Value) : Field × Value := (r.1.successor gs, r.2)

/-- The successor of a field is the one with its id. -/
theorem Field.successor_eq {gs : List Field} (distinct : (gs.map Field.id).Nodup) {f g : Field}
    (member : g ∈ gs) (same : f.id = g.id) : f.successor gs = g := by
  rw [successor]
  cases found : gs.find? fun g => g.id == f.id with
  | none => exact absurd same.symm (by simpa using List.find?_eq_none.mp found g member)
  | some h =>
    have equal : h.id = f.id := by simpa using List.find?_some found
    exact List.inj_on_of_nodup_map distinct (List.mem_of_find?_eq_some found) member
      (equal.trans same)

namespace Slot

/-- Which field a record was written for shows in its id alone. -/
theorem after_map_forward {rs : List (Field × Value)} {gs : List Field}
    (same : ∀ r ∈ rs, r.1.id = (forward gs r).1.id) (slot : Slot) :
    slot.after (rs.map (forward gs)) = slot.after rs := by
  induction rs with
  | nil => rfl
  | cons r rs ih =>
    rw [List.forall_mem_cons] at same
    rw [List.map_cons]
    by_cases own : r.1.id = slot.field.id
    · rw [after_cons_of_eq own, after_cons_of_eq (same.1.symm.trans own)]
      rfl
    · rw [after_cons_of_ne own, after_cons_of_ne fun other => own (same.1.trans other), ih same.2]

/-- The records of a message leave the slot of any of its fields with the value of that field upon
the old one. -/
theorem value_after_present {fields : List Field} {values : List Value}
    (distinct : (fields.map Field.id).Nodup) {i : Nat} {f : Field} {v : Value}
    (field : fields[i]? = some f) (value : values[i]? = some v) {slot : Slot}
    (same : f.id = slot.field.id) :
    (slot.after (present fields values)).value = v.onto slot.value := by
  have pair : (fields.zip values)[i]? = some (f, v) := by
    rw [List.getElem?_zip_eq_some]
    exact ⟨field, value⟩
  by_cases absent : v.isAbsent
  · -- No other record has the id.
    have none : slot.field.id ∉ (present fields values).map fun r => r.1.id := by
      intro member
      obtain ⟨⟨h, w⟩, inside, equal⟩ := List.mem_map.mp member
      obtain ⟨zipped, there⟩ := List.mem_filter.mp inside
      obtain ⟨k, found⟩ := List.mem_iff_getElem?.mp zipped
      obtain ⟨fieldK, valueK⟩ := List.getElem?_zip_eq_some.mp found
      have ids : (fields.map Field.id)[k]? = (fields.map Field.id)[i]? := by
        rw [List.getElem?_map, List.getElem?_map, fieldK, field]
        exact congrArg some (equal.trans same.symm)
      have small : k < (fields.map Field.id).length := by
        rw [List.length_map]
        exact (List.getElem?_eq_some_iff.mp fieldK).1
      obtain rfl := (List.getElem?_inj small distinct).mp ids
      rw [valueK] at value
      cases value
      simp [absent] at there
    rw [after_of_notMem none, Value.eq_absent absent, Value.onto]
  · have member : (f, v) ∈ present fields values :=
      List.mem_filter.mpr ⟨List.mem_of_getElem? pair, by simpa using absent⟩
    rw [after_of_mem ((ids_present_sublist fields values).nodup distinct) member same]

theorem values_after_map (rs : List (Field × Value)) (default : Field → Value)
    (fields : List Field) :
    ((ofValues fields (fields.map default)).map (after rs)).map Slot.value =
      fields.map fun f => ((⟨f, default f, false⟩ : Slot).after rs).value := by
  induction fields with
  | nil => rfl
  | cons f fields ih => exact congrArg (_ :: ·) ih

end Slot

namespace Schema

section

variable {s t : Schema} {fs gs : List Field} {m old : List Value}

/-- A record of the earlier definition is one of the later definition too. -/
theorem awaits_forward (distinct : (gs.map Field.id).Nodup)
    (kept : ∀ f ∈ fs, ∃ g ∈ gs, f.Matches g) (alike : ∀ name, s.Uses fs name → s.Alike t name)
    (start : t.admitsAll gs old) {r : Field × Value} (awaits : s.Awaits (Slot.ofValues fs m) r)
    (admitted : s.admitsAll fs m) :
    t.Awaits (Slot.ofValues gs old) (forward gs r) ∧ t.record (forward gs r) = s.record r := by
  obtain ⟨⟨w, slot, -⟩, fits, present, fit⟩ := awaits
  have member : r.1 ∈ fs := by
    rw [← Slot.fields_ofValues admitted]
    exact List.mem_map.mpr ⟨_, slot, rfl⟩
  obtain ⟨g, inside, same⟩ := kept r.1 member
  have carried := carries alike same (.named member) r.2 fits
  rw [forward, Field.successor_eq distinct inside same.id]
  refine ⟨⟨?_, carried.admitted, present, by rwa [carried.lengths]⟩, ?_⟩
  · rw [← Slot.fields_ofValues start] at inside
    obtain ⟨slot, there, rfl⟩ := List.mem_map.mp inside
    have unseen := Slot.seen_of_mem_ofValues there
    refine ⟨slot.value, ?_, Slot.admits_of_mem_ofValues start there⟩
    rwa [← unseen]
  · rw [record, record, same.header, carried.bytes]

/-- What the earlier definition wrote is read by the later one to its last byte, and each slot is
left as the record with its id makes it. -/
theorem unpack_successors (readable : t.Readable) (distinctEarlier : (fs.map Field.id).Nodup)
    (distinct : (gs.map Field.id).Nodup) (kept : ∀ f ∈ fs, ∃ g ∈ gs, f.Matches g)
    (alike : ∀ name, s.Uses fs name → s.Alike t name) (start : t.admitsAll gs old)
    (admitted : s.admitsAll fs m) (fit : ∀ n ∈ s.lengths fs m, n ≤ 65535) {data : List UInt8}
    (written : (s.records fs m).flatten = data) :
    t.unpack gs old data 0 data.length =
      (.ok data.length,
        ((Slot.ofValues gs old).map (Slot.after (present fs m))).map Slot.value) := by
  have awaits (r : Field × Value) (member : r ∈ present fs m) :=
    awaits_forward distinct kept alike start
      (awaits_ofValues admitted admitted fit r member) admitted
  have ids : ∀ r ∈ present fs m, r.1.id = (forward gs r).1.id := by
    intro r member
    have zipped := List.mem_of_mem_filter member
    obtain ⟨g, inside, same⟩ := kept r.1 (List.of_mem_zip zipped).1
    rw [forward, Field.successor_eq distinct inside same.id, same.id]
  have apart : (((present fs m).map (forward gs)).map fun r => r.1.id).Nodup := by
    have same : (((present fs m).map (forward gs)).map fun r => r.1.id) =
        (present fs m).map fun r => r.1.id := by
      rw [List.map_map]
      exact List.map_congr_left fun r member => (ids r member).symm
    rw [same]
    exact (ids_present_sublist fs m).nodup distinctEarlier
  have awaited : ∀ r ∈ (present fs m).map (forward gs), t.Awaits (Slot.ofValues gs old) r := by
    intro r member
    obtain ⟨q, known, rfl⟩ := List.mem_map.mp member
    exact (awaits q known).1
  have bytes : (((present fs m).map (forward gs)).map t.record).flatten = data := by
    rw [← written, records_eq_map, List.map_map]
    exact congrArg List.flatten (List.map_congr_left fun r member => (awaits r member).2)
  have short := length_le_length_flatten awaited
  obtain ⟨left, enough⟩ := Nat.exists_eq_add_of_le short
  have run := readRecords_awaited readable.grounded (fun n _ => readable.fills n)
    (ready_ofValues distinct start) (fun _ => Slot.seen_of_mem_ofValues) apart awaited
    (Nat.le_of_eq enough) [] 0
  rw [← enough, bytes, List.append_nil, readRecords_of_short (r := ⟨[], _⟩) left _ (Nat.zero_le 2),
    Nat.zero_add] at run
  have slots : (Slot.ofValues gs old).map (Slot.after ((present fs m).map (forward gs))) =
      (Slot.ofValues gs old).map (Slot.after (present fs m)) :=
    List.map_congr_left fun slot _ => Slot.after_map_forward ids slot
  rw [unpack_whole run, slots]
  rfl

end

/-- The default of a message is made of the defaults of its fields, and each gives way to any value
of its field. -/
theorem Lawful.defaultMessage_eq {s : Schema} (lawful : s.Lawful) (bound : s.Bound)
    {d : Definition} (member : d ∈ s.definitions) :
    ∃ default : Field → Value, s.defaultMessage d.name = d.fields.map default ∧
      ∀ f ∈ d.fields, ∀ v, s.admits f v → v.onto (default f) = v := by
  obtain ⟨depth, deep⟩ : ∃ depth, s.definitions.length = depth + 1 :=
    Nat.exists_eq_add_of_le' (List.length_pos_of_mem member)
  have fields := lawful.fieldsOf_of_mem member
  have built : s.defaultMessage d.name =
      d.fields.map (s.defaultValueWith (s.defaultMessageTo depth)) := by
    rw [defaultMessage, deep, defaultMessageTo, fields]
  have fits := (lawful.grounded bound d.name).1
  rw [built, fields] at fits
  refine ⟨_, built, fun f inside v admitted => ?_⟩
  exact onto_defaultValueWith (admits_of_admitsAll_map fits f inside) admitted
    fun new inner held => ontoAll_defaultMessageTo depth f.typeName inner held

section

variable {tokens later : List Token} {s t : Schema} {d e : Definition} {m : List Value}
  {b : Array UInt8}

/-- What the earlier definition wrote, the later one reads: the fields of the earlier one hold what
was written, wherever they are declared now, and every other field has its default. -/
theorem deserialize_extended (accepted : ofTokens tokens = .ok s)
    (acceptedLater : ofTokens later = .ok t) (member : d ∈ s.definitions)
    (memberLater : e ∈ t.definitions)
    (kept : ∀ f ∈ d.fields, ∃ g ∈ e.fields, f.Matches g)
    (alike : ∀ name, s.Uses d.fields name → s.Alike t name)
    (admitted : s.admitsAll d.fields m) (written : s.serialize d.fields m = .ok b) :
    ∃ values, t.deserialize e.name b.toList 0 b.size = .ok values ∧
      values.length = e.fields.length ∧
      (∀ (i j : Nat) (f g : Field), d.fields[i]? = some f → e.fields[j]? = some g → f.id = g.id →
        values[j]? = m[i]?) ∧
      ∀ (j : Nat) (g : Field), e.fields[j]? = some g → g.id ∉ d.fields.map Field.id →
        values[j]? = (t.defaultMessage e.name)[j]? := by
  have lawful := lawful_of_ofTokens acceptedLater
  have bound := bound_of_ofTokens acceptedLater
  have readable := lawful.readable bound
  have fields := lawful.fieldsOf_of_mem memberLater
  have distinct := (lawful.bodies e memberLater).ids
  have distinctEarlier := ((lawful_of_ofTokens accepted).bodies d member).ids
  obtain ⟨default, built, gives⟩ := lawful.defaultMessage_eq bound memberLater
  have start := (readable.grounded e.name).1
  rw [built, fields] at start
  obtain ⟨bytes, fit⟩ := records_of_serialize admitted written
  have read := unpack_successors readable distinctEarlier distinct kept alike start admitted fit
    bytes
  rw [Slot.values_after_map, Array.length_toList] at read
  refine ⟨_, by rw [deserialize, fields, built, read], List.length_map _, ?_, ?_⟩
  · intro i j f g field own same
    have inside := List.mem_of_getElem? own
    obtain ⟨v, value⟩ : ∃ v, m[i]? = some v := by
      have small := (List.getElem?_eq_some_iff.mp field).1
      rw [← length_of_admitsAll admitted] at small
      exact ⟨_, List.getElem?_eq_getElem small⟩
    have slot : (Slot.ofValues d.fields m)[i]? = some ⟨f, v, false⟩ := by
      rw [Slot.ofValues, List.getElem?_zipWith, field, value]
    have fits := Slot.admits_of_mem_ofValues admitted (List.mem_of_getElem? slot)
    have declared := List.mem_of_getElem? field
    obtain ⟨h, found, matched⟩ := kept f declared
    obtain rfl : h = g :=
      List.inj_on_of_nodup_map distinct found inside (matched.id.symm.trans same)
    have carried := carries alike matched (.named declared) v fits
    rw [List.getElem?_map, own, value]
    simp only [Option.map_some]
    rw [Slot.value_after_present distinctEarlier field value same,
      gives h inside v carried.admitted]
  · intro j g own other
    have none : g.id ∉ (present d.fields m).map fun r => r.1.id := fun known =>
      other ((ids_present_sublist d.fields m).subset known)
    rw [built, List.getElem?_map, List.getElem?_map, own]
    simp only [Option.map_some]
    rw [Slot.after_of_notMem none]

end

end Schema

/-! A later schema, in which `message Plant { int? age = 9; Leaf core = 7; Tree[] branches = 3;
Hue? hue = 1; string name = 0; Leaf spare = 2; }` can read what was written as a tree. -/

def plantFields : List Field :=
  [⟨.primitive .int, "int", "age", 9, true, false, ⟨10, 3⟩⟩,
    ⟨.message, "Leaf", "core", 7, false, false, ⟨11, 3⟩⟩,
    ⟨.message, "Tree", "branches", 3, false, true, ⟨12, 3⟩⟩,
    ⟨.enum, "Hue", "hue", 1, true, false, ⟨13, 3⟩⟩,
    ⟨.primitive .string, "string", "name", 0, false, false, ⟨14, 3⟩⟩,
    ⟨.message, "Leaf", "spare", 2, false, false, ⟨15, 3⟩⟩]

def orchard : Schema where
  defines := []
  definitions := forest.definitions ++ [⟨"Plant", ⟨9, 9⟩, .message plantFields⟩]

def orchardTokens : List Token :=
  forestTokens.dropLast ++
  [⟨.message, "message", 142, ⟨9, 1⟩⟩, ⟨.identifier, "Plant", 150, ⟨9, 9⟩⟩,
    ⟨.openBrace, "\x7b", 156, ⟨9, 15⟩⟩, ⟨.primitive .int, "int", 160, ⟨10, 3⟩⟩,
    ⟨.question, "?", 163, ⟨10, 6⟩⟩, ⟨.identifier, "age", 165, ⟨10, 8⟩⟩,
    ⟨.equals, "=", 169, ⟨10, 12⟩⟩, ⟨.number, "9", 171, ⟨10, 14⟩⟩,
    ⟨.semicolon, ";", 172, ⟨10, 15⟩⟩, ⟨.identifier, "Leaf", 176, ⟨11, 3⟩⟩,
    ⟨.identifier, "core", 181, ⟨11, 8⟩⟩, ⟨.equals, "=", 186, ⟨11, 13⟩⟩,
    ⟨.number, "7", 188, ⟨11, 15⟩⟩, ⟨.semicolon, ";", 189, ⟨11, 16⟩⟩,
    ⟨.identifier, "Tree", 193, ⟨12, 3⟩⟩, ⟨.brackets, "[]", 197, ⟨12, 7⟩⟩,
    ⟨.identifier, "branches", 200, ⟨12, 10⟩⟩, ⟨.equals, "=", 209, ⟨12, 19⟩⟩,
    ⟨.number, "3", 211, ⟨12, 21⟩⟩, ⟨.semicolon, ";", 212, ⟨12, 22⟩⟩,
    ⟨.identifier, "Hue", 216, ⟨13, 3⟩⟩, ⟨.question, "?", 219, ⟨13, 6⟩⟩,
    ⟨.identifier, "hue", 221, ⟨13, 8⟩⟩, ⟨.equals, "=", 225, ⟨13, 12⟩⟩,
    ⟨.number, "1", 227, ⟨13, 14⟩⟩, ⟨.semicolon, ";", 228, ⟨13, 15⟩⟩,
    ⟨.primitive .string, "string", 232, ⟨14, 3⟩⟩, ⟨.identifier, "name", 239, ⟨14, 10⟩⟩,
    ⟨.equals, "=", 244, ⟨14, 15⟩⟩, ⟨.number, "0", 246, ⟨14, 17⟩⟩,
    ⟨.semicolon, ";", 247, ⟨14, 18⟩⟩, ⟨.identifier, "Leaf", 251, ⟨15, 3⟩⟩,
    ⟨.identifier, "spare", 256, ⟨15, 8⟩⟩, ⟨.equals, "=", 262, ⟨15, 14⟩⟩,
    ⟨.number, "2", 264, ⟨15, 16⟩⟩, ⟨.semicolon, ";", 265, ⟨15, 17⟩⟩,
    ⟨.closeBrace, "\x7d", 267, ⟨16, 1⟩⟩, ⟨.finish, "", 269, ⟨17, 1⟩⟩]

theorem orchard_accepted : Schema.ofTokens orchardTokens = .ok orchard :=
  Schema.ofTokens_of_draft (by decide +kernel) (by decide +kernel) rfl (by decide) (by cbv)

/-- The types that a tree is made of are the same in both schemas. -/
theorem forest_alike_orchard (name : String) (used : forest.Uses treeFields name) :
    forest.Alike orchard name := by
  have tree : ∀ f ∈ treeFields, f.type.isNamed →
      f.typeName = "Hue" ∨ f.typeName = "Leaf" ∨ f.typeName = "Tree" := by decide
  have leaf : ∀ f ∈ forest.fieldsOf "Leaf", f.type.isNamed = false := by decide
  have known : name = "Hue" ∨ name = "Leaf" ∨ name = "Tree" := by
    induction used with
    | named member named => exact tree _ member named
    | further _ member named ih =>
      obtain rfl | rfl | rfl := ih
      · cases member
      · exact absurd named (by simp [leaf _ member])
      · exact tree _ member named
  obtain rfl | rfl | rfl := known <;> exact ⟨by decide, by decide⟩

namespace Schema

theorem deserialize_extended_oak :
    ofTokens forestTokens = .ok forest ∧ ofTokens orchardTokens = .ok orchard ∧
      forest.serialize treeFields oak = .ok oakBytes ∧
      ∃ values, orchard.deserialize "Plant" oakBytes.toList 0 59 = .ok values ∧
        values.length = 6 ∧ values[0]? = some .absent ∧ values[1]? = oak[2]? ∧
        values[2]? = oak[3]? ∧ values[3]? = oak[1]? ∧ values[4]? = oak[0]? ∧
        values[5]? = some (.message [.scalar (.double 0)]) := by
  obtain ⟨values, read, length, shared, further⟩ := deserialize_extended
    (d := ⟨"Tree", ⟨3, 9⟩, .message treeFields⟩) (e := ⟨"Plant", ⟨9, 9⟩, .message plantFields⟩)
    forest_accepted orchard_accepted (by decide) (by decide) (by decide) forest_alike_orchard
    admitsAll_oak serialize_oak
  exact ⟨forest_accepted, orchard_accepted, serialize_oak, values, read, length,
    further 0 _ rfl (by decide), shared 2 1 _ _ rfl rfl rfl, shared 3 2 _ _ rfl rfl rfl,
    shared 1 3 _ _ rfl rfl rfl, shared 0 4 _ _ rfl rfl rfl, further 5 _ rfl (by decide)⟩

end Schema

end WireSchema
