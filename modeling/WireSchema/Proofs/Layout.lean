import Mathlib.Algebra.Group.Nat.Defs
import WireSchema.Proofs.Utf16
import WireSchema.Schema.Check
import WireSchema.Wire.Encode

/-!
The wire format as plain concatenation. A message is the list of its records, one for each field
that has a value; a record is the id, the byte 1 where the field is optional, and the value. The
main statement is that this layout is as long as the size that is computed from the message,
whatever the shapes of its fields.
-/

namespace WireSchema

open Text

/-- The field that one element of an array field would have to itself. -/
def Field.element (f : Field) : Field := { f with isOptional := false, isArray := false }

@[simp] theorem Field.type_element (f : Field) : f.element.type = f.type := rfl
@[simp] theorem Field.typeName_element (f : Field) : f.element.typeName = f.typeName := rfl
@[simp] theorem Field.isOptional_element (f : Field) : f.element.isOptional = false := rfl
@[simp] theorem Field.isArray_element (f : Field) : f.element.isArray = false := rfl

def Bytes.ofUnits (units : List UInt16) : List UInt8 :=
  units.flatMap fun u => Bytes.ofNat 2 u.toNat

/-- The bytes of a built-in value: a string is the number of its units and the units. -/
def Scalar.wire : Scalar → List UInt8
  | .string text =>
    Bytes.ofNat 2 (Utf16.length text) ++ Bytes.ofUnits (Utf16.encode text.toList)
  | x => x.bytes

/-- The byte that says that an optional value is there. -/
def Field.mark (f : Field) : List UInt8 := if f.isOptional then [1] else []

def Field.header (f : Field) : List UInt8 := Bytes.ofNat 2 f.id.toNat ++ f.mark

def Value.isAbsent : Value → Bool
  | .absent => true
  | _ => false

theorem Value.eq_absent {v : Value} (absent : v.isAbsent) : v = .absent := by
  cases v with
  | absent => rfl
  | _ => cases absent

namespace Schema

mutual

/-- Whether a field can hold a value: one of its type, none if the field is optional, and any number
of elements if it is an array. An enum holds the number of one of its entries. -/
def admits (s : Schema) (f : Field) : Value → Bool
  | .absent => f.isOptional
  | .array items => f.isArray && s.admitsEach f.element items
  | .scalar x => !f.isArray && f.type = .primitive x.type
  | .enum n =>
    !f.isArray && f.type = .enum && (s.entriesOf f.typeName).any fun e => e.value == n
  | .message values =>
    !f.isArray && f.type = .message && s.admitsAll (s.fieldsOf f.typeName) values

def admitsEach (s : Schema) (f : Field) : List Value → Bool
  | [] => true
  | v :: vs => s.admits f v && s.admitsEach f vs

def admitsAll (s : Schema) : List Field → List Value → Bool
  | [], [] => true
  | f :: fs, v :: vs => s.admits f v && s.admitsAll fs vs
  | _, _ => false

end

section

variable {s : Schema} {f : Field}

theorem admits_absent : s.admits f .absent ↔ f.isOptional := Iff.rfl

/-- An array is a value of an array field if its items are values of the element. -/
theorem admits_array {items : List Value} :
    s.admits f (.array items) ↔ f.isArray ∧ s.admitsEach f.element items := by
  rw [admits, Bool.and_eq_true]

theorem admits_scalar {x : Scalar} :
    s.admits f (.scalar x) ↔ f.isArray = false ∧ f.type = .primitive x.type := by
  rw [admits, Bool.and_eq_true, Bool.not_eq_true', decide_eq_true_eq]

/-- A number is a value of an enum field if some entry has it. -/
theorem admits_enum {n : Int32} :
    s.admits f (.enum n) ↔
      f.isArray = false ∧ f.type = .enum ∧ (s.entriesOf f.typeName).any fun e => e.value == n := by
  rw [admits, Bool.and_eq_true, Bool.and_eq_true, Bool.not_eq_true', decide_eq_true_eq, and_assoc]

/-- Values are those of a nested message if each is one of its field. -/
theorem admits_message {values : List Value} :
    s.admits f (.message values) ↔
      f.isArray = false ∧ f.type = .message ∧ s.admitsAll (s.fieldsOf f.typeName) values := by
  rw [admits, Bool.and_eq_true, Bool.and_eq_true, Bool.not_eq_true', decide_eq_true_eq, and_assoc]

theorem admitsEach_cons {v : Value} {vs : List Value} :
    s.admitsEach f (v :: vs) ↔ s.admits f v ∧ s.admitsEach f vs := by
  rw [admitsEach, Bool.and_eq_true]

theorem admitsAll_cons {fs : List Field} {v : Value} {vs : List Value} :
    s.admitsAll (f :: fs) (v :: vs) ↔ s.admits f v ∧ s.admitsAll fs vs := by
  rw [admitsAll, Bool.and_eq_true]

/-- A message has as many values as fields. -/
theorem length_of_admitsAll {fields : List Field} {values : List Value}
    (admitted : s.admitsAll fields values) : values.length = fields.length := by
  induction fields generalizing values with
  | nil =>
    cases values with
    | nil => rfl
    | cons v vs => cases admitted
  | cons f fs ih =>
    cases values with
    | nil => cases admitted
    | cons v vs => exact congrArg (· + 1) (ih (admitsAll_cons.mp admitted).2)

theorem exists_array {v : Value} (admitted : s.admits f v) (present : v.isAbsent = false)
    (array : f.isArray) : ∃ items, v = .array items := by
  cases v with
  | array items => exact ⟨items, rfl⟩
  | absent => cases present
  | scalar x => exact absurd array (by simp [(admits_scalar.mp admitted).1])
  | enum n => exact absurd array (by simp [(admits_enum.mp admitted).1])
  | message values => exact absurd array (by simp [(admits_message.mp admitted).1])

/-- A field that holds a message inside it holds nothing else. -/
theorem exists_message {v : Value} (admitted : s.admits f v) (present : v.isAbsent = false)
    (held : f.isInline) :
    ∃ values, v = .message values ∧ s.admitsAll (s.fieldsOf f.typeName) values := by
  have marks : f.isArray = false ∧ f.type = .message := by simpa [Field.isInline] using held
  cases v with
  | message values => exact ⟨values, rfl, (admits_message.mp admitted).2.2⟩
  | absent => cases present
  | array items => exact absurd (admits_array.mp admitted).1 (by simp [marks.1])
  | scalar x => exact absurd (admits_scalar.mp admitted).2 (by simp [marks.2])
  | enum n => exact absurd (admits_enum.mp admitted).2.1 (by simp [marks.2])

/-- A single value that is there fits the field of an element. -/
theorem admits_element {v : Value} (admitted : s.admits f v) (present : v.isAbsent = false)
    (single : f.isArray = false) : s.admits f.element v := by
  cases v with
  | absent => cases present
  | array items => exact absurd (admits_array.mp admitted).1 (by simp [single])
  | scalar x => exact admits_scalar.mpr ⟨rfl, (admits_scalar.mp admitted).2⟩
  | enum n => exact admits_enum.mpr ⟨rfl, (admits_enum.mp admitted).2⟩
  | message values => exact admits_message.mpr ⟨rfl, (admits_message.mp admitted).2⟩

theorem admits_of_mem {v : Value} {items : List Value} (each : s.admitsEach f items)
    (member : v ∈ items) : s.admits f v := by
  induction items with
  | nil => cases member
  | cons w ws ih =>
    have both := admitsEach_cons.mp each
    cases member with
    | head => exact both.1
    | tail _ later => exact ih both.2 later

/-- An element is no array. -/
theorem not_admits_element_array {items : List Value} : ¬ s.admits f.element (.array items) := by
  rw [admits_array, Field.isArray_element]
  simp

/-- No item of an array is absent. -/
theorem isAbsent_of_admits_element {v : Value} (admitted : s.admits f.element v) :
    v.isAbsent = false := by
  cases v with
  | absent => cases admitted
  | _ => rfl

end

mutual

/-- The bytes of a value whose type has this name. An array is the number of its elements and the
elements; a message is the number of its bytes and its records. -/
def valueBytes (s : Schema) (type : String) : Value → List UInt8
  | .scalar x => x.wire
  | .enum n => enumBytes n
  | .message values =>
    Bytes.ofNat 2 (s.records (s.fieldsOf type) values).flatten.length
      ++ (s.records (s.fieldsOf type) values).flatten
  | .array items => Bytes.ofNat 2 items.length ++ s.eachBytes type items
  | .absent => []

def eachBytes (s : Schema) (type : String) : List Value → List UInt8
  | [] => []
  | v :: vs => s.valueBytes type v ++ s.eachBytes type vs

/-- The records of a message in the order of its fields; an absent value has none. -/
def records (s : Schema) : List Field → List Value → List (List UInt8)
  | f :: fs, v :: vs =>
    if v.isAbsent then s.records fs vs
    else (f.header ++ s.valueBytes f.typeName v) :: s.records fs vs
  | _, _ => []

end

mutual

/-- The lengths that a value writes in front of what they cover. -/
def valueLengths (s : Schema) (type : String) : Value → List Nat
  | .scalar (.string text) => [Utf16.length text]
  | .message values =>
    s.totalSize (s.fieldsOf type) values :: s.lengths (s.fieldsOf type) values
  | .array items => items.length :: s.eachLengths type items
  | _ => []

def eachLengths (s : Schema) (type : String) : List Value → List Nat
  | [] => []
  | v :: vs => s.valueLengths type v ++ s.eachLengths type vs

/-- Every count of an array, of a string's units and of a nested message's bytes, at any depth, in
the order in which they are written. -/
def lengths (s : Schema) : List Field → List Value → List Nat
  | f :: fs, v :: vs => s.valueLengths f.typeName v ++ s.lengths fs vs
  | _, _ => []

end

end Schema

/-- What does not fit into the bytes is lost. -/
theorem Bytes.toNat_ofNat (width n : Nat) :
    Bytes.toNat (Bytes.ofNat width n) = n % 256 ^ width := by
  induction width generalizing n with
  | zero => simp [Bytes.ofNat, Nat.mod_one]
  | succ width ih =>
    have low : (n % 256).toUInt8.toNat = n % 256 := by
      rw [Nat.toUInt8, UInt8.toNat_ofNat']
      exact Nat.mod_eq_of_lt (Nat.mod_lt n (by decide))
    rw [Bytes.ofNat, Bytes.toNat_cons, low, ih, Nat.pow_succ', Nat.mod_mul]

theorem Bytes.toUInt16_toNat_ofNat (u : UInt16) :
    (Bytes.toNat (Bytes.ofNat 2 u.toNat)).toUInt16 = u := by
  have small : u.toNat < 256 ^ 2 := Nat.lt_of_lt_of_le u.toNat_lt (by decide)
  rw [Bytes.toNat_ofNat, Nat.mod_eq_of_lt small]
  simp

/-- Each unit takes two bytes. -/
theorem Bytes.length_ofUnits (units : List UInt16) :
    (Bytes.ofUnits units).length = 2 * units.length := by
  induction units with
  | nil => rfl
  | cons u us ih =>
    rw [Bytes.ofUnits, List.flatMap_cons, List.length_append, Bytes.length_ofNat, ← Bytes.ofUnits,
      ih, List.length_cons]
    omega

/-- A text takes two bytes for its length and two for each of its units. -/
theorem Scalar.length_wire_string (text : String) :
    (Scalar.string text).wire.length = lengthHeaderLength + 2 * Utf16.length text := by
  rw [wire, List.length_append, Bytes.length_ofNat, Bytes.length_ofUnits,
    Utf16.length_eq_length_encode, lengthHeaderLength]

theorem Scalar.exists_string {x : Scalar} (string : x.type = .string) :
    ∃ text, x = .string text := by
  cases x with
  | string text => exact ⟨text, rfl⟩
  | _ => cases string

/-- A value of fixed width takes as many bytes as its type says. -/
theorem Scalar.length_wire {x : Scalar} (fixed : x.type ≠ .string) :
    x.wire.length = x.type.width?.getD 0 := by
  cases x with
  | string text => exact absurd rfl fixed
  | bool b => rfl
  | byte n => rfl
  | sbyte n => rfl
  | _ => exact Bytes.length_ofNat _ _

/-- An optional field has one byte more in front of its value. -/
theorem Field.length_header (f : Field) :
    f.header.length = if f.isOptional then optionalHeaderLength else fieldHeaderLength := by
  rw [header, List.length_append, Bytes.length_ofNat, mark]
  split <;> rfl

namespace Schema

/-- The size of items may be added up from any start. -/
theorem elementsSize_add (s : Schema) (f : Field) (acc : Nat) (items : List Value) :
    s.elementsSize f acc items = acc + s.elementsSize f 0 items := by
  induction items generalizing acc with
  | nil => rfl
  | cons v vs ih =>
    rw [elementsSize, elementsSize, ih, ih (0 + s.elementSize f v)]
    omega

def presentSize (s : Schema) (f : Field) : Value → Nat
  | .absent => 0
  | .array items => lengthHeaderLength + s.elementsSize f 0 items
  | v => s.elementSize f v

theorem dynamicSize_cons (s : Schema) (f : Field) (v : Value) (fs : List Field)
    (vs : List Value) :
    s.dynamicSize (f :: fs) (v :: vs) = s.dynamicSize [f] [v] + s.dynamicSize fs vs := by
  cases v with
  | scalar x => cases x <;> simp only [dynamicSize, Nat.add_zero]
  | _ => simp only [dynamicSize, Nat.add_zero]

/-- The size of a message is the sum over its fields. -/
theorem totalSize_cons (s : Schema) (f : Field) (v : Value) (fs : List Field) (vs : List Value) :
    s.totalSize (f :: fs) (v :: vs) = s.totalSize [f] [v] + s.totalSize fs vs := by
  have shared : minSize (f :: fs) = minSize [f] + minSize fs := by
    simp only [minSize, List.foldr_cons, List.foldr_nil, Nat.add_zero]
  rw [totalSize, totalSize, totalSize, dynamicSize_cons, shared]
  omega

/-- The part that every value shares and the part that depends on the value make up one record. -/
theorem totalSize_single {s : Schema} {f : Field} {v : Value} (admitted : s.admits f v) :
    s.totalSize [f] [v] = if v.isAbsent then 0 else f.header.length + s.presentSize f v := by
  have shared : minSize [f] = f.minSize := by
    simp only [minSize, List.foldr_cons, List.foldr_nil, Nat.add_zero]
  rw [totalSize, shared, Field.length_header, Field.minSize]
  cases v with
  | absent =>
    have optional : f.isOptional = true := admitted
    simp [optional, Value.isAbsent, dynamicSize]
  | array items =>
    obtain ⟨array, -⟩ := admits_array.mp admitted
    cases optional : f.isOptional <;>
      simp [array, optional, Value.isAbsent, presentSize, dynamicSize] <;> omega
  | scalar x =>
    have marks := admits_scalar.mp admitted
    cases optional : f.isOptional <;> cases x <;>
      simp [marks, optional, Value.isAbsent, presentSize, dynamicSize, elementSize, Field.isString,
        Field.elementWidth?, Scalar.type] <;> omega
  | enum n =>
    obtain ⟨single, typed, -⟩ := admits_enum.mp admitted
    cases optional : f.isOptional <;>
      simp [single, typed, optional, Value.isAbsent, presentSize, dynamicSize, elementSize,
        Field.isString, Field.elementWidth?]
  | message values =>
    obtain ⟨single, typed, -⟩ := admits_message.mp admitted
    cases optional : f.isOptional with
    | true =>
      simp [optional, Value.isAbsent, presentSize, dynamicSize, elementSize]
      omega
    | false =>
      simp [single, typed, optional, Value.isAbsent, presentSize, dynamicSize, elementSize,
        Field.isString, Field.elementWidth?]

/-- An element has no marks, and its size depends on the type of its field alone. -/
theorem presentSize_element {s : Schema} {f : Field} {v : Value}
    (admitted : s.admits f.element v) : s.presentSize f.element v = s.elementSize f v := by
  cases v with
  | absent => cases admitted
  | array items => exact absurd admitted not_admits_element_array
  | scalar x => cases x <;> rfl
  | enum n => rfl
  | message values => rfl

mutual

/-- A value takes as many bytes as its size says. -/
theorem length_valueBytes (s : Schema) (f : Field) :
    ∀ v : Value, s.admits f v → (s.valueBytes f.typeName v).length = s.presentSize f v
  | .absent, _ => rfl
  | .array items, admitted => by
    have each := length_eachBytes s f items (admits_array.mp admitted).2
    rw [valueBytes, List.length_append, Bytes.length_ofNat, each, presentSize, lengthHeaderLength]
  | .scalar x, admitted => by
    have typed := (admits_scalar.mp admitted).2
    by_cases string : x.type = .string
    · obtain ⟨text, rfl⟩ := Scalar.exists_string string
      exact Scalar.length_wire_string text
    · have width : f.elementWidth?.getD 0 = x.type.width?.getD 0 := by
        rw [Field.elementWidth?, typed]
      rw [valueBytes, Scalar.length_wire string, ← width]
      cases x with
      | string text => exact absurd rfl string
      | _ => rfl
  | .enum n, admitted => by
    have typed := (admits_enum.mp admitted).2.1
    have width : f.elementWidth?.getD 0 = 4 := by rw [Field.elementWidth?, typed]; rfl
    rw [valueBytes, enumBytes, Bytes.length_ofNat, ← width]
    rfl
  | .message values, admitted => by
    have body := length_records s (s.fieldsOf f.typeName) values (admits_message.mp admitted).2.2
    rw [valueBytes, List.length_append, Bytes.length_ofNat, body]
    rfl

/-- So do the items of an array together. -/
theorem length_eachBytes (s : Schema) (f : Field) :
    ∀ items : List Value, s.admitsEach f.element items →
      (s.eachBytes f.typeName items).length = s.elementsSize f 0 items
  | [], _ => rfl
  | v :: vs, admitted => by
    have both := admitsEach_cons.mp admitted
    have first := length_valueBytes s f.element v both.1
    have later := length_eachBytes s f vs both.2
    rw [presentSize_element both.1] at first
    rw [eachBytes, List.length_append, elementsSize, elementsSize_add, ← later, Nat.zero_add,
      ← first]
    rfl

/-- The layout of a message is as long as the size that is computed from it. -/
theorem length_records (s : Schema) :
    ∀ (fields : List Field) (values : List Value), s.admitsAll fields values →
      (s.records fields values).flatten.length = s.totalSize fields values
  | [], [], _ => rfl
  | [], _ :: _, admitted => by cases admitted
  | _ :: _, [], admitted => by cases admitted
  | f :: fs, v :: vs, admitted => by
    have both := admitsAll_cons.mp admitted
    have first := length_valueBytes s f v both.1
    have later := length_records s fs vs both.2
    rw [records, totalSize_cons, totalSize_single both.1, ← later, ← first]
    split
    · rw [Nat.zero_add]
    · rw [List.flatten_cons, List.length_append, List.length_append]

end

/-- A value that is there takes at least one byte. -/
theorem length_valueBytes_pos {s : Schema} {f : Field} {v : Value} (admitted : s.admits f v)
    (present : v.isAbsent = false) : 0 < (s.valueBytes f.typeName v).length := by
  cases v with
  | absent => cases present
  | array items =>
    rw [valueBytes, List.length_append, Bytes.length_ofNat]
    omega
  | scalar x =>
    cases x with
    | string text =>
      rw [valueBytes, Scalar.length_wire_string, lengthHeaderLength]
      omega
    | _ => exact Nat.zero_lt_succ _
  | enum n => exact Nat.zero_lt_succ _
  | message values =>
    rw [valueBytes, List.length_append, Bytes.length_ofNat]
    omega

end Schema

/-! A schema with an enum, a message held inside another and one that holds itself in an array:
`enum Hue { red; green = 4; }`, `message Leaf { double weight; }` and
`message Tree { string label; Hue? hue; Leaf leaf = 7; Tree[] branches; }`. -/

def treeFields : List Field :=
  [⟨.primitive .string, "string", "label", 0, false, false, ⟨4, 3⟩⟩,
    ⟨.enum, "Hue", "hue", 1, true, false, ⟨5, 3⟩⟩,
    ⟨.message, "Leaf", "leaf", 7, false, false, ⟨6, 3⟩⟩,
    ⟨.message, "Tree", "branches", 3, false, true, ⟨7, 3⟩⟩]

def forest : Schema where
  defines := []
  definitions :=
    [⟨"Hue", ⟨1, 6⟩, .enum [⟨"red", 0, ⟨1, 12⟩⟩, ⟨"green", 4, ⟨1, 17⟩⟩]⟩,
      ⟨"Leaf", ⟨2, 9⟩, .message
        [⟨.primitive .double, "double", "weight", 0, false, false, ⟨2, 16⟩⟩]⟩,
      ⟨"Tree", ⟨3, 9⟩, .message treeFields⟩]

def oak : List Value :=
  [.scalar (.string "oak"), .enum 4, .message [.scalar (.double 0x4008000000000000)],
    .array [.message [.scalar (.string ""), .absent, .message [.scalar (.double 0)], .array []]]]

end WireSchema
