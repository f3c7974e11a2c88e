import WireSchema.Proofs.RoundTrip

/-!
The wire format as rules. They say which bytes a value may have and know neither of sizes, of
operations nor of a buffer. A count is two bytes whose value is the number counted, so the rules give
no bytes where a count is too large for two. The main statement is that writing a message gives
exactly the bytes that the rules give, and fails where they give none.
-/

namespace WireSchema

open Text

namespace Bytes

/-- So many bytes whose value is `n`, the lowest first. -/
def Hold (width n : Nat) (bs : List UInt8) : Prop := bs.length = width ∧ toNat bs = n

/-- So many bytes whose value is `z`, the upper half of their range standing for the negative
numbers. -/
def HoldInt (width : Nat) (z : Int) (bs : List UInt8) : Prop :=
  bs.length = width ∧ (toNat bs : Int).bmod (256 ^ width) = z

inductive HoldUnits : List UInt16 → List UInt8 → Prop
  | nil : HoldUnits [] []
  | cons {u : UInt16} {us : List UInt16} {bs cs : List UInt8} :
      Hold 2 u.toNat bs → HoldUnits us cs → HoldUnits (u :: us) (bs ++ cs)

end Bytes

/-- The bytes of a value of a built-in type. Fractional numbers are their bit patterns, and a text is
the number of its units and the units. -/
def Scalar.Laid : Scalar → List UInt8 → Prop
  | .bool b, bs => bs = [if b then 1 else 0]
  | .byte n, bs => Bytes.Hold 1 n.toNat bs
  | .sbyte n, bs => Bytes.HoldInt 1 n.toInt bs
  | .short n, bs => Bytes.HoldInt 2 n.toInt bs
  | .ushort n, bs => Bytes.Hold 2 n.toNat bs
  | .int n, bs => Bytes.HoldInt 4 n.toInt bs
  | .uint n, bs => Bytes.Hold 4 n.toNat bs
  | .long n, bs => Bytes.HoldInt 8 n.toInt bs
  | .ulong n, bs => Bytes.Hold 8 n.toNat bs
  | .float bits, bs => Bytes.Hold 4 bits.toNat bs
  | .double bits, bs => Bytes.Hold 8 bits.toNat bs
  | .char unit, bs => Bytes.Hold 2 unit.toNat bs
  | .string text, bs =>
    ∃ count units, bs = count ++ units ∧ Bytes.Hold 2 (Utf16.encode text.toList).length count ∧
      Bytes.HoldUnits (Utf16.encode text.toList) units

namespace Schema

mutual

/-- The bytes of a value whose type has this name, behind its id and the byte that says it is
there. -/
inductive PayloadLaid (s : Schema) : String → Value → List UInt8 → Prop
  | scalar {type : String} {x : Scalar} {bs : List UInt8} :
      x.Laid bs → PayloadLaid s type (.scalar x) bs
  | enum {type : String} {n : Int32} {bs : List UInt8} :
      Bytes.HoldInt 4 n.toInt bs → PayloadLaid s type (.enum n) bs
  | message {type : String} {values : List Value} {count body : List UInt8} :
      Bytes.Hold 2 body.length count → MessageLaid s (s.fieldsOf type) values body →
      PayloadLaid s type (.message values) (count ++ body)
  | array {type : String} {items : List Value} {count body : List UInt8} :
      Bytes.Hold 2 items.length count → ElementsLaid s type items body →
      PayloadLaid s type (.array items) (count ++ body)

inductive ElementsLaid (s : Schema) : String → List Value → List UInt8 → Prop
  | nil {type : String} : ElementsLaid s type [] []
  | cons {type : String} {v : Value} {vs : List Value} {bs cs : List UInt8} :
      PayloadLaid s type v bs → ElementsLaid s type vs cs → ElementsLaid s type (v :: vs) (bs ++ cs)

/-- The records of a message in the order of its fields. A required field has one, an optional
field that holds a value has one with the byte 1 behind the id, and any other has none. -/
inductive MessageLaid (s : Schema) : List Field → List Value → List UInt8 → Prop
  | nil : MessageLaid s [] [] []
  | required {f : Field} {fs : List Field} {v : Value} {vs : List Value}
      {id payload later : List UInt8} :
      f.isOptional = false → Bytes.Hold 2 f.id.toNat id → PayloadLaid s f.typeName v payload →
      MessageLaid s fs vs later → MessageLaid s (f :: fs) (v :: vs) (id ++ payload ++ later)
  | present {f : Field} {fs : List Field} {v : Value} {vs : List Value}
      {id payload later : List UInt8} :
      f.isOptional = true → Bytes.Hold 2 f.id.toNat id → PayloadLaid s f.typeName v payload →
      MessageLaid s fs vs later → MessageLaid s (f :: fs) (v :: vs) (id ++ [1] ++ payload ++ later)
  | absent {f : Field} {fs : List Field} {vs : List Value} {later : List UInt8} :
      f.isOptional = true → MessageLaid s fs vs later →
      MessageLaid s (f :: fs) (.absent :: vs) later

end

end Schema

namespace Bytes

theorem toNat_lt (bs : List UInt8) : toNat bs < 256 ^ bs.length := by
  induction bs with
  | nil => decide
  | cons b bs ih =>
    have low := b.toNat_lt
    rw [toNat_cons, List.length_cons, Nat.pow_succ]
    omega

/-- Bytes come back from the number that they hold. -/
theorem ofNat_toNat (bs : List UInt8) : ofNat bs.length (toNat bs) = bs := by
  induction bs with
  | nil => rfl
  | cons b bs ih =>
    have low := b.toNat_lt
    have first : (toNat (b :: bs)) % 256 = b.toNat := by rw [toNat_cons]; omega
    have later : (toNat (b :: bs)) / 256 = toNat bs := by rw [toNat_cons]; omega
    rw [List.length_cons, ofNat, first, later, ih]
    simp

/-- Bytes hold a number exactly if they are its bytes and it fits. -/
theorem hold_iff {width n : Nat} {bs : List UInt8} :
    Hold width n bs ↔ n < 256 ^ width ∧ bs = ofNat width n := by
  constructor
  · rintro ⟨rfl, rfl⟩
    exact ⟨toNat_lt bs, (ofNat_toNat bs).symm⟩
  · rintro ⟨small, rfl⟩
    exact ⟨length_ofNat width n, by rw [toNat_ofNat, Nat.mod_eq_of_lt small]⟩

/-- The bytes of a number that its width cannot exceed. -/
theorem hold_iff_eq {width n : Nat} (small : n < 256 ^ width) {bs : List UInt8} :
    Hold width n bs ↔ bs = ofNat width n := by
  rw [hold_iff, and_iff_right small]

theorem hold_length_iff {n : Nat} {bs : List UInt8} :
    Hold 2 n bs ↔ n ≤ 65535 ∧ bs = ofNat 2 n := by
  have room : (256 : Nat) ^ 2 = 65535 + 1 := rfl
  rw [hold_iff, room, Nat.lt_succ_iff]

/-- A number with a sign has the bytes of its bit pattern. -/
theorem holdInt_iff_eq {width bits : Nat} (range : 256 ^ width = 2 ^ bits) (x : BitVec bits)
    {bs : List UInt8} : HoldInt width x.toInt bs ↔ bs = ofNat width x.toNat := by
  have small : x.toNat < 256 ^ width := range ▸ x.isLt
  rw [← hold_iff_eq small, HoldInt, Hold, BitVec.toInt_eq_toNat_bmod, ← range]
  constructor
  · rintro ⟨rfl, value⟩
    have large := toNat_lt bs
    have same := congrArg (· % ((256 ^ bs.length : Nat) : Int)) value
    simp only [Int.bmod_emod] at same
    rw [Int.emod_eq_of_lt (by omega) (by omega), Int.emod_eq_of_lt (by omega) (by omega)] at same
    exact ⟨rfl, by omega⟩
  · rintro ⟨length, value⟩
    exact ⟨length, by rw [value]⟩

/-- Units are held by their bytes, two for each. -/
theorem holdUnits_iff {units : List UInt16} {bs : List UInt8} :
    HoldUnits units bs ↔ bs = ofUnits units := by
  induction units generalizing bs with
  | nil =>
    constructor
    · rintro ⟨⟩
      rfl
    · rintro rfl
      exact .nil
  | cons u us ih =>
    have step : ofUnits (u :: us) = ofNat 2 u.toNat ++ ofUnits us := rfl
    rw [step]
    constructor
    · rintro (_ | ⟨first, later⟩)
      rw [(hold_iff.mp first).2, ih.mp later]
    · rintro rfl
      exact .cons ((hold_iff_eq u.toNat_lt).mpr rfl) (ih.mpr rfl)

end Bytes

namespace Scalar

/-- The bytes of a value of fixed width are those that are written. -/
theorem laid_iff_eq {x : Scalar} (fixed : x.type ≠ .string) {bs : List UInt8} :
    x.Laid bs ↔ bs = x.wire := by
  cases x with
  | string text => exact absurd rfl fixed
  | bool b => exact Iff.rfl
  | byte n =>
    have alone : Bytes.ofNat 1 n.toNat = [n] := by simp [Bytes.ofNat]
    exact (Bytes.hold_iff_eq n.toNat_lt).trans (by rw [alone]; rfl)
  | sbyte n =>
    have alone : Bytes.ofNat 1 n.toUInt8.toNat = [n.toUInt8] := by simp [Bytes.ofNat]
    exact (Bytes.holdInt_iff_eq rfl n.toBitVec).trans (by rw [n.toNat_toBitVec, alone]; rfl)
  | short n => exact Bytes.holdInt_iff_eq rfl n.toBitVec
  | int n => exact Bytes.holdInt_iff_eq rfl n.toBitVec
  | long n => exact Bytes.holdInt_iff_eq rfl n.toBitVec
  | ushort n => exact Bytes.hold_iff_eq n.toNat_lt
  | uint n => exact Bytes.hold_iff_eq n.toNat_lt
  | ulong n => exact Bytes.hold_iff_eq n.toNat_lt
  | float bits => exact Bytes.hold_iff_eq bits.toNat_lt
  | double bits => exact Bytes.hold_iff_eq bits.toNat_lt
  | char unit => exact Bytes.hold_iff_eq unit.toNat_lt

/-- The bytes of a text are those that are written, where its units can be counted. -/
theorem laid_string_iff {text : String} {bs : List UInt8} :
    (Scalar.string text).Laid bs ↔ bs = (Scalar.string text).wire ∧ Utf16.length text ≤ 65535 := by
  rw [Laid, wire, Utf16.length_eq_length_encode]
  constructor
  · rintro ⟨count, units, rfl, counted, held⟩
    rw [Bytes.hold_length_iff] at counted
    rw [Bytes.holdUnits_iff] at held
    exact ⟨by rw [counted.2, held], counted.1⟩
  · rintro ⟨rfl, small⟩
    exact ⟨_, _, rfl, Bytes.hold_length_iff.mpr ⟨small, rfl⟩, Bytes.holdUnits_iff.mpr rfl⟩

/-- A scalar is laid out as its bytes, as long as its length can be written. -/
theorem laid_iff (s : Schema) (type : String) {x : Scalar} {bs : List UInt8} :
    x.Laid bs ↔ bs = x.wire ∧ ∀ n ∈ s.valueLengths type (.scalar x), n ≤ 65535 := by
  by_cases string : x.type = .string
  · obtain ⟨text, rfl⟩ := exists_string string
    rw [laid_string_iff, Schema.valueLengths]
    simp
  · have none : s.valueLengths type (.scalar x) = [] := by
      cases x with
      | string text => exact absurd rfl string
      | _ => rfl
    rw [laid_iff_eq string, none]
    simp

end Scalar

namespace Schema

variable {s : Schema}

/-- An absent value takes no bytes, and its field has to be optional. -/
theorem messageLaid_absent_iff {f : Field} {fs : List Field} {vs : List Value} {bs : List UInt8} :
    s.MessageLaid (f :: fs) (.absent :: vs) bs ↔ f.isOptional ∧ s.MessageLaid fs vs bs := by
  constructor
  · intro laid
    cases laid with
    | required _ _ payload _ => cases payload
    | present _ _ payload _ => cases payload
    | absent optional later => exact ⟨optional, later⟩
  · rintro ⟨optional, later⟩
    exact .absent optional later

/-- A field that holds a value has one record, whose marks are those of the field. -/
theorem messageLaid_present_iff {f : Field} {fs : List Field} {v : Value} {vs : List Value}
    {bs : List UInt8} (present : v.isAbsent = false) :
    s.MessageLaid (f :: fs) (v :: vs) bs ↔
      ∃ payload later, bs = f.header ++ payload ++ later ∧ s.PayloadLaid f.typeName v payload ∧
        s.MessageLaid fs vs later := by
  have held : ∀ id, Bytes.Hold 2 f.id.toNat id ↔ id = Bytes.ofNat 2 f.id.toNat := fun _ =>
    Bytes.hold_iff_eq f.id.toNat_lt
  rw [Field.header, Field.mark]
  constructor
  · intro laid
    cases laid with
    | required optional id payload later =>
      refine ⟨_, _, ?_, payload, later⟩
      rw [(held _).mp id, optional]
      simp
    | present optional id payload later =>
      refine ⟨_, _, ?_, payload, later⟩
      rw [(held _).mp id, optional]
      simp
    | absent => cases present
  · rintro ⟨payload, later, rfl, laid, rest⟩
    cases optional : f.isOptional with
    | false =>
      have record := MessageLaid.required optional ((held _).mpr rfl) laid rest
      simpa using record
    | true =>
      have record := MessageLaid.present optional ((held _).mpr rfl) laid rest
      simpa using record

mutual

/-- A value is laid out as its bytes, as long as each length in it can be written. -/
theorem payloadLaid_iff (s : Schema) (f : Field) :
    ∀ (v : Value) (bs : List UInt8), s.admits f v → v.isAbsent = false →
      (s.PayloadLaid f.typeName v bs ↔
        bs = s.valueBytes f.typeName v ∧ ∀ n ∈ s.valueLengths f.typeName v, n ≤ 65535)
  | .absent, _, _, present => by cases present
  | .scalar x, bs, _, _ => by
    rw [valueBytes, ← Scalar.laid_iff s f.typeName]
    exact ⟨fun | .scalar laid => laid, .scalar⟩
  | .enum n, bs, _, _ => by
    have held : Bytes.HoldInt 4 n.toInt bs ↔ bs = enumBytes n :=
      Bytes.holdInt_iff_eq rfl n.toBitVec
    have none : s.valueLengths f.typeName (.enum n) = [] := rfl
    rw [valueBytes, ← held, none]
    simp only [List.not_mem_nil, false_implies, implies_true, and_true]
    exact ⟨fun | .enum laid => laid, .enum⟩
  | .array items, bs, admitted, _ => by
    have each := fun body => elementsLaid_iff s f items body (admits_array.mp admitted).2
    rw [valueBytes, valueLengths, List.forall_mem_cons]
    constructor
    · intro laid
      cases laid with
      | array counted body =>
        rw [Bytes.hold_length_iff] at counted
        rw [each] at body
        exact ⟨by rw [counted.2, body.1], counted.1, body.2⟩
    · rintro ⟨rfl, small, fit⟩
      exact .array (Bytes.hold_length_iff.mpr ⟨small, rfl⟩) ((each _).mpr ⟨rfl, fit⟩)
  | .message values, bs, admitted, _ => by
    have typed := (admits_message.mp admitted).2.2
    have inner := fun body => messageLaid_iff s (s.fieldsOf f.typeName) values body typed
    rw [valueBytes, valueLengths, List.forall_mem_cons, ← length_records s _ _ typed]
    constructor
    · intro laid
      cases laid with
      | message counted body =>
        rw [inner] at body
        rw [Bytes.hold_length_iff, body.1] at counted
        exact ⟨by rw [counted.2, body.1], counted.1, body.2⟩
    · rintro ⟨rfl, small, fit⟩
      exact .message (Bytes.hold_length_iff.mpr ⟨small, rfl⟩) ((inner _).mpr ⟨rfl, fit⟩)

/-- Items are laid out one behind the other. -/
theorem elementsLaid_iff (s : Schema) (f : Field) :
    ∀ (items : List Value) (bs : List UInt8), s.admitsEach f.element items →
      (s.ElementsLaid f.typeName items bs ↔
        bs = s.eachBytes f.typeName items ∧ ∀ n ∈ s.eachLengths f.typeName items, n ≤ 65535)
  | [], bs, _ => by
    rw [eachBytes, eachLengths]
    simp only [List.not_mem_nil, false_implies, implies_true, and_true]
    exact ⟨fun | .nil => rfl, fun empty => empty ▸ .nil⟩
  | v :: vs, bs, admitted => by
    have both := admitsEach_cons.mp admitted
    have first := fun cs => payloadLaid_iff s f.element v cs both.1 (isAbsent_of_admits_element both.1)
    have later := fun cs => elementsLaid_iff s f vs cs both.2
    rw [Field.typeName_element] at first
    rw [eachBytes, eachLengths, List.forall_mem_append]
    constructor
    · intro laid
      cases laid with
      | cons head tail =>
        rw [first] at head
        rw [later] at tail
        exact ⟨by rw [head.1, tail.1], head.2, tail.2⟩
    · rintro ⟨rfl, fit, rest⟩
      exact .cons ((first _).mpr ⟨rfl, fit⟩) ((later _).mpr ⟨rfl, rest⟩)

/-- The rules give a message its records, where every length fits its two bytes, and else
nothing. -/
theorem messageLaid_iff (s : Schema) :
    ∀ (fields : List Field) (values : List Value) (bs : List UInt8), s.admitsAll fields values →
      (s.MessageLaid fields values bs ↔
        bs = (s.records fields values).flatten ∧ ∀ n ∈ s.lengths fields values, n ≤ 65535)
  | [], [], bs, _ => by
    have none : (s.records [] []).flatten = [] ∧ s.lengths [] [] = [] := ⟨rfl, rfl⟩
    rw [none.1, none.2]
    simp only [List.not_mem_nil, false_implies, implies_true, and_true]
    exact ⟨fun | .nil => rfl, fun empty => empty ▸ .nil⟩
  | [], _ :: _, _, admitted => by cases admitted
  | _ :: _, [], _, admitted => by cases admitted
  | f :: fs, v :: vs, bs, admitted => by
    have both := admitsAll_cons.mp admitted
    have later := fun cs => messageLaid_iff s fs vs cs both.2
    rw [records, lengths, List.forall_mem_append]
    cases absent : v.isAbsent with
    | true =>
      obtain rfl := Value.eq_absent absent
      have none : s.valueLengths f.typeName .absent = [] := rfl
      rw [messageLaid_absent_iff, later, and_iff_right (admits_absent.mp both.1), if_pos rfl, none]
      simp
    | false =>
      have first := fun cs => payloadLaid_iff s f v cs both.1 absent
      rw [messageLaid_present_iff absent, if_neg (by simp), List.flatten_cons]
      constructor
      · rintro ⟨payload, rest, rfl, head, tail⟩
        rw [first] at head
        rw [later] at tail
        exact ⟨by rw [head.1, tail.1], head.2, tail.2⟩
      · rintro ⟨rfl, fit, rest⟩
        exact ⟨_, _, rfl, (first _).mpr ⟨rfl, fit⟩, (later _).mpr ⟨rfl, rest⟩⟩

end

/-- Writing a message gives the bytes that the rules of the format give it, and no bytes where there
are none. -/
theorem serialize_eq_ok_iff_laid (fields : List Field) (values : List Value)
    (admitted : s.admitsAll fields values) (b : Array UInt8) :
    s.serialize fields values = .ok b ↔ s.MessageLaid fields values b.toList := by
  rw [serialize_eq_ok_iff admitted, messageLaid_iff s fields values b.toList admitted]

theorem messageLaid_oak :
    forest.admitsAll treeFields oak ∧ forest.MessageLaid treeFields oak oakBytes.toList :=
  ⟨admitsAll_oak, (serialize_eq_ok_iff_laid treeFields oak admitsAll_oak oakBytes).mp serialize_oak⟩

end Schema

end WireSchema
