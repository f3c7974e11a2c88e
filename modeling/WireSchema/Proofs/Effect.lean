import Mathlib.Data.List.Forall2
import WireSchema.Proofs.Fuel
import WireSchema.Proofs.Isolation

/-!
What reading leaves of the message that is read into, whether or not it comes to an end. Reading
takes whole records one after another and then stops: because it is done, at an id that no field
has, or at a record that it cannot read. A field that no record was met of keeps its value, one
whose first record was whole holds what that record says, and the field of the record that reading
stopped at keeps its value too, unless it is a message that was being filled where it stood. That
message is left in the state that the same rules give for the bytes of its frame.
-/

namespace WireSchema

/-- The bytes that say that the value of a field is there: any byte but zero, if it is optional. -/
def Field.Marks (f : Field) (mark : List UInt8) : Prop :=
  if f.isOptional then ∃ b, b ≠ 0 ∧ mark = [b] else mark = []

/-- Records in a row: for each the field that its id names, and the bytes behind the id. -/
abbrev Row := List (Field × List UInt8)

namespace Row

def bytes (row : Row) : List UInt8 :=
  (row.map fun r => Bytes.ofNat 2 r.1.id.toNat ++ r.2).flatten

/-- What stands behind the id in the first record with this id. -/
def first? (row : Row) (id : UInt16) : Option (List UInt8) :=
  (row.find? fun r => r.1.id == id).map Prod.snd

end Row

/-- Where reading stopped: how many bytes the whole records took, what stands behind them, and how
reading ended. -/
structure Stop where
  position : Nat
  rest : List UInt8
  outcome : Except DecodeError Nat

/-- A record with this id stands there: the id, and something behind it. -/
def Stop.Opens (stop : Stop) (id : UInt16) (behind : List UInt8) : Prop :=
  behind ≠ [] ∧ stop.rest = Bytes.ofNat 2 id.toNat ++ behind

namespace Schema

/-- Each record can be passed over as a whole, and stands where some field has had none. -/
def Whole (s : Schema) (fields : List Field) (row : Row) : Prop :=
  ∀ before r after, row = before ++ r :: after →
    r.1 ∈ fields ∧ Read.Gives (s.skip s.fill r.1) r.2 () ∧
      ∃ f ∈ fields, Row.first? before f.id = none

/-- Why reading stops behind whole records. -/
inductive Ends (s : Schema) (fields : List Field) (row : Row) : Stop → Prop
  /-- No more than an id is left, or every field has had a record. -/
  | finished {position : Nat} {rest : List UInt8} :
      rest.length ≤ 2 ∨ (∀ f ∈ fields, row.first? f.id ≠ none) →
      Ends s fields row ⟨position, rest, .ok position⟩
  /-- No field has the id. -/
  | unknown {id : UInt16} {position : Nat} {behind : List UInt8} :
      (∃ f ∈ fields, row.first? f.id = none) → behind ≠ [] → id ∉ fields.map Field.id →
      Ends s fields row
        ⟨position, Bytes.ofNat 2 id.toNat ++ behind, .error (.unknownField id position)⟩
  /-- A later record of a field cannot be passed over. -/
  | again {f : Field} {position : Nat} {behind : List UInt8} {e : DecodeError} :
      (∃ f ∈ fields, row.first? f.id = none) → behind ≠ [] → f ∈ fields → row.first? f.id ≠ none →
      ((s.skip s.fill f).exec ⟨behind, position + 2⟩).1 = .error e →
      Ends s fields row ⟨position, Bytes.ofNat 2 f.id.toNat ++ behind, .error e⟩
  /-- The first record of a field does not fill it. -/
  | broken {f : Field} {position : Nat} {behind : List UInt8} {e : DecodeError} :
      behind ≠ [] → f ∈ fields → row.first? f.id = none →
      Ends s fields row ⟨position, Bytes.ofNat 2 f.id.toNat ++ behind, .error e⟩

mutual

/-- What becomes of the value of a field, given what stood behind the id in its first whole record,
if it had one, and where reading stopped. -/
inductive FieldLeft (s : Schema) : Option (List UInt8) → Stop → Field → Value → Value → Prop
  | untouched {stop : Stop} {f : Field} {old : Value} :
      (∀ behind, ¬ stop.Opens f.id behind) → FieldLeft s none stop f old old
  /-- A value that is no message held inside takes the place of the old one. -/
  | replaced {stop : Stop} {f : Field} {old new : Value} {body : List UInt8} :
      f.isInline = false → Read.Gives (s.readPayload s.fill f) body new →
      FieldLeft s (some body) stop f old new
  | removed {stop : Stop} {f : Field} {old : Value} :
      f.isInline → f.isOptional → FieldLeft s (some [0]) stop f old .absent
  /-- A message is filled where it stands, or built on the default. -/
  | filled {stop : Stop} {f : Field} {old : Value} {mark count frame : List UInt8} {n : Nat}
      {new : List Value} :
      f.isInline → f.Marks mark → Bytes.Hold 2 frame.length count →
      Leaves s f.typeName (old.values?.getD (s.defaultMessage f.typeName)) frame (.ok n) new →
      FieldLeft s (some (mark ++ count ++ frame)) stop f old (.message new)
  /-- Reading stopped at a record that could not even be passed over. -/
  | unread {stop : Stop} {f : Field} {old : Value} {behind : List UInt8} {e : DecodeError} :
      stop.Opens f.id behind → stop.outcome = .error e →
      ((s.skip s.fill f).exec ⟨behind, stop.position + 2⟩).1 = .error e →
      FieldLeft s none stop f old old
  /-- Reading stopped inside a message that was not there before. -/
  | discarded {stop : Stop} {f : Field} {mark count frame more : List UInt8} {e : DecodeError}
      {new : List Value} :
      f.isInline → f.Marks mark → Bytes.Hold 2 frame.length count →
      stop.Opens f.id (mark ++ count ++ frame ++ more) → stop.outcome = .error e →
      Leaves s f.typeName (s.defaultMessage f.typeName) frame (.error e) new →
      FieldLeft s none stop f .absent .absent
  /-- Reading stopped inside the message that the field held. -/
  | merged {stop : Stop} {f : Field} {mark count frame more : List UInt8} {e : DecodeError}
      {old new : List Value} :
      f.isInline → f.Marks mark → Bytes.Hold 2 frame.length count →
      stop.Opens f.id (mark ++ count ++ frame ++ more) → stop.outcome = .error e →
      Leaves s f.typeName old frame (.error e) new →
      FieldLeft s none stop f (.message old) (.message new)

inductive EachLeft (s : Schema) :
    Row → Stop → List Field → List Value → List Value → Prop
  | nil {row : Row} {stop : Stop} : EachLeft s row stop [] [] []
  | cons {row : Row} {stop : Stop} {f : Field} {fs : List Field} {old new : Value}
      {olds news : List Value} :
      FieldLeft s (row.first? f.id) stop f old new → EachLeft s row stop fs olds news →
      EachLeft s row stop (f :: fs) (old :: olds) (new :: news)

/-- What becomes of a message of the type `name` that these bytes are read into, and the outcome: an
error, or how many of the bytes were read. -/
inductive Leaves (s : Schema) :
    String → List Value → List UInt8 → Except DecodeError Nat → List Value → Prop
  | intro {name : String} {row : Row} {stop : Stop} {old new : List Value} :
      s.Whole (s.fieldsOf name) row → stop.position = row.bytes.length →
      s.Ends (s.fieldsOf name) row stop → EachLeft s row stop (s.fieldsOf name) old new →
      Leaves s name old (row.bytes ++ stop.rest) stop.outcome new

end

end Schema

namespace Read

theorem exists_of_exec_flag {q q' : Reader} {b : Bool} (read : flag.exec q = (.ok b, q')) :
    ∃ byte, q.rest = byte :: q'.rest ∧ b = (byte != 0) := by
  obtain ⟨rest, index⟩ := q
  cases rest with
  | nil => cases read
  | cons byte rest =>
    have gives : Gives flag [byte] (byte != 0) := (gives_uint8 byte).map (· != 0)
    cases read.symm.trans (gives rest index)
    exact ⟨byte, rfl, rfl⟩

/-- A frame is the two bytes of its length and as many bytes behind them. -/
theorem exists_of_exec_frame {q q' : Reader} {bs : List UInt8}
    (read : frame.exec q = (.ok bs, q')) :
    ∃ count, Bytes.Hold 2 bs.length count ∧ q.rest = count ++ bs ++ q'.rest := by
  rw [frame, exec_bind, exec_length] at read
  by_cases few : q.rest.length < 2
  · rw [if_pos few] at read
    cases read
  rw [if_neg few] at read
  simp only [exec_bytes] at read
  split at read
  · cases read
  next enough =>
    cases read
    refine ⟨q.rest.take 2, ⟨?_, ?_⟩, ?_⟩
    · rw [List.length_take]
      omega
    · rw [List.length_take]
      omega
    · rw [List.append_assoc, List.take_append_drop, List.take_append_drop]

/-- A frame behind the byte that says whether it is there. -/
theorem exists_of_exec_optional_frame {q q' : Reader} {item : Option (List UInt8)}
    (read : (optional frame).exec q = (.ok item, q')) :
    item = none ∧ q.rest = 0 :: q'.rest ∨
      ∃ b bs count, item = some bs ∧ b ≠ 0 ∧ Bytes.Hold 2 bs.length count ∧
        q.rest = b :: (count ++ bs ++ q'.rest) := by
  rw [exec_optional] at read
  rcases flagged : flag.exec q with ⟨e | b, between⟩
  · rw [flagged] at read
    cases read
  obtain ⟨byte, first, same⟩ := exists_of_exec_flag flagged
  rw [flagged] at read
  cases b with
  | false =>
    cases read
    have zero : byte = 0 := by simpa using same
    exact Or.inl ⟨rfl, by rw [first, zero]⟩
  | true =>
    rcases framed : frame.exec between with ⟨e | bs, after⟩
    · simp only [framed, Except.map] at read
      cases read
    · simp only [framed, Except.map] at read
      cases read
      obtain ⟨count, counts, rest⟩ := exists_of_exec_frame framed
      have there : byte ≠ 0 := by simpa using same.symm
      exact Or.inr ⟨byte, bs, count, rfl, there, counts, by rw [first, rest]⟩

end Read

namespace Schema

/-- What the bytes behind the id of a record bring to its field. -/
inductive Brings (s : Schema) (f : Field) : List UInt8 → Delivery → Prop
  | value {body : List UInt8} {v : Value} :
      f.isInline = false → Read.Gives (s.readPayload s.fill f) body v → Brings s f body (.value v)
  | absent : f.isInline → f.isOptional → Brings s f [0] (.value .absent)
  | frame {mark count bytes : List UInt8} :
      f.isInline → f.Marks mark → Bytes.Hold 2 bytes.length count →
      Brings s f (mark ++ count ++ bytes) (.frame bytes)

section

variable {s : Schema} {f : Field} {d : Delivery} {q q' : Reader}

/-- What is brought to a field is told from the bytes of its record. -/
theorem exists_brings (brought : (s.deliver s.fill f).exec q = (.ok d, q')) :
    ∃ body, q.rest = body ++ q'.rest ∧ s.Brings f body d := by
  rw [deliver] at brought
  by_cases held : f.isInline
  · rw [if_pos held] at brought
    by_cases optional : f.isOptional
    · rw [if_pos optional, Read.exec_bind] at brought
      rcases read : (Read.optional Read.frame).exec q with ⟨e | item, after⟩
      · rw [read] at brought
        cases brought
      rw [read] at brought
      obtain ⟨rfl, rest⟩ | ⟨b, bs, count, rfl, there, counts, rest⟩ :=
        Read.exists_of_exec_optional_frame read
      · cases brought
        exact ⟨[0], rest, .absent held optional⟩
      · cases brought
        have mark : f.Marks [b] := by
          rw [Field.Marks, if_pos optional]
          exact ⟨b, there, rfl⟩
        exact ⟨[b] ++ count ++ bs, by simpa using rest, .frame held mark counts⟩
    · rw [if_neg optional, Read.exec_map] at brought
      rcases read : Read.frame.exec q with ⟨e | bs, after⟩
      · rw [read] at brought
        cases brought
      rw [read] at brought
      cases brought
      obtain ⟨count, counts, rest⟩ := Read.exists_of_exec_frame read
      have mark : f.Marks [] := by rw [Field.Marks, if_neg optional]
      exact ⟨[] ++ count ++ bs, rest, .frame held mark counts⟩
  · rw [if_neg held, Read.exec_map] at brought
    rcases read : (s.readPayload s.fill f).exec q with ⟨e | v, after⟩
    · rw [read] at brought
      cases brought
    rw [read] at brought
    cases brought
    obtain ⟨body, rest, gives, -⟩ := s.delimited_readPayload s.fill f q v after read
    exact ⟨body, rest, .value (by simpa using held) gives⟩

end

/-- The rules say what reading fewer than `n` bytes leaves of a message. -/
def Described (s : Schema) (n : Nat) : Prop :=
  ∀ (name : String) (old : List Value) (bytes : List UInt8), bytes.length < n →
    s.admitsAll (s.fieldsOf name) old →
    let (outcome, new) := s.unpack (s.fieldsOf name) old bytes 0 bytes.length
    s.Leaves name old bytes outcome new

/-- Taking in a frame is reading all of its bytes. -/
theorem fill_eq_unpack (s : Schema) (name : String) (old : List Value) (bytes : List UInt8) :
    s.fill name old bytes =
      ((s.unpack (s.fieldsOf name) old bytes 0 bytes.length).1.map fun _ => (),
        (s.unpack (s.fieldsOf name) old bytes 0 bytes.length).2) := by
  have range : Reader.ofRange bytes 0 bytes.length = .ok (Reader.ofBytes bytes) := by
    rw [Reader.ofRange, if_pos (by omega), List.drop_zero, List.take_length]
  rw [fill, unpack, range]
  dsimp only
  rcases s.readFields (s.fieldsOf name) old (Reader.ofBytes bytes) with ⟨e | u, new, r⟩ <;> rfl

/-- The rules for frames, as messages take them in. -/
theorem Described.of_fill {s : Schema} {n : Nat} (described : s.Described n) {name : String}
    {old : List Value} {frame : List UInt8} (short : frame.length < n)
    (start : s.admitsAll (s.fieldsOf name) old) :
    match s.fill name old frame with
    | (.ok (), new) => ∃ count, s.Leaves name old frame (.ok count) new
    | (.error e, new) => s.Leaves name old frame (.error e) new := by
  have rules := described name old frame short start
  rw [fill_eq_unpack]
  generalize s.unpack (s.fieldsOf name) old frame 0 frame.length = reply at rules ⊢
  rcases reply with ⟨e | count, new⟩
  · exact rules
  · exact ⟨count, rules⟩

/-- A whole record leaves its field by the rules, whether it fills it or is what reading stops at.
-/
theorem fieldLeft_accept {s : Schema} {n : Nat} {f : Field} {old : Value} {d : Delivery}
    {body : List UInt8} (grounded : s.Grounded) (described : s.Described n)
    (short : body.length < n) (admitted : s.admits f old) (brings : s.Brings f body d) :
    match s.accept s.fill f old d with
    | (.ok (), new) => ∀ stop, s.FieldLeft (some body) stop f old new
    | (.error e, new) => ∀ stop more, Stop.Opens stop f.id (body ++ more) →
        stop.outcome = .error e → s.FieldLeft none stop f old new := by
  cases brings with
  | value single gives => exact fun stop => .replaced single gives
  | absent held optional => exact fun stop => .removed held optional
  | @frame mark count bytes held marks counts =>
    rw [List.length_append] at short
    obtain ⟨rfl, -⟩ | ⟨values, rfl, inner⟩ := absent_or_message held admitted
    · have inside := described.of_fill (show bytes.length < n by omega) (grounded f.typeName).1
      simp only [accept, Value.values?]
      generalize s.fill f.typeName (s.defaultMessage f.typeName) bytes = reply at inside ⊢
      rcases reply with ⟨e | u, new⟩
      · exact fun stop more opens failed => .discarded held marks counts opens failed inside
      · obtain ⟨size, leaves⟩ := inside
        exact fun stop => .filled held marks counts leaves
    · have inside := described.of_fill (show bytes.length < n by omega) inner
      simp only [accept, Value.values?]
      generalize s.fill f.typeName values bytes = reply at inside ⊢
      rcases reply with ⟨e | u, new⟩
      · exact fun stop more opens failed => .merged held marks counts opens failed inside
      · obtain ⟨size, leaves⟩ := inside
        exact fun stop => .filled held marks counts leaves

end Schema

namespace Row

variable {row : Row} {id : UInt16} {f : Field} {body : List UInt8}

theorem bytes_concat (row : Row) (f : Field) (body : List UInt8) :
    bytes (row ++ [(f, body)]) = row.bytes ++ (Bytes.ofNat 2 f.id.toNat ++ body) := by
  simp [bytes]

/-- Later records do not change which record of a field is the first. -/
theorem first?_append_of_some (found : row.first? id = some body) (later : Row) :
    first? (row ++ later) id = some body := by
  obtain ⟨r, seen, rfl⟩ := Option.map_eq_some_iff.mp found
  rw [first?, List.find?_append, seen]
  rfl

theorem first?_concat_of_ne (other : f.id ≠ id) :
    first? (row ++ [(f, body)]) id = row.first? id := by
  have none : [(f, body)].find? (fun r => r.1.id == id) = none := by simpa using other
  rw [first?, List.find?_append, none, Option.or_none]
  rfl

theorem first?_concat_self (none : row.first? f.id = none) :
    first? (row ++ [(f, body)]) f.id = some body := by
  have unseen := Option.map_eq_none_iff.mp none
  rw [first?, List.find?_append, unseen]
  simp

end Row

namespace Stop

variable {stop : Stop} {id other : UInt16} {behind more : List UInt8}

/-- One id stands there, or none. -/
theorem Opens.id_eq (opens : stop.Opens id behind) (also : stop.Opens other more) : id = other := by
  have same := opens.2.symm.trans also.2
  have ids := (List.append_inj same (by rw [Bytes.length_ofNat, Bytes.length_ofNat])).1
  rw [← Bytes.toUInt16_toNat_ofNat id, ids, Bytes.toUInt16_toNat_ofNat]

/-- Two bytes open no record. -/
theorem not_opens_of_short (short : stop.rest.length ≤ 2) : ¬ stop.Opens id behind := by
  rintro ⟨filled, rest⟩
  have some := List.length_pos_iff.mpr filled
  rw [rest, List.length_append, Bytes.length_ofNat] at short
  omega

end Stop

section

variable {α β : Type} {R S : α → β → Prop} {as : List α} {bs : List β}

theorem forall₂_imp_of_mem (related : List.Forall₂ R as bs)
    (each : ∀ b ∈ bs, ∀ a, R a b → S a b) : List.Forall₂ S as bs := by
  rw [List.forall₂_iff_zip] at related ⊢
  exact ⟨related.1, fun inside => each _ (List.of_mem_zip inside).2 _ (related.2 inside)⟩

theorem exists_of_forall₂ (related : List.Forall₂ R as bs) {b : β} (member : b ∈ bs) :
    ∃ a ∈ as, R a b := by
  induction related with
  | nil => cases member
  | cons first _ ih =>
    cases member with
    | head => exact ⟨_, List.mem_cons_self, first⟩
    | tail _ later =>
      obtain ⟨a, inside, holds⟩ := ih later
      exact ⟨a, List.mem_cons_of_mem _ inside, holds⟩

end

namespace Schema

/-- A slot behind whole records, given the slot that reading began with. -/
inductive Kept (s : Schema) (row : Row) (start : Slot) : Slot → Prop
  | waiting : row.first? start.field.id = none → s.admits start.field start.value →
      Kept s row start ⟨start.field, start.value, false⟩
  | filled {body : List UInt8} {new : Value} : row.first? start.field.id = some body →
      (∀ stop, s.FieldLeft (some body) stop start.field start.value new) →
      Kept s row start ⟨start.field, new, true⟩

section

variable {s : Schema} {row : Row} {start slot : Slot} {starts slots : List Slot}

theorem Kept.field_eq (kept : s.Kept row start slot) : slot.field = start.field := by
  cases kept <;> rfl

/-- A slot waits for a record as long as the row has none for its field. -/
theorem Kept.unseen_iff (kept : s.Kept row start slot) :
    slot.seen = false ↔ row.first? slot.field.id = none := by
  cases kept with
  | waiting none _ => simp [none]
  | filled found _ => simp [found]

/-- A record of another field changes nothing. -/
theorem Kept.concat_of_ne (kept : s.Kept row start slot) {f : Field} {body : List UInt8}
    (other : slot.field.id ≠ f.id) : s.Kept (row ++ [(f, body)]) start slot := by
  cases kept with
  | waiting none admitted => exact .waiting (by rwa [Row.first?_concat_of_ne other.symm]) admitted
  | filled found left => exact .filled (Row.first?_append_of_some found _) left

/-- Where reading stops elsewhere, the slot holds what the rules say. -/
theorem Kept.fieldLeft (kept : s.Kept row start slot) {stop : Stop}
    (elsewhere : slot.seen = false → ∀ behind, ¬ stop.Opens slot.field.id behind) :
    s.FieldLeft (row.first? start.field.id) stop start.field start.value slot.value := by
  cases kept with
  | waiting none _ =>
    rw [none]
    exact .untouched (elsewhere rfl)
  | filled found left =>
    rw [found]
    exact left stop

theorem fields_of_kept (kept : List.Forall₂ (s.Kept row) starts slots) :
    slots.map Slot.field = starts.map Slot.field := by
  induction kept with
  | nil => rfl
  | cons first _ ih => rw [List.map_cons, List.map_cons, first.field_eq, ih]

/-- Before the first record, every slot is as it was. -/
theorem kept_ofValues {fields : List Field} {values : List Value}
    (admitted : s.admitsAll fields values) :
    List.Forall₂ (s.Kept []) (Slot.ofValues fields values) (Slot.ofValues fields values) := by
  induction fields generalizing values with
  | nil => exact .nil
  | cons f fs ih =>
    cases values with
    | nil => cases admitted
    | cons v vs =>
      have both := admitsAll_cons.mp admitted
      have first : s.Kept [] ⟨f, v, false⟩ ⟨f, v, false⟩ := .waiting rfl both.1
      exact .cons first (ih both.2)

/-- Slots that are each left by the rules leave the message so. -/
theorem eachLeft_of_forall₂ {stop : Stop} {fields : List Field} {values : List Value}
    (sized : values.length = fields.length)
    (each : List.Forall₂ (fun start slot : Slot =>
      s.FieldLeft (row.first? start.field.id) stop start.field start.value slot.value)
      (Slot.ofValues fields values) slots) :
    s.EachLeft row stop fields values (slots.map Slot.value) := by
  induction fields generalizing values slots with
  | nil =>
    cases List.length_eq_zero_iff.mp sized
    cases each
    exact .nil
  | cons f fs ih =>
    cases values with
    | nil => cases sized
    | cons v vs =>
      cases each with
      | cons first later => exact .cons first (ih (Nat.succ.inj sized) later)

end

section

variable {s : Schema} {fill : Fill} {id : UInt16} {starts slots slots' : List Slot} {q q' : Reader}
  {outcome : Except DecodeError Unit}

/-- A record is read into a slot with its id. -/
theorem exists_slot_of_readRecord
    (read : s.readRecord fill id slots q = some (outcome, slots', q')) :
    ∃ slot ∈ slots, slot.field.id = id ∧ ∃ new, s.readSlot fill slot q = (outcome, new, q') := by
  induction slots generalizing slots' with
  | nil => cases read
  | cons slot slots ih =>
    rw [readRecord] at read
    split at read
    next same =>
      rcases own : s.readSlot fill slot q with ⟨outcome, new, after⟩
      rw [own] at read
      cases read
      exact ⟨slot, List.mem_cons_self, same, new, own⟩
    next =>
      obtain ⟨⟨outcome, later, after⟩, read, same⟩ := Option.map_eq_some_iff.mp read
      cases same
      obtain ⟨slot, member, found⟩ := ih read
      exact ⟨slot, List.mem_cons_of_mem _ member, found⟩

/-- A record is unknown only if no field has its id. -/
theorem ne_of_readRecord_eq_none (none : s.readRecord fill id slots q = none) :
    ∀ slot ∈ slots, slot.field.id ≠ id := by
  induction slots with
  | nil => exact fun slot member => absurd member List.not_mem_nil
  | cons slot slots ih =>
    rw [readRecord] at none
    split at none
    · cases none
    next other =>
      exact List.forall_mem_cons.mpr ⟨other, ih (Option.map_eq_none_iff.mp none)⟩

/-- Slots are changed one at a time, so what holds of each slot is kept slot by slot. -/
theorem forall₂_readRecord {R S : Slot → Slot → Prop}
    (distinct : (slots.map fun slot => slot.field.id).Nodup)
    (read : s.readRecord fill id slots q = some (outcome, slots', q'))
    (related : List.Forall₂ R starts slots)
    (own : ∀ start slot new, R start slot → slot.field.id = id →
      s.readSlot fill slot q = (outcome, new, q') → S start new)
    (others : ∀ start slot, R start slot → slot.field.id ≠ id → S start slot) :
    List.Forall₂ S starts slots' := by
  induction related generalizing slots' with
  | nil => cases read
  | @cons start slot starts slots first later ih =>
    rw [List.map_cons, List.nodup_cons] at distinct
    rw [readRecord] at read
    split at read
    next same =>
      rcases filled : s.readSlot fill slot q with ⟨outcome, new, after⟩
      rw [filled] at read
      cases read
      refine .cons (own start slot new first same filled) (forall₂_imp_of_mem later ?_)
      intro other member a holds
      refine others a other holds fun equal => distinct.1 ?_
      exact List.mem_map.mpr ⟨other, member, equal.trans same.symm⟩
    next other =>
      obtain ⟨⟨outcome, left, after⟩, read, same⟩ := Option.map_eq_some_iff.mp read
      cases same
      exact .cons (others start slot first other) (ih distinct.2 read)

end

section

variable {s : Schema} {row : Row} {start slot new : Slot} {q q' : Reader} {n : Nat}

/-- A field that has had its record passes a further one over. -/
theorem readSlot_of_seen {fill : Fill} (seen : slot.seen) (q : Reader) :
    s.readSlot fill slot q =
      (((s.skip fill slot.field).exec q).1, slot, ((s.skip fill slot.field).exec q).2) := by
  rw [readSlot, if_pos seen]

/-- A record that is read can be passed over. -/
theorem exec_skip_of_readSlot {fill : Fill} (read : s.readSlot fill slot q = (.ok (), new, q')) :
    (s.skip fill slot.field).exec q = (.ok (), q') := by
  cases seen : slot.seen with
  | true =>
    rw [readSlot_of_seen seen, Prod.mk.injEq, Prod.mk.injEq] at read
    exact Prod.ext read.1 read.2.2
  | false =>
    rw [readSlot, if_neg (by simp [seen])] at read
    rcases filled : s.populate fill slot.field slot.value q with ⟨e | u, v, after⟩
    · rw [filled] at read
      cases read
    · rw [filled] at read
      cases read
      exact exec_skip_of_populate filled

/-- A record that is read whole is the first of its field and fills it, or is passed over. -/
theorem Kept.concat (grounded : s.Grounded) (described : s.Described n) (short : q.remaining < n)
    (kept : s.Kept row start slot) {f : Field} {body : List UInt8} (same : slot.field.id = f.id)
    (taken : q.rest = body ++ q'.rest) (read : s.readSlot s.fill slot q = (.ok (), new, q')) :
    s.Kept (row ++ [(f, body)]) start new := by
  rw [Reader.remaining, taken, List.length_append] at short
  cases kept with
  | filled found left =>
    rw [readSlot_of_seen rfl, Prod.mk.injEq, Prod.mk.injEq] at read
    obtain ⟨-, rfl, -⟩ := read
    exact .filled (Row.first?_append_of_some found _) left
  | waiting none admitted =>
    simp only [readSlot, Bool.false_eq_true, if_false, populate_eq_deliver admitted] at read
    rcases brought : (s.deliver s.fill start.field).exec q with ⟨e | d, after⟩
    · rw [brought] at read
      cases read
    rw [brought] at read
    rcases accepted : s.accept s.fill start.field start.value d with ⟨e | u, v⟩
    · simp only [accepted] at read
      cases read
    simp only [accepted] at read
    cases read
    obtain ⟨bs, rest, brings⟩ := exists_brings brought
    obtain rfl := List.append_cancel_right (taken.symm.trans rest)
    have found : Row.first? (row ++ [(f, body)]) start.field.id = some body := by
      rw [same] at none ⊢
      exact Row.first?_concat_self none
    have rule := fieldLeft_accept grounded described (by omega) admitted brings
    rw [accepted] at rule
    exact .filled found rule

/-- The slot of the record that reading stopped at holds what the rules say. -/
theorem Kept.fieldLeft_of_error (grounded : s.Grounded) (described : s.Described n)
    (kept : s.Kept row start slot) {stop : Stop} {behind : List UInt8} {e : DecodeError}
    (short : behind.length < n) (opens : stop.Opens slot.field.id behind)
    (failed : stop.outcome = .error e)
    (read : s.readSlot s.fill slot ⟨behind, stop.position + 2⟩ = (.error e, new, q')) :
    s.FieldLeft (row.first? start.field.id) stop start.field start.value new.value := by
  cases kept with
  | filled found left =>
    rw [readSlot_of_seen rfl, Prod.mk.injEq, Prod.mk.injEq] at read
    obtain ⟨-, rfl, -⟩ := read
    rw [found]
    exact left stop
  | waiting none admitted =>
    rw [none]
    simp only [readSlot, Bool.false_eq_true, if_false, populate_eq_deliver admitted] at read
    rcases brought : (s.deliver s.fill start.field).exec ⟨behind, stop.position + 2⟩ with
      ⟨e | d, after⟩
    · rw [brought] at read
      cases read
      exact .unread opens failed (by rw [exec_skip, brought]; rfl)
    rw [brought] at read
    rcases refused : s.accept s.fill start.field start.value d with ⟨e | u, v⟩
    · simp only [refused] at read
      cases read
      obtain ⟨body, rest, brings⟩ := exists_brings brought
      obtain rfl : behind = body ++ q'.rest := rest
      rw [List.length_append] at short
      have rule := fieldLeft_accept grounded described (by omega) admitted brings
      rw [refused] at rule
      exact rule stop q'.rest opens failed
    · simp only [refused] at read
      cases read

/-- Where a later record of a field fails, it cannot be passed over. -/
theorem Kept.exec_skip_of_error (kept : s.Kept row start slot) {e : DecodeError}
    (again : row.first? slot.field.id ≠ none)
    (read : s.readSlot s.fill slot q = (.error e, new, q')) :
    ((s.skip s.fill slot.field).exec q).1 = .error e := by
  cases kept with
  | waiting none _ => exact absurd none again
  | filled found left =>
    rw [readSlot_of_seen rfl] at read
    exact congrArg Prod.fst read

end

/-- More than two bytes begin with the id of a record. -/
theorem exists_id {rest : List UInt8} (long : 2 < rest.length) :
    ∃ (id : UInt16) (behind : List UInt8), behind ≠ [] ∧
      rest = Bytes.ofNat 2 id.toNat ++ behind := by
  obtain ⟨low, high, next, more, same⟩ := Reader.exists_more (r := Reader.ofBytes rest) long
  have small : Bytes.toNat [low, high] < 256 ^ 2 := Bytes.toNat_lt [low, high]
  have id : Bytes.ofNat 2 (Bytes.toNat [low, high]).toUInt16.toNat = [low, high] := by
    rw [Text.Utf16.toNat_unit small]
    exact Bytes.ofNat_toNat [low, high]
  exact ⟨_, next :: more, List.cons_ne_nil _ _, by rw [id]; exact congrArg Reader.rest same⟩

/-- Frames are taken in alike, with the fuel of the loop and with their own. -/
theorem agreeTo_fill (s : Schema) (fuel : Nat) : Fill.AgreeTo fuel (s.fillTo fuel) s.fill :=
  fun name values bytes short =>
    s.agreeTo_fillTo short (Nat.le_refl bytes.length) name values bytes (Nat.le_refl _)

/-- A record that is taken whole leaves the row whole. -/
theorem Whole.concat {s : Schema} {fields : List Field} {row : Row} (whole : s.Whole fields row)
    {f : Field} {body : List UInt8} (member : f ∈ fields)
    (gives : Read.Gives (s.skip s.fill f) body ())
    (waiting : ∃ f ∈ fields, row.first? f.id = none) : s.Whole fields (row ++ [(f, body)]) := by
  intro before r after split
  rcases List.eq_nil_or_concat after with rfl | ⟨after, last, rfl⟩
  · obtain ⟨rfl, same⟩ := List.append_inj' split rfl
    cases same
    exact ⟨member, gives, waiting⟩
  · rw [List.concat_eq_append, ← List.cons_append, ← List.append_assoc] at split
    exact whole before r after (List.append_inj' split rfl).1

section

variable {s : Schema} {name : String} {old : List Value} {row : Row} {slots slots' : List Slot}
  {bytes rest : List UInt8}

theorem fields_of_kept_ofValues (start : s.admitsAll (s.fieldsOf name) old)
    (kept : List.Forall₂ (s.Kept row) (Slot.ofValues (s.fieldsOf name) old) slots) :
    slots.map Slot.field = s.fieldsOf name := by
  rw [fields_of_kept kept, Slot.fields_ofValues start]

/-- The slots of a message have distinct ids throughout. -/
theorem distinct_of_kept (readable : s.Readable) (start : s.admitsAll (s.fieldsOf name) old)
    (kept : List.Forall₂ (s.Kept row) (Slot.ofValues (s.fieldsOf name) old) slots) :
    (slots.map fun slot => slot.field.id).Nodup := by
  have ids := readable.distinct name
  rwa [← fields_of_kept_ofValues start kept, List.map_map] at ids

/-- Slots are left to fill as long as some field has no record in the row. -/
theorem exists_waiting_field (start : s.admitsAll (s.fieldsOf name) old)
    (kept : List.Forall₂ (s.Kept row) (Slot.ofValues (s.fieldsOf name) old) slots) :
    slots.all Slot.seen = false ↔ ∃ f ∈ s.fieldsOf name, row.first? f.id = none := by
  have each : ∀ slot ∈ slots, (slot.seen = false ↔ row.first? slot.field.id = none) := by
    intro slot member
    obtain ⟨a, -, state⟩ := exists_of_forall₂ kept member
    exact state.unseen_iff
  rw [List.all_eq_false, ← fields_of_kept_ofValues start kept]
  constructor
  · rintro ⟨slot, member, unseen⟩
    exact ⟨slot.field, List.mem_map.mpr ⟨slot, member, rfl⟩,
      (each slot member).mp (by simpa using unseen)⟩
  · rintro ⟨f, member, none⟩
    obtain ⟨slot, inside, rfl⟩ := List.mem_map.mp member
    exact ⟨slot, inside, by simpa using (each slot inside).mpr none⟩

/-- Reading that is done leaves every slot as its records made it. -/
theorem leaves_finished (start : s.admitsAll (s.fieldsOf name) old)
    (whole : s.Whole (s.fieldsOf name) row)
    (kept : List.Forall₂ (s.Kept row) (Slot.ofValues (s.fieldsOf name) old) slots)
    (ended : rest.length ≤ 2 ∨ slots.all Slot.seen) :
    s.Leaves name old (row.bytes ++ rest) (.ok row.bytes.length) (slots.map Slot.value) := by
  have ends : s.Ends (s.fieldsOf name) row ⟨row.bytes.length, rest, .ok row.bytes.length⟩ := by
    refine .finished (ended.imp id fun seen => ?_)
    have none := mt (exists_waiting_field start kept).mpr (by simp [seen])
    simpa using none
  refine .intro whole rfl ends (eachLeft_of_forall₂ (length_of_admitsAll start) ?_)
  refine forall₂_imp_of_mem kept fun slot member a state => state.fieldLeft fun unseen behind => ?_
  rcases ended with short | seen
  · exact Stop.not_opens_of_short short
  · have own := List.all_eq_true.mp seen slot member
    rw [unseen] at own
    cases own

/-- Reading that meets an id of no field leaves every slot as its records made it. -/
theorem leaves_unknown (start : s.admitsAll (s.fieldsOf name) old)
    (whole : s.Whole (s.fieldsOf name) row)
    (kept : List.Forall₂ (s.Kept row) (Slot.ofValues (s.fieldsOf name) old) slots)
    (waiting : ∃ f ∈ s.fieldsOf name, row.first? f.id = none) {id : UInt16} (filled : rest ≠ [])
    (unknown : ∀ slot ∈ slots, slot.field.id ≠ id) :
    s.Leaves name old (row.bytes ++ (Bytes.ofNat 2 id.toNat ++ rest))
      (.error (.unknownField id row.bytes.length)) (slots.map Slot.value) := by
  have none : id ∉ (s.fieldsOf name).map Field.id := by
    rw [← fields_of_kept_ofValues start kept, List.map_map]
    intro member
    obtain ⟨slot, inside, same⟩ := List.mem_map.mp member
    exact unknown slot inside same
  have ends : s.Ends (s.fieldsOf name) row ⟨row.bytes.length, Bytes.ofNat 2 id.toNat ++ rest,
      .error (.unknownField id row.bytes.length)⟩ := .unknown waiting filled none
  refine .intro whole rfl ends (eachLeft_of_forall₂ (length_of_admitsAll start) ?_)
  refine forall₂_imp_of_mem kept fun slot member a state => state.fieldLeft fun _ behind opens => ?_
  exact unknown slot member (opens.id_eq ⟨filled, rfl⟩)

/-- Reading that fails at a record leaves the other slots as their records made them. -/
theorem leaves_failed (readable : s.Readable) (start : s.admitsAll (s.fieldsOf name) old)
    (described : s.Described bytes.length) (short : rest.length < bytes.length)
    (whole : s.Whole (s.fieldsOf name) row)
    (kept : List.Forall₂ (s.Kept row) (Slot.ofValues (s.fieldsOf name) old) slots)
    (waiting : ∃ f ∈ s.fieldsOf name, row.first? f.id = none) {id : UInt16} (filled : rest ≠ [])
    {e : DecodeError} {q : Reader}
    (failed : s.readRecord s.fill id slots ⟨rest, row.bytes.length + 2⟩ =
      some (.error e, slots', q)) :
    s.Leaves name old (row.bytes ++ (Bytes.ofNat 2 id.toNat ++ rest)) (.error e)
      (slots'.map Slot.value) := by
  have distinct := distinct_of_kept readable start kept
  have ends : s.Ends (s.fieldsOf name) row
      ⟨row.bytes.length, Bytes.ofNat 2 id.toNat ++ rest, .error e⟩ := by
    obtain ⟨slot, member, rfl, new, read⟩ := exists_slot_of_readRecord failed
    have known : slot.field ∈ s.fieldsOf name := by
      rw [← fields_of_kept_ofValues start kept]
      exact List.mem_map.mpr ⟨slot, member, rfl⟩
    by_cases first : row.first? slot.field.id = none
    · exact .broken filled known first
    · obtain ⟨a, -, state⟩ := exists_of_forall₂ kept member
      exact .again waiting filled known first (state.exec_skip_of_error first read)
  refine .intro whole rfl ends (eachLeft_of_forall₂ (length_of_admitsAll start) ?_)
  apply forall₂_readRecord distinct failed kept
  · rintro a slot new state rfl read
    exact state.fieldLeft_of_error readable.grounded described short ⟨filled, rfl⟩ rfl read
  · intro a slot state other
    exact state.fieldLeft fun _ behind opens => other (opens.id_eq ⟨filled, rfl⟩)

/-- A record that is read whole joins the row. -/
theorem exists_concat (readable : s.Readable) (start : s.admitsAll (s.fieldsOf name) old)
    (described : s.Described bytes.length) (short : rest.length < bytes.length)
    (whole : s.Whole (s.fieldsOf name) row)
    (kept : List.Forall₂ (s.Kept row) (Slot.ofValues (s.fieldsOf name) old) slots)
    (waiting : ∃ f ∈ s.fieldsOf name, row.first? f.id = none) {id : UInt16} {q : Reader}
    (taken : s.readRecord s.fill id slots ⟨rest, row.bytes.length + 2⟩ = some (.ok (), slots', q)) :
    ∃ f body, f.id = id ∧ rest = body ++ q.rest ∧
      q = ⟨q.rest, Row.bytes (row ++ [(f, body)]) |>.length⟩ ∧
      s.Whole (s.fieldsOf name) (row ++ [(f, body)]) ∧
      List.Forall₂ (s.Kept (row ++ [(f, body)])) (Slot.ofValues (s.fieldsOf name) old) slots' := by
  have distinct := distinct_of_kept readable start kept
  obtain ⟨slot, member, rfl, new, read⟩ := exists_slot_of_readRecord taken
  have known : slot.field ∈ s.fieldsOf name := by
    rw [← fields_of_kept_ofValues start kept]
    exact List.mem_map.mpr ⟨slot, member, rfl⟩
  have passed := exec_skip_of_readSlot read
  obtain ⟨body, split, gives, -⟩ := s.delimited_skip s.fill slot.field _ _ _ passed
  replace split : rest = body ++ q.rest := split
  have after := gives q.rest (row.bytes.length + 2)
  rw [← split, passed, Prod.mk.injEq] at after
  refine ⟨slot.field, body, rfl, split, ?_, whole.concat known gives waiting, ?_⟩
  · rw [Row.bytes_concat, List.length_append, List.length_append, Bytes.length_ofNat,
      ← Nat.add_assoc]
    exact after.2
  · apply forall₂_readRecord distinct taken kept
    · intro a other new state same read
      exact state.concat (q := ⟨rest, _⟩) readable.grounded described short same split read
    · intro a other state different
      exact state.concat_of_ne different

/-- What the read loop leaves behind whole records is what the rules say. -/
theorem leaves_of_readRecords (readable : s.Readable) (start : s.admitsAll (s.fieldsOf name) old)
    (described : s.Described bytes.length) {fuel : Nat} (split : bytes = row.bytes ++ rest)
    (whole : s.Whole (s.fieldsOf name) row)
    (kept : List.Forall₂ (s.Kept row) (Slot.ofValues (s.fieldsOf name) old) slots)
    (enough : rest.length ≤ fuel) {outcome : Except DecodeError Unit} {r : Reader}
    (read : s.readRecords fuel slots ⟨rest, row.bytes.length⟩ = (outcome, slots', r)) :
    s.Leaves name old bytes (outcome.map fun _ => r.index) (slots'.map Slot.value) := by
  -- A turn ends the run, or it moves one record from the rest to the row.
  induction fuel generalizing row slots rest with
  | zero =>
    cases read
    rw [split]
    exact leaves_finished start whole kept (Or.inl (by omega))
  | succ fuel ih =>
    by_cases ended : rest.length ≤ 2 ∨ slots.all Slot.seen
    · have done : s.readRecords (fuel + 1) slots ⟨rest, row.bytes.length⟩ =
          (.ok (), slots, ⟨rest, row.bytes.length⟩) := by
        rcases ended with short | seen
        · exact readRecords_of_short (r := ⟨rest, _⟩) _ _ short
        · exact readRecords_of_seen _ seen _
      cases read.symm.trans done
      rw [split]
      exact leaves_finished start whole kept ended
    rw [not_or, Bool.not_eq_true] at ended
    have waiting := (exists_waiting_field start kept).mp ended.2
    obtain ⟨id, behind, filled, rfl⟩ := exists_id (Nat.lt_of_not_le ended.1)
    rw [List.length_append, Bytes.length_ofNat] at enough
    have less : behind.length < bytes.length := by
      rw [split, List.length_append, List.length_append, Bytes.length_ofNat]
      omega
    rw [readRecords_id fuel ended.2 id filled, readRecord_agree (r := ⟨behind, _⟩)
      (s.agreeTo_fill fuel) id slots (show behind.length ≤ fuel by omega)] at read
    rcases turn : s.readRecord s.fill id slots ⟨behind, row.bytes.length + 2⟩ with
      _ | ⟨e | u, left, q⟩
    · rw [turn] at read
      cases read
      rw [split]
      exact leaves_unknown start whole kept waiting filled (ne_of_readRecord_eq_none turn)
    · rw [turn] at read
      cases read
      have failed := leaves_failed readable start described less whole kept waiting filled turn
      rwa [← split] at failed
    · rw [turn] at read
      obtain ⟨f, body, rfl, rfl, after, joined, kept⟩ :=
        exists_concat readable start described less whole kept waiting turn
      rw [List.length_append] at enough
      rw [after] at read
      refine ih ?_ joined kept (by omega) read
      rw [split, Row.bytes_concat, List.append_assoc, List.append_assoc]

end

/-- In a readable schema the rules describe what is left of every message, however long. -/
theorem Readable.described {s : Schema} (readable : s.Readable) (n : Nat) : s.Described n := by
  induction n with
  | zero => exact fun name old bytes short => absurd short (Nat.not_lt_zero _)
  | succ n ih =>
    intro name old bytes short start
    -- The frames inside are shorter than the bytes that they stand in.
    have described : s.Described bytes.length := fun name old frame less =>
      ih name old frame (by omega)
    rcases read : s.readRecords bytes.length (Slot.ofValues (s.fieldsOf name) old)
      (Reader.ofBytes bytes) with ⟨outcome, slots, r⟩
    have whole : s.Whole (s.fieldsOf name) [] := fun before r after split => by simp at split
    have none : bytes = Row.bytes [] ++ bytes := rfl
    rw [unpack_whole read]
    exact leaves_of_readRecords readable start described none whole (kept_ofValues start)
      (Nat.le_refl _) read

/-- A range of bytes is read as these bytes by themselves are. -/
theorem unpack_range (s : Schema) (fields : List Field) (values : List Value) {data : List UInt8}
    {offset length : Nat} (inside : offset + length ≤ data.length) :
    s.unpack fields values data offset length =
      s.unpack fields values ((data.drop offset).take length) 0
        ((data.drop offset).take length).length := by
  rw [unpack, unpack, Reader.ofRange, Reader.ofRange, if_pos inside, if_pos (by omega),
    List.drop_zero, List.take_length]

section

variable {tokens : List Token} {s : Schema} {d : Definition} {v : List Value}

/-- Whether or not reading a range of bytes into a message comes to an end, it leaves the message as
the rules say: fields that no record was met of keep their values, fields whose first record was
whole hold what it says, and what reading failed at is left alone but for messages that were being
filled where they stood. A range that is not inside the data leaves the message alone. -/
theorem unpack_leaves (accepted : ofTokens tokens = .ok s) (member : d ∈ s.definitions)
    (start : s.admitsAll d.fields v) (data : List UInt8) (offset length : Nat) :
    (offset + length ≤ data.length →
      s.Leaves d.name v ((data.drop offset).take length)
        (s.unpack d.fields v data offset length).1 (s.unpack d.fields v data offset length).2) ∧
    (data.length < offset + length →
      s.unpack d.fields v data offset length =
        (.error (.outOfBounds offset length data.length), v)) := by
  have lawful := lawful_of_ofTokens accepted
  have readable := lawful.readable (bound_of_ofTokens accepted)
  constructor
  · intro inside
    rw [← lawful.fieldsOf_of_mem member] at start ⊢
    rw [unpack_range s _ v inside]
    exact readable.described _ d.name v _ (Nat.lt_succ_self _) start
  · intro outside
    rw [unpack, Reader.ofRange, if_neg (Nat.not_le.mpr outside)]

end

end Schema

/-! A schema with messages inside a message: `message Graft { Tree stock; Tree? scion; }`. -/

def graftFields : List Field :=
  [⟨.message, "Tree", "stock", 0, false, false, ⟨10, 3⟩⟩,
    ⟨.message, "Tree", "scion", 1, true, false, ⟨11, 3⟩⟩]

def nursery : Schema where
  defines := []
  definitions := forest.definitions ++ [⟨"Graft", ⟨9, 9⟩, .message graftFields⟩]

def nurseryTokens : List Token :=
  forestTokens.dropLast ++
  [⟨.message, "message", 142, ⟨9, 1⟩⟩, ⟨.identifier, "Graft", 150, ⟨9, 9⟩⟩,
    ⟨.openBrace, "\x7b", 156, ⟨9, 15⟩⟩, ⟨.identifier, "Tree", 160, ⟨10, 3⟩⟩,
    ⟨.identifier, "stock", 165, ⟨10, 8⟩⟩, ⟨.semicolon, ";", 170, ⟨10, 13⟩⟩,
    ⟨.identifier, "Tree", 174, ⟨11, 3⟩⟩, ⟨.question, "?", 178, ⟨11, 7⟩⟩,
    ⟨.identifier, "scion", 180, ⟨11, 9⟩⟩, ⟨.semicolon, ";", 185, ⟨11, 14⟩⟩,
    ⟨.closeBrace, "\x7d", 187, ⟨12, 1⟩⟩, ⟨.finish, "", 189, ⟨13, 1⟩⟩]

theorem nursery_accepted : Schema.ofTokens nurseryTokens = .ok nursery :=
  Schema.ofTokens_of_draft (by decide +kernel) (by decide +kernel) rfl (by decide) (by cbv)

def graftBytes : List UInt8 :=
  [0, 0, 4, 0, 0, 0, 0, 0,
    1, 0, 1, 13, 0, 0, 0, 1, 0, 97, 0, 1, 0, 1, 9, 0, 0, 0]

namespace Schema

/-- The colour fails: the stock has its new label, and so has the scion that stood there. -/
theorem unpack_leaves_graft :
    ofTokens nurseryTokens = .ok nursery ∧
      nursery.admitsAll graftFields [.message oak, .message elm] ∧
      nursery.unpack graftFields [.message oak, .message elm] graftBytes 0 26 =
        (.error (.unknownEnumValue "Hue" 9),
          [.message (.scalar (.string "") :: oak.tail),
            .message (.scalar (.string "a") :: elm.tail)]) ∧
      nursery.Leaves "Graft" [.message oak, .message elm] graftBytes
        (.error (.unknownEnumValue "Hue" 9))
        [.message (.scalar (.string "") :: oak.tail),
          .message (.scalar (.string "a") :: elm.tail)] := by
  have start : nursery.admitsAll graftFields [.message oak, .message elm] := by decide
  have read : nursery.unpack graftFields [.message oak, .message elm] graftBytes 0 26 =
      (.error (.unknownEnumValue "Hue" 9),
        [.message (.scalar (.string "") :: oak.tail),
          .message (.scalar (.string "a") :: elm.tail)]) := rfl
  have leaves := (unpack_leaves (d := ⟨"Graft", ⟨9, 9⟩, .message graftFields⟩) nursery_accepted
    (by decide) start graftBytes 0 26).1 (by decide)
  rw [Definition.fields, read] at leaves
  exact ⟨nursery_accepted, start, read, leaves⟩

end Schema

end WireSchema
