import WireSchema.Proofs.Runs
import Mathlib.Data.List.Perm.Basic

/-!
Reading the records of a message, in whatever order they stand. One record changes the slot of its
field and no other; a run over records with distinct ids therefore leaves each slot filled from its
own record, and the order of the records is lost.
-/

namespace WireSchema

/-- The fields of a message that have a value, with their values. -/
def present (fields : List Field) (values : List Value) : List (Field × Value) :=
  (fields.zip values).filter fun r => !r.2.isAbsent

theorem present_cons (f : Field) (fs : List Field) (v : Value) (vs : List Value) :
    present (f :: fs) (v :: vs) =
      if v.isAbsent then present fs vs else (f, v) :: present fs vs := by
  cases absent : v.isAbsent <;> simp [present, absent]

/-- The records of a message come in the order of its fields. -/
theorem ids_present_sublist (fields : List Field) (values : List Value) :
    ((present fields values).map fun r => r.1.id).Sublist (fields.map Field.id) := by
  induction fields generalizing values with
  | nil => exact List.Sublist.refl _
  | cons f fs ih =>
    cases values with
    | nil => exact List.nil_sublist _
    | cons v vs =>
      rw [present_cons, List.map_cons]
      split
      · exact (ih vs).cons f.id
      · exact (ih vs).cons_cons f.id

/-- The slot after these records: filled from the one of its field, where there is one. -/
def Slot.after (rs : List (Field × Value)) (slot : Slot) : Slot :=
  match rs.find? fun r => r.1.id == slot.field.id with
  | some r => ⟨slot.field, r.2.onto slot.value, true⟩
  | none => slot

namespace Slot

theorem fields_ofValues {s : Schema} {fields : List Field} {values : List Value}
    (admitted : s.admitsAll fields values) : (ofValues fields values).map Slot.field = fields := by
  induction fields generalizing values with
  | nil => rfl
  | cons f fs ih =>
    cases values with
    | nil => cases admitted
    | cons v vs => exact congrArg (f :: ·) (ih (Schema.admitsAll_cons.mp admitted).2)

theorem ids_ofValues {s : Schema} {fields : List Field} {values : List Value}
    (admitted : s.admitsAll fields values) :
    ((ofValues fields values).map fun slot => slot.field.id) = fields.map Field.id := by
  rw [← fields_ofValues admitted, List.map_map, fields_ofValues admitted]
  rfl

theorem admits_of_mem_ofValues {s : Schema} {fields : List Field} {values : List Value}
    (admitted : s.admitsAll fields values) {slot : Slot} (member : slot ∈ ofValues fields values) :
    s.admits slot.field slot.value := by
  induction fields generalizing values with
  | nil => cases member
  | cons f fs ih =>
    cases values with
    | nil => cases member
    | cons v vs =>
      have both := Schema.admitsAll_cons.mp admitted
      cases member with
      | head => exact both.1
      | tail _ later => exact ih both.2 later

theorem seen_of_mem_ofValues {fields : List Field} {values : List Value} {slot : Slot}
    (member : slot ∈ ofValues fields values) : slot.seen = false := by
  obtain ⟨i, inside, rfl⟩ := List.mem_iff_getElem.mp member
  simp [ofValues]

@[simp] theorem field_after (rs : List (Field × Value)) (slot : Slot) :
    (slot.after rs).field = slot.field := by
  unfold after
  split <;> rfl

/-- A slot that records leave unseen is left alone. -/
theorem after_eq_self {rs : List (Field × Value)} {slot : Slot}
    (unseen : (slot.after rs).seen = false) : slot.after rs = slot := by
  unfold after at *
  split at unseen
  · cases unseen
  · rfl

theorem after_cons_of_ne {r : Field × Value} {slot : Slot} (other : r.1.id ≠ slot.field.id)
    (rs : List (Field × Value)) : slot.after (r :: rs) = slot.after rs := by
  rw [after, List.find?_cons_of_neg (by simpa using other)]
  rfl

theorem after_cons_of_eq {r : Field × Value} {slot : Slot} (same : r.1.id = slot.field.id)
    (rs : List (Field × Value)) :
    slot.after (r :: rs) = ⟨slot.field, r.2.onto slot.value, true⟩ := by
  rw [after, List.find?_cons_of_pos (by simpa using same)]

/-- A slot keeps its value if no record has its id. -/
theorem after_of_notMem {rs : List (Field × Value)} {slot : Slot}
    (none : slot.field.id ∉ rs.map fun r => r.1.id) : slot.after rs = slot := by
  have missing : (rs.find? fun r => r.1.id == slot.field.id) = .none := by
    rw [List.find?_eq_none]
    intro r member
    simp only [beq_iff_eq]
    intro same
    exact none (List.mem_map.mpr ⟨r, member, same⟩)
  simp only [after, missing]

/-- Where ids are distinct, a slot gets the value of the record with its id. -/
theorem after_of_mem {rs : List (Field × Value)} (apart : (rs.map fun r => r.1.id).Nodup)
    {r : Field × Value} (member : r ∈ rs) {slot : Slot} (same : r.1.id = slot.field.id) :
    slot.after rs = ⟨slot.field, r.2.onto slot.value, true⟩ := by
  induction rs with
  | nil => cases member
  | cons q rs ih =>
    rw [List.map_cons, List.nodup_cons] at apart
    cases member with
    | head => exact after_cons_of_eq same rs
    | tail _ later =>
      have other : q.1.id ≠ slot.field.id := by
        intro equal
        exact apart.1 (List.mem_map.mpr ⟨r, later, same.trans equal.symm⟩)
      rw [after_cons_of_ne other, ih apart.2 later]

/-- Records with distinct ids may stand in any order. -/
theorem after_perm {rs qs : List (Field × Value)} (order : rs.Perm qs)
    (apart : (qs.map fun r => r.1.id).Nodup) (slot : Slot) : slot.after rs = slot.after qs := by
  by_cases known : slot.field.id ∈ qs.map fun r => r.1.id
  · obtain ⟨r, member, same⟩ := List.mem_map.mp known
    rw [after_of_mem apart member same,
      after_of_mem ((order.map _).nodup_iff.mpr apart) (order.mem_iff.mpr member) same]
  · rw [after_of_notMem known]
    apply after_of_notMem
    intro member
    exact known ((order.map _).mem_iff.mp member)

end Slot

namespace Schema

def record (s : Schema) (r : Field × Value) : List UInt8 :=
  r.1.header ++ s.valueBytes r.1.typeName r.2

/-- The bytes of a message are those of its records, one behind the other. -/
theorem records_eq_map (s : Schema) (fields : List Field) (values : List Value) :
    s.records fields values = (present fields values).map s.record := by
  induction fields generalizing values with
  | nil => cases values <;> rfl
  | cons f fs ih =>
    cases values with
    | nil => rfl
    | cons v vs =>
      rw [records, ih, present_cons]
      split <;> rfl

theorem length_record (s : Schema) (r : Field × Value) :
    (s.record r).length = 2 + (r.1.mark ++ s.valueBytes r.1.typeName r.2).length := by
  rw [record, Field.header, List.append_assoc, List.length_append, Bytes.length_ofNat]

/-- A record is longer than its id. -/
theorem length_record_ge {s : Schema} {r : Field × Value} (admitted : s.admits r.1 r.2)
    (present : r.2.isAbsent = false) : 3 ≤ (s.record r).length := by
  have filled := length_valueBytes_pos admitted present
  rw [length_record, List.length_append]
  omega

/-- A record that can be read into these slots: its field has a slot that no record has filled, and
its value is one of that field with lengths that fit. -/
structure Awaits (s : Schema) (slots : List Slot) (r : Field × Value) : Prop where
  slot : ∃ old, ⟨r.1, old, false⟩ ∈ slots ∧ s.admits r.1 old
  admitted : s.admits r.1 r.2
  present : r.2.isAbsent = false
  fit : ∀ n ∈ s.valueLengths r.1.typeName r.2, n ≤ 65535

def recordOf (s : Schema) (r : Field × Value) : Record :=
  ⟨r.1, r.1.mark ++ s.valueBytes r.1.typeName r.2, r.2.onto⟩

theorem bytes_recordOf (s : Schema) (r : Field × Value) : (s.recordOf r).bytes = s.record r := by
  rw [Record.bytes, recordOf, record, Field.header, List.append_assoc]

theorem bytes_map_recordOf (s : Schema) (rs : List (Field × Value)) :
    (rs.map s.recordOf).map Record.bytes = rs.map s.record := by
  rw [List.map_map]
  exact List.map_congr_left fun r _ => bytes_recordOf s r

/-- Following the records of a message gives each slot its value. -/
theorem followAll_recordOf (s : Schema) (rs : List (Field × Value)) {slot : Slot}
    (unseen : slot.seen = false) : slot.followAll (rs.map s.recordOf) = slot.after rs := by
  induction rs with
  | nil => rfl
  | cons r rs ih =>
    rw [List.map_cons, Slot.followAll_cons]
    by_cases same : r.1.id = slot.field.id
    · rw [Slot.after_cons_of_eq same, Slot.follow_of_unseen same.symm unseen]
      exact Slot.followAll_of_seen rfl
    · rw [Slot.after_cons_of_ne same, Slot.follow_of_ne (Ne.symm same), ih]

section

variable {s : Schema} {fill : Fill} {limit : Nat}

/-- What was written is taken whole. -/
theorem takes_recordOf (fills : s.Fills fill limit) (grounded : s.Grounded) {r : Field × Value}
    (admitted : s.admits r.1 r.2) (present : r.2.isAbsent = false)
    (fit : ∀ n ∈ s.valueLengths r.1.typeName r.2, n ≤ 65535)
    (room : (s.valueBytes r.1.typeName r.2).length ≤ limit) : s.Takes fill (s.recordOf r) where
  filled := by
    have some := length_valueBytes_pos admitted present
    exact List.append_ne_nil_of_right_ne_nil _ (List.ne_nil_of_length_pos some)
  populate := fun _ admittedOld => populate_eq fills grounded admitted present admittedOld fit room
  skip := fun rest index => exec_skip_of_populate
    (populate_eq fills grounded admitted present admitted fit room rest index)

/-- A message of distinct ids is ready for records. -/
theorem ready_ofValues {fields : List Field} {values : List Value}
    (distinct : (fields.map Field.id).Nodup) (admitted : s.admitsAll fields values) :
    s.Ready (Slot.ofValues fields values) where
  distinct := by rwa [Slot.ids_ofValues admitted]
  admitted := fun slot member _ => Slot.admits_of_mem_ofValues admitted member

/-- Records with distinct ids that are all awaited take a turn each, and every slot is left as its
own record makes it. -/
theorem readRecords_awaited (grounded : s.Grounded)
    {fuel : Nat} {rs : List (Field × Value)} {slots : List Slot}
    (fills : ∀ n < rs.length + fuel, s.Fills (s.fillTo n) n) (ready : s.Ready slots)
    (unseen : ∀ slot ∈ slots, slot.seen = false)
    (apart : (rs.map fun r => r.1.id).Nodup) (awaited : ∀ r ∈ rs, s.Awaits slots r)
    (room : (rs.map s.record).flatten.length ≤ rs.length + fuel) (rest : List UInt8)
    (index : Nat) :
    s.readRecords (rs.length + fuel) slots ⟨(rs.map s.record).flatten ++ rest, index⟩ =
      s.readRecords fuel (slots.map (Slot.after rs))
        ⟨rest, index + (rs.map s.record).flatten.length⟩ := by
  have takes : ∀ r ∈ rs.map s.recordOf, ∀ n < rs.length + fuel, r.body.length ≤ n →
      s.Takes (s.fillTo n) r := by
    intro r member n small long
    obtain ⟨q, known, rfl⟩ := List.mem_map.mp member
    obtain ⟨-, admitted, present, fit⟩ := awaited q known
    rw [recordOf, List.length_append] at long
    exact takes_recordOf (fills n small) grounded admitted present fit (by omega)
  have known : ∀ r ∈ rs.map s.recordOf, r.field ∈ slots.map Slot.field := by
    intro r member
    obtain ⟨q, known, rfl⟩ := List.mem_map.mp member
    obtain ⟨old, inside, -⟩ := (awaited q known).slot
    exact List.mem_map.mpr ⟨_, inside, rfl⟩
  -- The slot of a record has had none before it, since the ids are distinct.
  have unread : ∀ before r after, rs.map s.recordOf = before ++ r :: after →
      (slots.map (Slot.followAll before)).all Slot.seen = false := by
    intro before r after split
    obtain ⟨front, back, rfl, rfl, tail⟩ := List.map_eq_append_iff.mp split
    obtain ⟨q, back, rfl, rfl, -⟩ := List.map_eq_cons_iff.mp tail
    obtain ⟨old, inside, -⟩ := (awaited q (by simp)).slot
    have other : q.1.id ∉ (front.map s.recordOf).map fun r => r.field.id := by
      rw [List.map_append, List.map_cons, List.nodup_append] at apart
      intro member
      rw [List.map_map] at member
      exact apart.2.2 _ member _ List.mem_cons_self rfl
    rw [List.all_eq_false]
    exact ⟨_, List.mem_map.mpr ⟨_, inside, Slot.followAll_of_notMem other⟩, by simp⟩
  have left : slots.map (Slot.followAll (rs.map s.recordOf)) = slots.map (Slot.after rs) :=
    List.map_congr_left fun slot member => followAll_recordOf s rs (unseen slot member)
  have run := readRecords_append ready (by rwa [List.length_map]) known unread
    (by rwa [List.length_map, bytes_map_recordOf]) rest index
  rwa [List.length_map, bytes_map_recordOf, left] at run

end

/-- Slots and records of the same fields: what is left is the new message upon the old one. -/
theorem values_after {s : Schema} {fields : List Field} {new old : List Value}
    (distinct : (fields.map Field.id).Nodup) (sized : new.length = fields.length)
    (admittedOld : s.admitsAll fields old) :
    ((Slot.ofValues fields old).map (Slot.after (present fields new))).map Slot.value =
      Value.ontoAll new old := by
  induction fields generalizing new old with
  | nil =>
    cases new with
    | nil => cases old <;> rfl
    | cons v vs => cases sized
  | cons f fs ih =>
    cases new with
    | nil => cases sized
    | cons v vs =>
      cases old with
      | nil => cases admittedOld
      | cons w ws =>
        rw [List.map_cons, List.nodup_cons] at distinct
        have bothOld := admitsAll_cons.mp admittedOld
        have later := ih distinct.2 (Nat.succ.inj sized) bothOld.2
        have unseen : f.id ∉ (present fs vs).map fun r => r.1.id := by
          intro member
          exact distinct.1 ((ids_present_sublist fs vs).subset member)
        have others : (Slot.ofValues fs ws).map (Slot.after ((f, v) :: present fs vs)) =
            (Slot.ofValues fs ws).map (Slot.after (present fs vs)) := by
          apply List.map_congr_left
          intro slot member
          apply Slot.after_cons_of_ne
          intro same
          rw [← Slot.ids_ofValues bothOld.2] at distinct
          exact distinct.1 (List.mem_map.mpr ⟨slot, member, same.symm⟩)
        have slots : Slot.ofValues (f :: fs) (w :: ws) = ⟨f, w, false⟩ :: Slot.ofValues fs ws := rfl
        rw [slots, present_cons, Value.ontoAll, ← later]
        split
        · rename_i absent
          obtain rfl := Value.eq_absent absent
          rw [List.map_cons, List.map_cons, Slot.after_of_notMem unseen, Value.onto]
        · rw [List.map_cons, List.map_cons, others, Slot.after_cons_of_eq rfl]

/-- What reading relies on: defaults that are messages, and ids that tell fields apart. -/
structure Readable (s : Schema) : Prop where
  grounded : s.Grounded
  distinct : ∀ name, ((s.fieldsOf name).map Field.id).Nodup

/-- The records of a message are awaited by the slots of any other message of its type. -/
theorem awaits_ofValues {s : Schema} {fields : List Field} {new old : List Value}
    (admitted : s.admitsAll fields new) (admittedOld : s.admitsAll fields old)
    (fit : ∀ n ∈ s.lengths fields new, n ≤ 65535) :
    ∀ r ∈ present fields new, s.Awaits (Slot.ofValues fields old) r := by
  induction fields generalizing new old with
  | nil =>
    intro r member
    cases member
  | cons f fs ih =>
    cases new with
    | nil => cases admitted
    | cons v vs =>
      cases old with
      | nil => cases admittedOld
      | cons w ws =>
        have both := admitsAll_cons.mp admitted
        have bothOld := admitsAll_cons.mp admittedOld
        have later := ih both.2 bothOld.2 (fun n member =>
          fit n (by rw [lengths]; exact List.mem_append_right _ member))
        have slots : Slot.ofValues (f :: fs) (w :: ws) = ⟨f, w, false⟩ :: Slot.ofValues fs ws := rfl
        have extend : ∀ r, s.Awaits (Slot.ofValues fs ws) r →
            s.Awaits (Slot.ofValues (f :: fs) (w :: ws)) r := by
          rintro r ⟨⟨old, member, admittedOld⟩, admitted, present, fit⟩
          exact ⟨⟨old, List.mem_cons_of_mem _ member, admittedOld⟩, admitted, present, fit⟩
        intro r member
        rw [present_cons] at member
        split at member
        · exact extend r (later r member)
        · rename_i present
          cases member with
          | head =>
            refine ⟨⟨w, List.mem_cons_self, bothOld.1⟩, both.1, by simpa using present, ?_⟩
            intro n inside
            exact fit n (by rw [lengths]; exact List.mem_append_left _ inside)
          | tail _ member => exact extend r (later r member)

theorem length_le_length_flatten {s : Schema} {rs : List (Field × Value)} {slots : List Slot}
    (awaited : ∀ r ∈ rs, s.Awaits slots r) : rs.length ≤ (rs.map s.record).flatten.length := by
  induction rs with
  | nil => exact Nat.zero_le _
  | cons r rs ih =>
    have first := awaited r List.mem_cons_self
    have long := length_record_ge first.admitted first.present
    have later := ih fun q member => awaited q (List.mem_cons_of_mem _ member)
    rw [List.map_cons, List.flatten_cons, List.length_append, List.length_cons]
    omega

section

variable {s : Schema} {fields : List Field} {new old : List Value}

/-- The records of a message in any order, read into a message of its type: every byte is taken and
the new message is left upon the old one. -/
theorem readRecords_perm (grounded : s.Grounded) {fuel : Nat}
    (fills : ∀ n < fuel, s.Fills (s.fillTo n) n) (distinct : (fields.map Field.id).Nodup)
    (admitted : s.admitsAll fields new) (admittedOld : s.admitsAll fields old)
    (fit : ∀ n ∈ s.lengths fields new, n ≤ 65535) {p : List (List UInt8)}
    (perm : p.Perm (s.records fields new)) (room : p.flatten.length ≤ fuel) :
    ∃ slots, s.readRecords fuel (Slot.ofValues fields old) (Reader.ofBytes p.flatten) =
        (.ok (), slots, ⟨[], p.flatten.length⟩) ∧
      slots.map Slot.value = Value.ontoAll new old := by
  have apart : ((present fields new).map fun r => r.1.id).Nodup :=
    (ids_present_sublist fields new).nodup distinct
  rw [records_eq_map] at perm
  obtain ⟨rs, rfl, order⟩ : ∃ rs : List (Field × Value),
      p = rs.map s.record ∧ rs.Perm (present fields new) := by
    have split := congrFun (congrFun (List.eq_map_comp_perm s.record) p) (present fields new)
    exact split.mpr perm
  have awaited : ∀ r ∈ rs, s.Awaits (Slot.ofValues fields old) r := fun r member =>
    awaits_ofValues admitted admittedOld fit r (order.subset member)
  have short := length_le_length_flatten awaited
  obtain ⟨left, rfl⟩ := Nat.exists_eq_add_of_le (Nat.le_trans short room)
  refine ⟨(Slot.ofValues fields old).map (Slot.after rs), ?_, ?_⟩
  · have run := readRecords_awaited grounded fills (ready_ofValues distinct admittedOld)
      (fun _ => Slot.seen_of_mem_ofValues) ((order.map _).nodup_iff.mpr apart) awaited room [] 0
    rw [List.append_nil, readRecords_of_short (r := ⟨[], _⟩) left _ (Nat.zero_le 2),
      Nat.zero_add] at run
    exact run
  · rw [← values_after distinct (length_of_admitsAll admitted) admittedOld]
    congr 1
    apply List.map_congr_left
    intro slot _
    exact Slot.after_perm order apart slot

end

/-- Nested messages are taken in as they were written, at every depth that the bytes allow. -/
theorem Readable.fills {s : Schema} (readable : s.Readable) (n : Nat) : s.Fills (s.fillTo n) n := by
  induction n using Nat.strongRecOn with
  | _ n ih =>
    intro name new old admitted admittedOld fit room
    obtain ⟨slots, read, values⟩ := readRecords_perm readable.grounded ih (readable.distinct name)
      admitted admittedOld fit (List.Perm.refl _) room
    rw [fillTo, read]
    simp only [values]

/-- What a run of the read loop over the first `n` bytes leaves is what unpacking them gives. -/
theorem unpack_of_readRecords {s : Schema} {fields : List Field} {values : List Value}
    {data : List UInt8} {n : Nat} (inside : n ≤ data.length) {outcome : Except DecodeError Unit}
    {slots : List Slot} {r : Reader}
    (read : s.readRecords n (Slot.ofValues fields values) (Reader.ofBytes (data.take n)) =
      (outcome, slots, r)) :
    s.unpack fields values data 0 n = (outcome.map fun _ => r.index, slots.map Slot.value) := by
  have range : Reader.ofRange data 0 n = .ok (Reader.ofBytes (data.take n)) := by
    rw [Reader.ofRange, if_pos (by omega), List.drop_zero]
  have length : (Reader.ofBytes (data.take n)).remaining = n := by
    rw [Reader.ofBytes, Reader.remaining, List.length_take, Nat.min_eq_left inside]
  rw [unpack, range]
  simp only [readFields, length, read]

theorem unpack_whole {s : Schema} {fields : List Field} {values : List Value} {data : List UInt8}
    {outcome : Except DecodeError Unit} {slots : List Slot} {r : Reader}
    (read : s.readRecords data.length (Slot.ofValues fields values) (Reader.ofBytes data) =
      (outcome, slots, r)) :
    s.unpack fields values data 0 data.length =
      (outcome.map fun _ => r.index, slots.map Slot.value) :=
  unpack_of_readRecords (Nat.le_refl _) (by rwa [List.take_length])

/-- The records of a message in any order, read into a message of its type. -/
theorem unpack_perm {s : Schema} (readable : s.Readable) {name : String} {new old : List Value}
    (admitted : s.admitsAll (s.fieldsOf name) new) (admittedOld : s.admitsAll (s.fieldsOf name) old)
    (fit : ∀ n ∈ s.lengths (s.fieldsOf name) new, n ≤ 65535) {p : List (List UInt8)}
    (perm : p.Perm (s.records (s.fieldsOf name) new)) :
    s.unpack (s.fieldsOf name) old p.flatten 0 p.flatten.length =
      (.ok p.flatten.length, Value.ontoAll new old) := by
  obtain ⟨slots, read, values⟩ := readRecords_perm readable.grounded
    (fun n _ => readable.fills n) (readable.distinct name) admitted admittedOld fit perm
    (Nat.le_refl _)
  rw [unpack_whole read, values]
  rfl

/-- Where no value is absent, every field has a record and no slot is left without one. -/
theorem all_seen_after {s : Schema} {fields : List Field} {new old : List Value}
    (distinct : (fields.map Field.id).Nodup) (admitted : s.admitsAll fields new)
    (admittedOld : s.admitsAll fields old) (complete : ∀ v ∈ new, v.isAbsent = false) :
    ((Slot.ofValues fields old).map (Slot.after (present fields new))).all Slot.seen := by
  have whole : present fields new = fields.zip new := by
    apply List.filter_eq_self.mpr
    intro r member
    rw [complete r.2 (List.of_mem_zip member).2]
    rfl
  have ids : ((present fields new).map fun r => r.1.id) = fields.map Field.id := by
    conv_rhs => rw [← List.map_fst_zip (Nat.le_of_eq (length_of_admitsAll admitted).symm)]
    rw [whole, List.map_map]
    rfl
  rw [List.all_map, List.all_eq_true]
  intro slot member
  have known : slot.field.id ∈ (present fields new).map fun r => r.1.id := by
    rw [ids, ← Slot.ids_ofValues admittedOld]
    exact List.mem_map_of_mem member
  obtain ⟨r, inside, same⟩ := List.mem_map.mp known
  rw [Function.comp_apply, Slot.after_of_mem (ids ▸ distinct) inside same]

/-- The records of a message without absent values, whatever stands behind them: reading stops when
the last of them has been read. -/
theorem unpack_complete_append {s : Schema} (readable : s.Readable) {name : String}
    {new old : List Value} (admitted : s.admitsAll (s.fieldsOf name) new)
    (admittedOld : s.admitsAll (s.fieldsOf name) old)
    (fit : ∀ n ∈ s.lengths (s.fieldsOf name) new, n ≤ 65535)
    (complete : ∀ v ∈ new, v.isAbsent = false) (rest : List UInt8) :
    s.unpack (s.fieldsOf name) old ((s.records (s.fieldsOf name) new).flatten ++ rest) 0
        ((s.records (s.fieldsOf name) new).flatten ++ rest).length =
      (.ok (s.records (s.fieldsOf name) new).flatten.length, Value.ontoAll new old) := by
  have distinct := readable.distinct name
  have awaited := awaits_ofValues admitted admittedOld fit
  have short := length_le_length_flatten awaited
  rw [records_eq_map]
  obtain ⟨fuel, total⟩ := Nat.exists_eq_add_of_le (Nat.le_trans short
    (Nat.le_add_right _ rest.length))
  have room : ((present (s.fieldsOf name) new).map s.record).flatten.length ≤
      (present (s.fieldsOf name) new).length + fuel := by omega
  have run := readRecords_awaited readable.grounded (fun n _ => readable.fills n)
    (ready_ofValues distinct admittedOld) (fun _ => Slot.seen_of_mem_ofValues)
    ((ids_present_sublist _ _).nodup distinct) awaited room rest 0
  rw [readRecords_of_seen fuel (all_seen_after distinct admitted admittedOld complete), ← total,
    ← List.length_append, Nat.zero_add] at run
  rw [unpack_whole run, values_after distinct (length_of_admitsAll admitted) admittedOld]
  rfl

end Schema

end WireSchema
