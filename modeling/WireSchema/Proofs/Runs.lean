import WireSchema.Proofs.Intake

/-!
Reading whole records, one after another. A record turns the value that its field holds, if it is the
first of its field, and is passed over if it is not. Each record that is taken whole is one turn of
the read loop, and a run over such records leaves every slot as they turned it.
-/

namespace WireSchema

/-- More than an id is an id and something behind it. -/
theorem Reader.exists_more {r : Reader} (long : 2 < r.remaining) :
    ∃ low high next more, r = ⟨low :: high :: next :: more, r.index⟩ := by
  obtain ⟨rest, index⟩ := r
  rcases rest with _ | ⟨low, _ | ⟨high, _ | ⟨next, more⟩⟩⟩
  case cons.cons.cons => exact ⟨low, high, next, more, rfl⟩
  all_goals exact absurd long (by simp [remaining])

/-- A record as reading meets it: the field that its id names, the bytes behind the id, and what they
make of the value that the field holds. -/
structure Record where
  field : Field
  body : List UInt8
  turn : Value → Value

def Record.bytes (r : Record) : List UInt8 := Bytes.ofNat 2 r.field.id.toNat ++ r.body

theorem Record.length_bytes (r : Record) : r.bytes.length = 2 + r.body.length := by
  rw [bytes, List.length_append, Bytes.length_ofNat]

namespace Slot

/-- The slot after a record: the first one of its field turns the value. -/
def follow (r : Record) (slot : Slot) : Slot :=
  if slot.field.id = r.field.id ∧ slot.seen = false then ⟨slot.field, r.turn slot.value, true⟩
  else slot

def followAll (rs : List Record) (slot : Slot) : Slot := rs.foldl (fun slot r => slot.follow r) slot

variable {slot : Slot} {r : Record} {rs : List Record}

theorem follow_of_ne (other : slot.field.id ≠ r.field.id) : slot.follow r = slot := by
  simp [follow, other]

theorem follow_of_seen (seen : slot.seen) : slot.follow r = slot := by
  simp [follow, seen]

/-- The first record with its id turns the value of a slot. -/
theorem follow_of_unseen (same : slot.field.id = r.field.id) (unseen : slot.seen = false) :
    slot.follow r = ⟨slot.field, r.turn slot.value, true⟩ := by
  simp [follow, same, unseen]

@[simp] theorem field_follow (r : Record) (slot : Slot) : (slot.follow r).field = slot.field := by
  unfold follow
  split <;> rfl

/-- A slot that a record leaves unseen is left alone. -/
theorem follow_eq_self (unseen : (slot.follow r).seen = false) : slot.follow r = slot := by
  unfold follow at *
  split at unseen
  · cases unseen
  · rename_i other
    exact if_neg other

@[simp] theorem followAll_nil (slot : Slot) : slot.followAll [] = slot := rfl

@[simp] theorem followAll_cons (r : Record) (rs : List Record) (slot : Slot) :
    slot.followAll (r :: rs) = (slot.follow r).followAll rs := rfl

theorem followAll_append (rs qs : List Record) (slot : Slot) :
    slot.followAll (rs ++ qs) = (slot.followAll rs).followAll qs := List.foldl_append

/-- After its record, a slot follows no further one. -/
theorem followAll_of_seen (seen : slot.seen) : slot.followAll rs = slot := by
  induction rs with
  | nil => rfl
  | cons r rs ih => rw [followAll_cons, follow_of_seen seen, ih]

theorem followAll_of_notMem (none : slot.field.id ∉ rs.map fun r => r.field.id) :
    slot.followAll rs = slot := by
  induction rs with
  | nil => rfl
  | cons r rs ih =>
    rw [List.map_cons, List.mem_cons, not_or] at none
    rw [followAll_cons, follow_of_ne none.1, ih none.2]

/-- A slot is seen after records if it was before or if one of them is of its field. -/
theorem seen_followAll (slot : Slot) (rs : List Record) :
    (slot.followAll rs).seen ↔ slot.seen ∨ slot.field.id ∈ rs.map fun r => r.field.id := by
  induction rs generalizing slot with
  | nil => simp
  | cons r rs ih =>
    rw [followAll_cons, ih, field_follow, List.map_cons, List.mem_cons]
    cases seen : slot.seen with
    | true => simp [follow_of_seen seen, seen]
    | false =>
      by_cases same : slot.field.id = r.field.id
      · simp [follow_of_unseen same seen, same]
      · simp [follow_of_ne same, seen, same]

end Slot

namespace Schema

/-- A record whose body is taken whole, whatever stands behind it: it turns the value of its field, or is
passed over. -/
structure Turns (s : Schema) (fill : Fill) (r : Record) : Prop where
  populate : ∀ old, s.admits r.field old → ∀ (rest : List UInt8) (index : Nat),
    s.populate fill r.field old ⟨r.body ++ rest, index⟩ =
      (.ok (), r.turn old, ⟨rest, index + r.body.length⟩)
  skip : Read.Gives (s.skip fill r.field) r.body ()

/-- Such a record with something in it, so that reading does not end at its id. -/
structure Takes (s : Schema) (fill : Fill) (r : Record) : Prop extends Turns s fill r where
  filled : r.body ≠ []

/-- Slots with distinct ids, whose values fit their fields where a record may still meet them. -/
structure Ready (s : Schema) (slots : List Slot) : Prop where
  distinct : (slots.map fun slot => slot.field.id).Nodup
  admitted : ∀ slot ∈ slots, slot.seen = false → s.admits slot.field slot.value

/-- How a message takes in a frame when reading may take this many records at each depth. -/
def fillTo (s : Schema) (fuel : Nat) : Fill := fun name values bytes =>
  let (outcome, slots, _) :=
    s.readRecords fuel (Slot.ofValues (s.fieldsOf name) values) (Reader.ofBytes bytes)
  (outcome, slots.map Slot.value)

section

variable {s : Schema} {fill : Fill} {slots : List Slot} {r : Record}

/-- Slots stay ready if those that change are seen then. -/
theorem Ready.map (ready : s.Ready slots) {g : Slot → Slot}
    (field : ∀ slot, (g slot).field = slot.field)
    (kept : ∀ slot, (g slot).seen = false → g slot = slot) : s.Ready (slots.map g) := by
  constructor
  · simpa [Function.comp_def, field] using ready.distinct
  · intro slot member unseen
    obtain ⟨before, known, rfl⟩ := List.mem_map.mp member
    have same := kept before unseen
    rw [same] at unseen ⊢
    exact ready.admitted before known unseen

/-- Slots stay ready from record to record. -/
theorem Ready.follow (ready : s.Ready slots) (r : Record) : s.Ready (slots.map (Slot.follow r)) :=
  ready.map (Slot.field_follow r) fun _ => Slot.follow_eq_self

/-- What a record brings turns a value if every value of the field takes it. -/
theorem turns_of_gives {f : Field} {bs : List UInt8} {d : Delivery}
    (gives : Read.Gives (s.deliver fill f) bs d)
    (taken : ∀ old, s.admits f old → (s.accept fill f old d).1 = .ok ()) :
    s.Turns fill ⟨f, bs, fun old => (s.accept fill f old d).2⟩ where
  populate := by
    intro old admitted rest index
    rw [populate_eq_deliver admitted, gives]
    simp only [taken old admitted]
  skip := by
    intro rest index
    rw [exec_skip, gives]
    rfl

/-- Reading the body of a record does what the record says. -/
theorem readSlot_eq (turns : s.Turns fill r) {slot : Slot} (own : slot.field = r.field)
    (admitted : slot.seen = false → s.admits slot.field slot.value) (rest : List UInt8)
    (index : Nat) :
    s.readSlot fill slot ⟨r.body ++ rest, index⟩ =
      (.ok (), slot.follow r, ⟨rest, index + r.body.length⟩) := by
  rw [readSlot]
  cases seen : slot.seen with
  | true =>
    have passed := turns.skip rest index
    rw [← own] at passed
    simp only [if_true, passed, Slot.follow_of_seen seen]
  | false =>
    have filled := turns.populate slot.value (own ▸ admitted seen) rest index
    rw [← own] at filled
    simp only [Bool.false_eq_true, if_false, filled, Slot.follow_of_unseen (by rw [own]) seen]

/-- A record is read into the first slot with its id. -/
theorem readRecord_at {before : List Slot} {slot : Slot} (after : List Slot)
    (apart : ∀ other ∈ before, other.field.id ≠ slot.field.id) (q : Reader) :
    s.readRecord fill slot.field.id (before ++ slot :: after) q =
      some ((s.readSlot fill slot q).1, before ++ (s.readSlot fill slot q).2.1 :: after,
        (s.readSlot fill slot q).2.2) := by
  induction before with
  | nil => rw [List.nil_append, readRecord, if_pos rfl, List.nil_append]
  | cons other before ih =>
    rw [List.forall_mem_cons] at apart
    rw [List.cons_append, readRecord, if_neg apart.1, ih apart.2]
    rfl

theorem readRecord_eq_none {id : UInt16} (unknown : ∀ slot ∈ slots, slot.field.id ≠ id)
    (q : Reader) : s.readRecord fill id slots q = none := by
  induction slots with
  | nil => rfl
  | cons slot slots ih =>
    rw [List.forall_mem_cons] at unknown
    rw [readRecord, if_neg unknown.1, ih unknown.2]
    rfl

/-- The slots around one have other ids. -/
theorem Ready.exists_split (ready : s.Ready slots) {slot : Slot} (member : slot ∈ slots) :
    ∃ before after, slots = before ++ slot :: after ∧
      (∀ other ∈ before, other.field.id ≠ slot.field.id) ∧
      ∀ other ∈ after, other.field.id ≠ slot.field.id := by
  obtain ⟨before, after, rfl⟩ := List.append_of_mem member
  have distinct := ready.distinct
  rw [List.map_append, List.map_cons, List.nodup_append, List.nodup_cons] at distinct
  refine ⟨before, after, rfl, ?_, ?_⟩
  · intro other inside
    exact distinct.2.2 _ (List.mem_map.mpr ⟨other, inside, rfl⟩) _ List.mem_cons_self
  · intro other inside same
    exact distinct.2.1.1 (List.mem_map.mpr ⟨other, inside, same⟩)

/-- A record ends as its slot makes it end. -/
theorem exists_readRecord (ready : s.Ready slots) {slot slot' : Slot} (member : slot ∈ slots)
    {outcome : Except DecodeError Unit} {q q' : Reader}
    (read : s.readSlot fill slot q = (outcome, slot', q')) :
    ∃ slots', s.readRecord fill slot.field.id slots q = some (outcome, slots', q') := by
  obtain ⟨before, after, rfl, front, -⟩ := ready.exists_split member
  exact ⟨_, by rw [readRecord_at after front, read]⟩

/-- A record that leaves its slot alone leaves every slot alone. -/
theorem readRecord_of_kept (ready : s.Ready slots) {slot : Slot} (member : slot ∈ slots)
    {outcome : Except DecodeError Unit} {q q' : Reader}
    (read : s.readSlot fill slot q = (outcome, slot, q')) :
    s.readRecord fill slot.field.id slots q = some (outcome, slots, q') := by
  obtain ⟨before, after, rfl, front, -⟩ := ready.exists_split member
  rw [readRecord_at after front, read]

/-- The slot of a record is the only one that the record changes. -/
theorem readRecord_eq (turns : s.Turns fill r) (ready : s.Ready slots)
    (known : r.field ∈ slots.map Slot.field) (rest : List UInt8) (index : Nat) :
    s.readRecord fill r.field.id slots ⟨r.body ++ rest, index⟩ =
      some (.ok (), slots.map (Slot.follow r), ⟨rest, index + r.body.length⟩) := by
  obtain ⟨slot, member, own⟩ := List.mem_map.mp known
  obtain ⟨before, after, rfl, front, back⟩ := ready.exists_split member
  have others {part : List Slot} (apart : ∀ other ∈ part, other.field.id ≠ slot.field.id) :
      part.map (Slot.follow r) = part := by
    have alone : ∀ other ∈ part, other.follow r = id other := fun other inside =>
      Slot.follow_of_ne (own ▸ apart other inside)
    exact (List.map_congr_left alone).trans (List.map_id part)
  have read := readSlot_eq turns own (ready.admitted slot member) rest index
  rw [← own, readRecord_at after front, read, List.map_append, List.map_cons, others front,
    others back]

/-- A record that cannot even be passed over leaves every slot alone. -/
theorem readRecord_of_exec_skip (ready : s.Ready slots) {f : Field}
    (known : f ∈ slots.map Slot.field) {e : DecodeError} {q q' : Reader}
    (failed : (s.skip fill f).exec q = (.error e, q')) :
    s.readRecord fill f.id slots q = some (.error e, slots, q') := by
  obtain ⟨slot, member, rfl⟩ := List.mem_map.mp known
  apply readRecord_of_kept ready member
  rw [readSlot]
  cases seen : slot.seen with
  | true => simp only [if_true, failed]
  | false =>
    have kept := populate_of_exec_skip (ready.admitted slot member seen) failed
    simp only [Bool.false_eq_true, if_false, kept]
    rw [← seen]

/-- One turn of the read loop, where there is more than an id. -/
theorem readRecords_succ (s : Schema) (fuel : Nat) (slots : List Slot) (low high next : UInt8)
    (more : List UInt8) (index : Nat) :
    s.readRecords (fuel + 1) slots ⟨low :: high :: next :: more, index⟩ =
      if slots.all Slot.seen then (.ok (), slots, ⟨low :: high :: next :: more, index⟩)
      else
        match s.readRecord (s.fillTo fuel) (Bytes.toNat [low, high]).toUInt16 slots
            ⟨next :: more, index + 2⟩ with
        | none => (.error (.unknownField (Bytes.toNat [low, high]).toUInt16 index), slots,
            ⟨next :: more, index + 2⟩)
        | some (.error e, slots, r) => (.error e, slots, r)
        | some (.ok (), slots, r) => s.readRecords fuel slots r := rfl

/-- Reading ends where no more than an id is left. -/
theorem readRecords_of_short (fuel : Nat) (slots : List Slot) {r : Reader}
    (short : r.remaining ≤ 2) : s.readRecords fuel slots r = (.ok (), slots, r) := by
  cases fuel with
  | zero => rfl
  | succ fuel =>
    rw [readRecords]
    split
    · rfl
    · split
      · rename_i rest
        rw [Reader.remaining, rest, List.length_cons, List.length_cons, List.length_cons] at short
        omega
      · rfl

/-- Reading ends where every slot has had a record. -/
theorem readRecords_of_seen (fuel : Nat) (seen : slots.all Slot.seen) (r : Reader) :
    s.readRecords fuel slots r = (.ok (), slots, r) := by
  cases fuel with
  | zero => rfl
  | succ fuel => rw [readRecords, if_pos seen]

/-- An id with something behind it leads to the slot that has the id. -/
theorem readRecords_id (fuel : Nat) (unread : slots.all Slot.seen = false) (id : UInt16)
    {behind : List UInt8} (filled : behind ≠ []) (index : Nat) :
    s.readRecords (fuel + 1) slots ⟨Bytes.ofNat 2 id.toNat ++ behind, index⟩ =
      match s.readRecord (s.fillTo fuel) id slots ⟨behind, index + 2⟩ with
      | none => (.error (.unknownField id index), slots, ⟨behind, index + 2⟩)
      | some (.error e, slots, r) => (.error e, slots, r)
      | some (.ok (), slots, r) => s.readRecords fuel slots r := by
  obtain ⟨next, more, rfl⟩ := List.exists_cons_of_ne_nil filled
  obtain ⟨low, high, bytes⟩ : ∃ low high, Bytes.ofNat 2 id.toNat = [low, high] := ⟨_, _, rfl⟩
  have same : (Bytes.toNat [low, high]).toUInt16 = id := by
    rw [← bytes, Bytes.toUInt16_toNat_ofNat]
  have whole : [low, high] ++ next :: more = low :: high :: next :: more := rfl
  rw [bytes, whole, readRecords_succ, if_neg (by simp [unread]), same]

/-- A record that is taken whole is one turn of the read loop. -/
theorem readRecords_step {fuel : Nat} (takes : s.Takes (s.fillTo fuel) r) (ready : s.Ready slots)
    (known : r.field ∈ slots.map Slot.field) (unread : slots.all Slot.seen = false)
    (rest : List UInt8) (index : Nat) :
    s.readRecords (fuel + 1) slots ⟨r.bytes ++ rest, index⟩ =
      s.readRecords fuel (slots.map (Slot.follow r)) ⟨rest, index + r.bytes.length⟩ := by
  have behind : r.body ++ rest ≠ [] := by simp [takes.filled]
  rw [Record.length_bytes, Record.bytes, List.append_assoc,
    readRecords_id fuel unread r.field.id behind, readRecord_eq takes.toTurns ready known, Nat.add_assoc]

/-- Records that are taken whole take a turn each, while there is a slot that has had none. -/
theorem readRecords_append {fuel : Nat} {rs : List Record} (ready : s.Ready slots)
    (takes : ∀ r ∈ rs, ∀ n < rs.length + fuel, r.body.length ≤ n → s.Takes (s.fillTo n) r)
    (known : ∀ r ∈ rs, r.field ∈ slots.map Slot.field)
    (unread : ∀ before r after, rs = before ++ r :: after →
      (slots.map (Slot.followAll before)).all Slot.seen = false)
    (room : (rs.map Record.bytes).flatten.length ≤ rs.length + fuel) (rest : List UInt8)
    (index : Nat) :
    s.readRecords (rs.length + fuel) slots ⟨(rs.map Record.bytes).flatten ++ rest, index⟩ =
      s.readRecords fuel (slots.map (Slot.followAll rs))
        ⟨rest, index + (rs.map Record.bytes).flatten.length⟩ := by
  induction rs generalizing slots index with
  | nil =>
    have same : slots.map (Slot.followAll []) = slots := List.map_id slots
    simp [same]
  | cons r rs ih =>
    have length := r.length_bytes
    rw [List.forall_mem_cons] at takes known
    rw [List.map_cons, List.flatten_cons, List.length_append, List.length_cons] at room
    have taken := takes.1 (rs.length + fuel) (by rw [List.length_cons]; omega) (by omega)
    have step := readRecords_step taken ready known.1 (by simpa using unread [] r rs rfl)
      ((rs.map Record.bytes).flatten ++ rest) index
    have run := ih (ready.follow r)
      (fun q later n small => takes.2 q later n (by rw [List.length_cons]; omega))
      (by simpa [Function.comp_def] using known.2)
      (fun before q after split => by simpa using unread (r :: before) q after (by rw [split]; rfl))
      (by omega) (index + r.bytes.length)
    rw [List.map_cons, List.flatten_cons, List.append_assoc, List.length_cons, Nat.add_right_comm,
      step, run, List.map_map, List.length_append, Nat.add_assoc]
    rfl

end

end Schema

end WireSchema
