import WireSchema.Proofs.Delimited
import WireSchema.Proofs.Runs

/-!
How much fuel reading needs. A turn of the read loop takes at least an id, and a frame is shorter
than what it stands in, so as much fuel as there are bytes is enough: with more of it reading does
the same.
-/

namespace WireSchema

namespace Read

variable {α β : Type} {n : Nat}

/-- Two steps that do the same where no more than `n` bytes are left. -/
def AgreeTo (n : Nat) (step other : Read α) : Prop :=
  ∀ r : Reader, r.remaining ≤ n → step.exec r = other.exec r

theorem AgreeTo.refl (step : Read α) : AgreeTo n step step := fun _ _ => rfl

/-- Reads that agree go on to agree, because a delimited one leaves no more than there was. -/
theorem AgreeTo.bind {step other : Read α} {next last : α → Read β} (first : AgreeTo n step other)
    (delimited : step.Delimited) (later : ∀ a, AgreeTo n (next a) (last a)) :
    AgreeTo n (step >>= next) (other >>= last) := by
  intro r short
  rw [exec_bind, exec_bind, ← first r short]
  rcases read : step.exec r with ⟨e | a, r'⟩
  · rfl
  · exact later a r' (Nat.le_trans (delimited.remaining_le read) short)

theorem AgreeTo.map {step other : Read α} (first : AgreeTo n step other) (f : α → β) :
    AgreeTo n (step >>= fun a => pure (f a)) (other >>= fun a => pure (f a)) := by
  intro r short
  rw [exec_map, exec_map, first r short]

/-- Reads that agree once agree any number of times. -/
theorem agreeTo_times {step other : Read α} (each : AgreeTo n step other)
    (delimited : step.Delimited) (count : Nat) (acc : Array α) :
    AgreeTo n (times step count acc) (times other count acc) := by
  induction count generalizing acc with
  | zero => exact AgreeTo.refl _
  | succ count ih => exact each.bind delimited fun a => ih (acc.push a)

theorem agreeTo_array {step other : Read α} (each : AgreeTo n step other)
    (delimited : step.Delimited) : AgreeTo n (array step) (array other) :=
  (AgreeTo.refl _).bind delimited_length fun count =>
    (agreeTo_times each delimited count #[]).map Array.toList

theorem agreeTo_optional {step other : Read α} (present : AgreeTo n step other) :
    AgreeTo n (optional step) (optional other) := by
  apply (AgreeTo.refl _).bind delimited_flag
  intro b
  cases b with
  | false => exact AgreeTo.refl _
  | true => exact present.map some

/-- A frame is no longer than what there is to read. -/
theorem length_frame_le {r r' : Reader} {bs : List UInt8} (read : frame.exec r = (.ok bs, r')) :
    bs.length ≤ r.remaining := by
  rw [frame, exec_bind] at read
  rcases counted : length.exec r with ⟨e | count, between⟩
  · rw [counted] at read
    cases read
  · have less := delimited_length.remaining_le counted
    rw [counted] at read
    simp only [exec_bytes] at read
    split at read
    · cases read
    · cases read
      rw [List.length_take]
      exact Nat.le_trans (Nat.min_le_right _ _) less

end Read

/-- Two ways to take in frames that do the same with those of up to `n` bytes. -/
def Fill.AgreeTo (n : Nat) (fill other : Fill) : Prop :=
  ∀ name values (bytes : List UInt8), bytes.length ≤ n → fill name values bytes = other name values bytes

namespace Schema

section

variable {s : Schema} {fill other : Fill} {n : Nat}

/-- Nested messages are read alike where their frames are filled alike. -/
theorem agreeTo_readMessage (agree : Fill.AgreeTo n fill other) (name : String) :
    Read.AgreeTo n (s.readMessage fill name) (s.readMessage other name) := by
  intro r short
  rw [readMessage, readMessage, Read.exec_bind, Read.exec_bind]
  rcases read : Read.frame.exec r with ⟨e | bytes, r'⟩
  · rfl
  · have same := agree name (s.defaultMessage name) bytes
      (Nat.le_trans (Read.length_frame_le read) short)
    simp only [same]

theorem agreeTo_readElement (agree : Fill.AgreeTo n fill other) (f : Field) :
    Read.AgreeTo n (s.readElement fill f) (s.readElement other f) := by
  rw [readElement, readElement]
  split
  · exact Read.AgreeTo.refl _
  · exact Read.AgreeTo.refl _
  · exact (agreeTo_readMessage agree f.typeName).map Value.message

theorem agreeTo_readPresent (agree : Fill.AgreeTo n fill other) (f : Field) :
    Read.AgreeTo n (s.readPresent fill f) (s.readPresent other f) := by
  have element := agreeTo_readElement (s := s) agree f
  rw [readPresent, readPresent]
  split
  · exact (Read.agreeTo_array element (s.delimited_readElement fill f)).map Value.array
  · exact element

theorem agreeTo_readPayload (agree : Fill.AgreeTo n fill other) (f : Field) :
    Read.AgreeTo n (s.readPayload fill f) (s.readPayload other f) := by
  have present := agreeTo_readPresent (s := s) agree f
  rw [readPayload, readPayload]
  split
  · apply (Read.agreeTo_optional present).bind
      (Read.delimited_optional (s.delimited_readPresent fill f))
    intro v
    exact Read.AgreeTo.refl _
  · exact present

/-- Records are passed over alike where their frames are filled alike. -/
theorem agreeTo_skip (agree : Fill.AgreeTo n fill other) (f : Field) :
    Read.AgreeTo n (s.skip fill f) (s.skip other f) := by
  rw [skip, skip]
  split
  · exact Read.AgreeTo.refl _
  · exact (agreeTo_readPayload agree f).map fun _ => ()

/-- A frame that fits into the bytes left is filled alike. -/
theorem frameInto_agree (agree : Fill.AgreeTo n fill other) (name : String) (values : List Value)
    {r : Reader} (short : r.remaining ≤ n) :
    Read.frameInto (fill name) values r = Read.frameInto (other name) values r := by
  rw [Read.frameInto, Read.frameInto]
  rcases read : Read.frame.exec r with ⟨e | bytes, r'⟩
  · rfl
  · simp only [agree name values bytes (Nat.le_trans (Read.length_frame_le read) short)]

theorem optionalFrameInto_agree (agree : Fill.AgreeTo n fill other) (name : String)
    (fresh : List Value) (values : Option (List Value)) {r : Reader} (short : r.remaining ≤ n) :
    Read.optionalFrameInto (fill name) fresh values r =
      Read.optionalFrameInto (other name) fresh values r := by
  rw [Read.optionalFrameInto, Read.optionalFrameInto]
  rcases read : Read.flag.exec r with ⟨e | b, r'⟩
  · rfl
  · have left := Nat.le_trans (Read.delimited_flag.remaining_le read) short
    cases b with
    | false => rfl
    | true => simp only [frameInto_agree agree name _ left]

/-- A field takes alike what fits into the bytes left. -/
theorem populate_agree (agree : Fill.AgreeTo n fill other) (f : Field) (v : Value) {r : Reader}
    (short : r.remaining ≤ n) : s.populate fill f v r = s.populate other f v r := by
  simp only [populate, agreeTo_readPayload agree f r short,
    optionalFrameInto_agree agree _ _ _ short, frameInto_agree agree _ _ short]

theorem readSlot_agree (agree : Fill.AgreeTo n fill other) (slot : Slot) {r : Reader}
    (short : r.remaining ≤ n) : s.readSlot fill slot r = s.readSlot other slot r := by
  rw [readSlot, readSlot, agreeTo_skip agree slot.field r short, populate_agree agree _ _ short]

/-- A record that fits into the bytes left is read alike. -/
theorem readRecord_agree (agree : Fill.AgreeTo n fill other) (id : UInt16) (slots : List Slot)
    {r : Reader} (short : r.remaining ≤ n) :
    s.readRecord fill id slots r = s.readRecord other id slots r := by
  induction slots with
  | nil => rfl
  | cons slot slots ih => rw [readRecord, readRecord, readSlot_agree agree slot short, ih]

/-- A record that is read leaves no more bytes than there were. -/
theorem remaining_readSlot_le {slot slot' : Slot} {r r' : Reader}
    (read : s.readSlot fill slot r = (.ok (), slot', r')) : r'.remaining ≤ r.remaining := by
  rw [readSlot] at read
  split at read
  · rcases passed : (s.skip fill slot.field).exec r with ⟨e | u, after⟩
    · rw [passed] at read
      cases read
    · rw [passed] at read
      cases read
      exact (s.delimited_skip fill slot.field).remaining_le passed
  · rcases filled : s.populate fill slot.field slot.value r with ⟨e | u, v, after⟩
    · rw [filled] at read
      cases read
    · rw [filled] at read
      cases read
      obtain ⟨d, read⟩ := exec_deliver_of_populate filled
      exact (s.delimited_deliver fill slot.field).remaining_le read

/-- A record leaves no more than there was. -/
theorem remaining_readRecord_le {id : UInt16} {slots slots' : List Slot} {r r' : Reader}
    (read : s.readRecord fill id slots r = some (.ok (), slots', r')) :
    r'.remaining ≤ r.remaining := by
  induction slots generalizing slots' with
  | nil => cases read
  | cons slot slots ih =>
    rw [readRecord] at read
    split at read
    · rcases own : s.readSlot fill slot r with ⟨outcome, slot', after⟩
      rw [own] at read
      cases read
      exact remaining_readSlot_le own
    · obtain ⟨⟨outcome, later, after⟩, read, same⟩ := Option.map_eq_some_iff.mp read
      cases same
      exact ih read

end

/-- With as much fuel as there are bytes, more of it changes nothing. -/
theorem readRecords_eq_of_fuel (s : Schema) {fuel other : Nat} (slots : List Slot) {r : Reader}
    (enough : r.remaining ≤ fuel) (enoughOther : r.remaining ≤ other) :
    s.readRecords fuel slots r = s.readRecords other slots r := by
  induction fuel generalizing other slots r with
  | zero => rw [readRecords_of_short 0 slots (by omega), readRecords_of_short other slots (by omega)]
  | succ fuel ih =>
    by_cases short : r.remaining ≤ 2
    · rw [readRecords_of_short _ slots short, readRecords_of_short _ slots short]
    obtain ⟨low, high, next, more, long⟩ := Reader.exists_more (Nat.lt_of_not_le short)
    rw [long] at enough enoughOther ⊢
    obtain ⟨other, rfl⟩ : ∃ m, other = m + 1 := ⟨other - 1, by
      rw [Reader.remaining, List.length_cons] at enoughOther
      omega⟩
    simp only [Reader.remaining, List.length_cons] at enough enoughOther
    have agree : Fill.AgreeTo (more.length + 1) (s.fillTo fuel) (s.fillTo other) := by
      intro name values bytes small
      have same := ih (Slot.ofValues (s.fieldsOf name) values) (r := Reader.ofBytes bytes)
        (show bytes.length ≤ fuel by omega) (show bytes.length ≤ other by omega)
      rw [fillTo, fillTo, same]
    rw [readRecords_succ, readRecords_succ,
      readRecord_agree (r := ⟨next :: more, r.index + 2⟩) agree _ _ (Nat.le_refl _)]
    split
    · rfl
    · rcases read : s.readRecord (s.fillTo other) (Bytes.toNat [low, high]).toUInt16 slots
        ⟨next :: more, r.index + 2⟩ with _ | ⟨e | u, slots, r'⟩
      · rfl
      · rfl
      · have left : r'.remaining ≤ more.length + 1 := remaining_readRecord_le read
        exact ih slots (by omega) (by omega)

/-- Frames are taken in the same way by all fuel that is enough for them. -/
theorem agreeTo_fillTo (s : Schema) {n fuel other : Nat} (enough : n ≤ fuel)
    (enoughOther : n ≤ other) : Fill.AgreeTo n (s.fillTo fuel) (s.fillTo other) := by
  intro name values bytes short
  rw [fillTo, fillTo, readRecords_eq_of_fuel s (r := Reader.ofBytes bytes) _
    (Nat.le_trans short enough) (Nat.le_trans short enoughOther)]

end Schema

end WireSchema
