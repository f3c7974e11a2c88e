import WireSchema.Proofs.Intake

/-!
Steps that delimit themselves. Where such a step gives a value, the bytes that it took give the same
value wherever they stand, and any part of them is too little: the step then asks for more bytes than
are left and fails for no other reason. Every step that reads the value of a record is one, however
nested messages are taken in.
-/

namespace WireSchema

namespace Read

variable {α β : Type}

/-- Any part of these bytes, from their start, is too little. -/
def Starves (step : Read α) (bs : List UInt8) : Prop :=
  ∀ part missing, bs = part ++ missing → missing ≠ [] → ∀ index : Nat,
    ∃ position needed remaining r,
      step.exec ⟨part, index⟩ = (.error (.unexpectedEnd position needed remaining), r)

/-- What the step takes for a value decides the value and where it ends. -/
def Delimited (step : Read α) : Prop :=
  ∀ r a r', step.exec r = (.ok a, r') →
    ∃ bs, r.rest = bs ++ r'.rest ∧ step.Gives bs a ∧ step.Starves bs

/-- A delimited read that takes some bytes fails without the last of them. -/
theorem Delimited.starves {step : Read α} (delimited : step.Delimited) {bs : List UInt8} {a : α}
    (gives : step.Gives bs a) : step.Starves bs := by
  obtain ⟨taken, whole, -, starves⟩ := delimited _ _ _ (gives [] 0)
  simp only [List.append_nil] at whole
  rwa [whole]

/-- A read leaves no more than there was. -/
theorem Delimited.remaining_le {step : Read α} (delimited : step.Delimited) {r r' : Reader} {a : α}
    (read : step.exec r = (.ok a, r')) : r'.remaining ≤ r.remaining := by
  obtain ⟨taken, whole, -⟩ := delimited r a r' read
  rw [Reader.remaining, Reader.remaining, whole, List.length_append]
  omega

/-- A sequence that takes its bytes starves as soon as one of its parts does. -/
theorem Starves.bind {step : Read α} {next : α → Read β} {bs cs : List UInt8} {a : α}
    (gives : step.Gives bs a) (first : step.Starves bs) (later : (next a).Starves cs) :
    (step >>= next).Starves (bs ++ cs) := by
  intro part missing split lost index
  rw [exec_bind]
  -- The cut is inside what the first step takes, or behind it.
  obtain ⟨cut, rfl, rfl⟩ | ⟨cut, rfl, rfl⟩ := List.append_eq_append_iff.mp split
  · obtain ⟨position, needed, remaining, r, failed⟩ := later cut missing rfl lost (index + bs.length)
    rw [gives cut index]
    exact ⟨position, needed, remaining, r, failed⟩
  · by_cases none : cut = []
    · subst none
      have ended := gives [] index
      obtain ⟨position, needed, remaining, r, failed⟩ := later [] cs rfl lost
        (index + (part ++ []).length)
      rw [List.append_nil, List.append_nil] at ended
      rw [ended]
      rw [List.append_nil] at failed
      exact ⟨position, needed, remaining, r, failed⟩
    · obtain ⟨position, needed, remaining, r, failed⟩ := first part cut rfl none index
      rw [failed]
      exact ⟨position, needed, remaining, r, rfl⟩

theorem delimited_pure (a : α) : (pure a : Read α).Delimited := by
  intro r b r' read
  cases read
  refine ⟨[], rfl, Gives.pure a, ?_⟩
  intro part missing split lost
  exact absurd (List.append_eq_nil_iff.mp split.symm).2 lost

theorem delimited_throw (e : DecodeError) : (throw e : Read α).Delimited := by
  intro r a r' read
  cases read

/-- Delimited reads one after the other are delimited. -/
theorem Delimited.bind {step : Read α} {next : α → Read β} (first : step.Delimited)
    (later : ∀ a, (next a).Delimited) : (step >>= next).Delimited := by
  intro r b r' read
  rw [exec_bind] at read
  rcases reply : step.exec r with ⟨e | a, between⟩
  · rw [reply] at read
    cases read
  · rw [reply] at read
    obtain ⟨bs, front, gives, starves⟩ := first r a between reply
    obtain ⟨cs, back, givesLater, starvesLater⟩ := later a between b r' read
    refine ⟨bs ++ cs, ?_, gives.bind givesLater, Starves.bind gives starves starvesLater⟩
    rw [front, back, List.append_assoc]

theorem Delimited.map {step : Read α} (first : step.Delimited) (f : α → β) :
    (step >>= fun a => Pure.pure (f a)).Delimited :=
  first.bind fun a => delimited_pure (f a)

/-- A step may look at the reader if that has no part in what it gives. -/
theorem delimited_get {next : Reader → Read α} (each : ∀ r, (next r).Delimited)
    (same : ∀ r q bs a, (next r).Gives bs a → (next q).Gives bs a) :
    (get >>= next).Delimited := by
  intro r a r' read
  rw [exec_bind, exec_get] at read
  obtain ⟨bs, whole, gives, -⟩ := each r r a r' read
  refine ⟨bs, whole, Gives.get fun q => same r q bs a gives, ?_⟩
  intro part missing split lost index
  rw [exec_bind, exec_get]
  exact (each _).starves (same r _ bs a gives) part missing split lost index

/-- Taking so many bytes is delimited, because their number is known. -/
theorem delimited_bytes (n : Nat) : (bytes n).Delimited := by
  intro r a r' read
  rw [exec_bytes] at read
  split at read
  · cases read
  · rename_i enough
    cases read
    have length : (r.rest.take n).length = n := by
      rw [List.length_take]
      omega
    have gives := gives_bytes (r.rest.take n)
    rw [length] at gives
    refine ⟨r.rest.take n, (List.take_append_drop n r.rest).symm, gives, ?_⟩
    intro part missing split lost index
    have less : part.length < n := by
      have total := congrArg List.length split
      have more := List.length_pos_iff.mpr lost
      rw [length, List.length_append] at total
      omega
    rw [exec_bytes, if_pos less]
    exact ⟨_, _, _, _, rfl⟩

theorem delimited_fixed (width : Nat) : (fixed width).Delimited :=
  (delimited_bytes width).map Bytes.toNat

theorem delimited_uint8 : uint8.Delimited := (delimited_fixed 1).map Nat.toUInt8

theorem delimited_uint16 : uint16.Delimited := (delimited_fixed 2).map Nat.toUInt16

theorem delimited_uint32 : uint32.Delimited := (delimited_fixed 4).map Nat.toUInt32

theorem delimited_uint64 : uint64.Delimited := (delimited_fixed 8).map Nat.toUInt64

theorem delimited_flag : flag.Delimited := delimited_uint8.map (· != 0)

theorem delimited_length : length.Delimited := delimited_uint16.map UInt16.toNat

theorem delimited_frame : frame.Delimited := delimited_length.bind delimited_bytes

/-- A text is delimited by its length, even where its units are no text. -/
theorem delimited_text : text.Delimited := by
  apply delimited_get
  · intro r
    apply delimited_length.bind
    intro count
    apply (delimited_bytes (2 * count)).bind
    intro units
    dsimp only
    split
    · exact delimited_pure _
    · exact delimited_throw _
  · -- Where the text stands shows only in the error about its units.
    intro r q bs t gives rest index
    have read := gives rest index
    rw [exec_bind] at read ⊢
    generalize length.exec ⟨bs ++ rest, index⟩ = counted at read ⊢
    rcases counted with ⟨e | count, between⟩
    · cases read
    · dsimp only at read ⊢
      rw [exec_bind] at read ⊢
      generalize (bytes (2 * count)).exec between = taken at read ⊢
      rcases taken with ⟨e | units, after⟩
      · cases read
      · dsimp only at read ⊢
        split at read
        · exact read
        · cases read

/-- So many reads of one kind are delimited if each is. -/
theorem delimited_times {step : Read α} (each : step.Delimited) (n : Nat) (acc : Array α) :
    (times step n acc).Delimited := by
  induction n generalizing acc with
  | zero => exact delimited_pure acc
  | succ n ih => exact each.bind fun a => ih (acc.push a)

/-- An array is delimited by the count in front of it. -/
theorem delimited_array {step : Read α} (each : step.Delimited) : (array step).Delimited :=
  delimited_length.bind fun count => (delimited_times each count #[]).map Array.toList

theorem delimited_optional {step : Read α} (present : step.Delimited) :
    (optional step).Delimited := by
  apply delimited_flag.bind
  intro b
  cases b with
  | false => exact delimited_pure none
  | true => exact present.map some

end Read

/-- Every built-in type is read from the bytes that are its own. -/
theorem Scalar.delimited_read (p : Primitive) : (Scalar.read p).Delimited := by
  cases p with
  | bool => exact Read.delimited_flag.map Scalar.bool
  | byte => exact Read.delimited_uint8.map Scalar.byte
  | sbyte => exact Read.delimited_uint8.map fun n => Scalar.sbyte n.toInt8
  | short => exact Read.delimited_uint16.map fun n => Scalar.short n.toInt16
  | ushort => exact Read.delimited_uint16.map Scalar.ushort
  | int => exact Read.delimited_uint32.map fun n => Scalar.int n.toInt32
  | uint => exact Read.delimited_uint32.map Scalar.uint
  | long => exact Read.delimited_uint64.map fun n => Scalar.long n.toInt64
  | ulong => exact Read.delimited_uint64.map Scalar.ulong
  | float => exact Read.delimited_uint32.map Scalar.float
  | double => exact Read.delimited_uint64.map Scalar.double
  | string => exact Read.delimited_text.map Scalar.string
  | char => exact Read.delimited_uint16.map Scalar.char

namespace Schema

variable (s : Schema) (fill : Fill) (f : Field)

/-- An enum takes four bytes, whether it has that value or not. -/
theorem delimited_readEnum (name : String) : (s.readEnum name).Delimited := by
  apply Read.delimited_uint32.bind
  intro n
  dsimp only
  split
  · exact Read.delimited_pure _
  · exact Read.delimited_throw _

/-- A frame ends where its length says, whatever is made of it. -/
theorem delimited_readMessage (name : String) : (s.readMessage fill name).Delimited := by
  apply Read.delimited_frame.bind
  intro bytes
  split
  · exact Read.delimited_pure _
  · exact Read.delimited_throw _

theorem delimited_readElement : (s.readElement fill f).Delimited := by
  rw [readElement]
  split
  · exact (Scalar.delimited_read _).map Value.scalar
  · exact (s.delimited_readEnum f.typeName).map Value.enum
  · exact (s.delimited_readMessage fill f.typeName).map Value.message

theorem delimited_readPresent : (s.readPresent fill f).Delimited := by
  rw [readPresent]
  split
  · exact (Read.delimited_array (s.delimited_readElement fill f)).map Value.array
  · exact s.delimited_readElement fill f

/-- The value of a record delimits itself. -/
theorem delimited_readPayload : (s.readPayload fill f).Delimited := by
  rw [readPayload]
  split
  · apply (Read.delimited_optional (s.delimited_readPresent fill f)).bind
    intro v
    cases v <;> exact Read.delimited_pure _
  · exact s.delimited_readPresent fill f

/-- What a record brings is taken from the bytes that are its own. -/
theorem delimited_deliver : (s.deliver fill f).Delimited := by
  rw [deliver]
  split
  · split
    · apply (Read.delimited_optional Read.delimited_frame).bind
      intro bytes
      cases bytes <;> exact Read.delimited_pure _
    · exact Read.delimited_frame.map Delivery.frame
  · exact (s.delimited_readPayload fill f).map Delivery.value

/-- A record that is passed over is passed over whole. -/
theorem delimited_skip : (s.skip fill f).Delimited := by
  rw [skip]
  split
  · split
    · exact (Read.delimited_optional Read.delimited_frame).map fun _ => ()
    · exact Read.delimited_frame.map fun _ => ()
  · exact (s.delimited_readPayload fill f).map fun _ => ()

end Schema

end WireSchema
