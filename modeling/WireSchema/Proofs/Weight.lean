import WireSchema.Proofs.RoundTrip

/-!
What a message weighs, in the elements of its arrays and the units of its texts. Each of them is
paid for with a byte of its own, at every depth, so bytes never unfold into a message that weighs
more than they do. The weight that is there before a step is its credit, and the weight that it
leaves is paid out of the credit and the bytes that it takes.
-/

namespace WireSchema

open Text

/-- The units of a text. No other value has any. -/
def Scalar.weight : Scalar → Nat
  | .string text => Utf16.length text
  | _ => 0

mutual

/-- The elements of all arrays and the units of all texts in a value. -/
def Value.weight : Value → Nat
  | .scalar x => x.weight
  | .enum _ => 0
  | .message values => Value.weightAll values
  | .array items => items.length + Value.weightAll items
  | .absent => 0

def Value.weightAll : List Value → Nat
  | [] => 0
  | v :: vs => v.weight + Value.weightAll vs

end

namespace Value

@[simp] theorem weight_scalar (x : Scalar) : (Value.scalar x).weight = x.weight := rfl

@[simp] theorem weight_enum (n : Int32) : (Value.enum n).weight = 0 := rfl

@[simp] theorem weight_message (values : List Value) :
    (Value.message values).weight = weightAll values := rfl

@[simp] theorem weight_array (items : List Value) :
    (Value.array items).weight = items.length + weightAll items := rfl

@[simp] theorem weight_absent : Value.absent.weight = 0 := rfl

@[simp] theorem weightAll_nil : weightAll [] = 0 := rfl

@[simp] theorem weightAll_cons (v : Value) (vs : List Value) :
    weightAll (v :: vs) = v.weight + weightAll vs := rfl

@[simp] theorem weightAll_append (vs ws : List Value) :
    weightAll (vs ++ ws) = weightAll vs + weightAll ws := by
  induction vs with
  | nil => simp
  | cons v vs ih => simp [ih, Nat.add_assoc]

theorem weightAll_eq_zero {vs : List Value} (light : ∀ v ∈ vs, v.weight = 0) :
    weightAll vs = 0 := by
  induction vs with
  | nil => rfl
  | cons v vs ih =>
    rw [List.forall_mem_cons] at light
    simp [light.1, ih light.2]

/-- The message that is in a value weighs no more than the value. -/
theorem weightAll_values?_le (v : Value) : weightAll (v.values?.getD []) ≤ v.weight := by
  cases v <;> simp [values?]

end Value

/-! Defaults weigh nothing. -/

theorem Scalar.weight_zero (p : Primitive) : (Scalar.zero p).weight = 0 := by
  cases p <;> rfl

namespace Schema

theorem weight_defaultValueWith {s : Schema} {message : String → List Value}
    (light : ∀ name, Value.weightAll (message name) = 0) (f : Field) :
    (s.defaultValueWith message f).weight = 0 := by
  rw [defaultValueWith]
  split
  · rfl
  split
  · rfl
  split <;> simp [Scalar.weight_zero, light]

theorem weightAll_defaultMessageTo (s : Schema) (depth : Nat) (name : String) :
    Value.weightAll (s.defaultMessageTo depth name) = 0 := by
  induction depth generalizing name with
  | zero => rfl
  | succ depth ih =>
    apply Value.weightAll_eq_zero
    rw [defaultMessageTo, List.forall_mem_map]
    exact fun f _ => weight_defaultValueWith ih f

theorem weightAll_defaultMessage (s : Schema) (name : String) :
    Value.weightAll (s.defaultMessage name) = 0 :=
  s.weightAll_defaultMessageTo _ name

end Schema

namespace Reader

/-- From the first reader to the second no byte is lost, and those that were taken, with the credit,
cover the cost. -/
structure Paid (r r' : Reader) (credit cost : Nat) : Prop where
  total : r'.index + r'.remaining = r.index + r.remaining
  covered : r.index + cost ≤ r'.index + credit

variable {r r' r'' : Reader} {credit cost : Nat}

theorem Paid.refl (r : Reader) (enough : cost ≤ credit) : r.Paid r credit cost :=
  ⟨rfl, Nat.add_le_add_left enough r.index⟩

/-- What the first part leaves paid is the credit of the second. -/
theorem Paid.trans {between : Nat} (first : r.Paid r' credit between)
    (later : r'.Paid r'' between cost) : r.Paid r'' credit cost := by
  obtain ⟨total, covered⟩ := first
  obtain ⟨total', covered'⟩ := later
  exact ⟨by omega, by omega⟩

theorem Paid.mono {less : Nat} (paid : r.Paid r' credit cost) (enough : less ≤ cost) :
    r.Paid r' credit less :=
  ⟨paid.total, Nat.le_trans (Nat.add_le_add_left enough _) paid.covered⟩

/-- From the start of some bytes, what the index says is what was taken. -/
theorem Paid.ofBytes {bs : List UInt8} (paid : (Reader.ofBytes bs).Paid r credit cost) :
    cost ≤ credit + r.index ∧ r.index ≤ bs.length := by
  obtain ⟨total, covered⟩ := paid
  simp only [Reader.ofBytes, Reader.remaining] at total covered
  exact ⟨by omega, by omega⟩

/-- Credit that is not needed is kept. -/
theorem Paid.keep (paid : r.Paid r' credit cost) (k : Nat) : r.Paid r' (k + credit) (k + cost) := by
  obtain ⟨total, covered⟩ := paid
  exact ⟨total, by omega⟩

end Reader

namespace Read

variable {α β : Type} {step : Read α} {credit : Nat} {cost : α → Nat}

/-- Where the step gives something, the credit and the bytes that it takes cover the cost. -/
def Pays (step : Read α) (credit : Nat) (cost : α → Nat) : Prop :=
  ∀ r a r', step.exec r = (.ok a, r') → r.Paid r' credit (cost a)

theorem pays_pure {a : α} (enough : cost a ≤ credit) : (pure a : Read α).Pays credit cost := by
  intro r b r' read
  cases read
  exact Reader.Paid.refl r enough

theorem pays_throw (credit : Nat) (cost : α → Nat) (e : DecodeError) :
    (throw e : Read α).Pays credit cost := by
  intro r a r' read
  cases read

theorem pays_get {next : Reader → Read α} (each : ∀ r, (next r).Pays credit cost) :
    (get >>= next).Pays credit cost := by
  intro r a r' read
  rw [exec_bind, exec_get] at read
  exact each r r a r' read

theorem Pays.bind {next : α → Read β} {total : β → Nat} (first : step.Pays credit cost)
    (later : ∀ a, (next a).Pays (cost a) total) : (step >>= next).Pays credit total := by
  intro r b r' read
  rw [exec_bind] at read
  rcases given : step.exec r with ⟨e | a, between⟩
  · rw [given] at read
    cases read
  · rw [given] at read
    exact (first r a between given).trans (later a between b r' read)

theorem Pays.map {g : α → β} {total : β → Nat} (first : step.Pays credit cost)
    (enough : ∀ a, total (g a) ≤ cost a) : (step >>= fun a => pure (g a)).Pays credit total :=
  first.bind fun a => pays_pure (enough a)

theorem Pays.mono {less : α → Nat} (pays : step.Pays credit cost) (enough : ∀ a, less a ≤ cost a) :
    step.Pays credit less :=
  fun r a r' read => (pays r a r' read).mono (enough a)

theorem Pays.keep (pays : step.Pays credit cost) (k : Nat) :
    step.Pays (k + credit) fun a => k + cost a :=
  fun r a r' read => (pays r a r' read).keep k

theorem length_of_exec_bytes {n : Nat} {r r' : Reader} {bs : List UInt8}
    (read : (bytes n).exec r = (.ok bs, r')) : bs.length = n ∧ r.Paid r' 0 n := by
  rw [exec_bytes] at read
  split at read
  · cases read
  · cases read
    simp only [List.length_take]
    refine ⟨by omega, ⟨?_, Nat.le_refl _⟩⟩
    simp only [Reader.remaining, List.length_drop]
    omega

theorem pays_bytes (n : Nat) : (bytes n).Pays 0 List.length := by
  intro r bs r' read
  obtain ⟨length, paid⟩ := length_of_exec_bytes read
  rwa [length]

theorem pays_fixed (width : Nat) : (fixed width).Pays 0 fun _ => width := by
  have taken : (bytes width).Pays 0 fun _ => width :=
    fun _ _ _ read => (length_of_exec_bytes read).2
  exact taken.map fun _ => Nat.le_refl _

theorem pays_uint8 : uint8.Pays 0 fun _ => 1 := (pays_fixed 1).map fun _ => Nat.le_refl _

theorem pays_uint16 : uint16.Pays 0 fun _ => 2 := (pays_fixed 2).map fun _ => Nat.le_refl _

theorem pays_uint32 : uint32.Pays 0 fun _ => 4 := (pays_fixed 4).map fun _ => Nat.le_refl _

theorem pays_uint64 : uint64.Pays 0 fun _ => 8 := (pays_fixed 8).map fun _ => Nat.le_refl _

theorem pays_flag : flag.Pays 0 fun _ => 1 := pays_uint8.map fun _ => Nat.le_refl _

theorem pays_length : length.Pays 0 fun _ => 2 := pays_uint16.map fun _ => Nat.le_refl _

theorem pays_frame : frame.Pays 0 fun bs => 2 + bs.length :=
  pays_length.bind fun count => (pays_bytes count).keep 2

end Read

theorem Bytes.length_units_le (bs : List UInt8) : 2 * (Bytes.units bs).length ≤ bs.length := by
  have general (acc : List UInt16) :
      2 * (Bytes.unitsFrom acc bs).length ≤ 2 * acc.length + bs.length := by
    fun_induction Bytes.unitsFrom acc bs with
    | case1 acc low high rest ih =>
      simp only [List.length_cons] at ih ⊢
      omega
    | case2 acc bs => simp
  simpa [Bytes.units] using general []

namespace Read

variable {α : Type}

theorem pays_text : text.Pays 0 fun s => 1 + Utf16.length s := by
  refine pays_get fun _ => pays_length.bind fun count => ?_
  refine ((pays_bytes (2 * count)).keep 2).bind fun bs => ?_
  -- Two bytes for each unit and two for their number: more than enough.
  have units := Bytes.length_units_le bs
  dsimp only
  split
  · rename_i cs decoded
    have fewer := Utf16.length_le_of_decode? decoded
    exact pays_pure (by omega)
  · exact pays_throw _ _ _

/-- Elements that each pay for themselves and one more pay for the array. -/
theorem pays_times {step : Read Value} (each : step.Pays 0 fun v => 1 + v.weight) (n : Nat)
    (acc : Array Value) :
    (times step n acc).Pays (Value.array acc.toList).weight
      fun items => (Value.array items.toList).weight := by
  induction n generalizing acc with
  | zero => exact pays_pure (Nat.le_refl _)
  | succ n ih =>
    have next := each.keep (Value.array acc.toList).weight
    refine (next.mono fun v => ?_).bind fun v => ih (acc.push v)
    simp only [Array.toList_push, Value.weight_array, Value.weightAll_append, Value.weightAll_cons,
      Value.weightAll_nil, List.length_append, List.length_singleton]
    omega

theorem pays_array {step : Read Value} (each : step.Pays 0 fun v => 1 + v.weight) :
    (array step).Pays 0 fun items => (Value.array items).weight :=
  (pays_length.mono fun _ => Nat.zero_le 2).bind fun count =>
    (pays_times each count #[]).map fun _ => Nat.le_refl _

theorem pays_optional {step : Read α} {cost : α → Nat} (present : step.Pays 0 cost) :
    (optional step).Pays 0 fun item => (item.map cost).getD 0 := by
  refine (pays_flag.mono fun _ => Nat.zero_le 1).bind fun b => ?_
  cases b with
  | false => exact pays_pure (Nat.le_refl 0)
  | true => exact present.map fun _ => Nat.le_refl _

end Read

theorem Scalar.pays_read (p : Primitive) : (Scalar.read p).Pays 0 fun x => 1 + x.weight := by
  cases p with
  | string => exact Read.pays_text.map fun _ => Nat.le_refl _
  | bool => exact Read.pays_flag.map fun _ => Nat.le_refl _
  | byte | sbyte => exact Read.pays_uint8.map fun _ => Nat.le_refl _
  | short | ushort | char => exact Read.pays_uint16.map fun _ => Nat.le_succ _
  | int | uint | float => exact Read.pays_uint32.map fun _ => Nat.le_add_right 1 3
  | long | ulong | double => exact Read.pays_uint64.map fun _ => Nat.le_add_right 1 7

/-- A message that takes in a frame gains no more weight than the frame has bytes. -/
def Fill.Thrifty (fill : Fill) : Prop :=
  ∀ name old bytes new, fill name old bytes = (.ok (), new) →
    Value.weightAll new ≤ Value.weightAll old + bytes.length

namespace Schema

section

variable {s : Schema} {fill : Fill}

theorem pays_readEnum (s : Schema) (name : String) : (s.readEnum name).Pays 0 fun _ => 4 := by
  refine Read.pays_uint32.bind fun n => ?_
  dsimp only
  split
  · exact Read.pays_pure (Nat.le_refl 4)
  · exact Read.pays_throw _ _ _

theorem pays_readMessage (thrifty : fill.Thrifty) (name : String) :
    (s.readMessage fill name).Pays 0 fun values => 2 + Value.weightAll values := by
  refine Read.pays_frame.bind fun bytes => ?_
  split
  · rename_i values built
    have gained := thrifty name _ bytes values built
    rw [weightAll_defaultMessage, Nat.zero_add] at gained
    exact Read.pays_pure (Nat.add_le_add_left gained 2)
  · exact Read.pays_throw _ _ _

/-- An element pays for its weight and for its place in an array. -/
theorem pays_readElement (thrifty : fill.Thrifty) (f : Field) :
    (s.readElement fill f).Pays 0 fun v => 1 + v.weight := by
  rw [readElement]
  split
  · exact (Scalar.pays_read _).map fun _ => Nat.le_refl _
  · exact (pays_readEnum s f.typeName).map fun _ => Nat.le_add_right 1 3
  · exact (pays_readMessage thrifty f.typeName).map fun _ => Nat.add_le_add_right (Nat.le_succ 1) _

theorem pays_readPresent (thrifty : fill.Thrifty) (f : Field) :
    (s.readPresent fill f).Pays 0 Value.weight := by
  have element := pays_readElement (s := s) thrifty f
  rw [readPresent]
  split
  · exact (Read.pays_array element).map fun _ => Nat.le_refl _
  · exact element.mono fun v => Nat.le_add_left v.weight 1

theorem pays_readPayload (thrifty : fill.Thrifty) (f : Field) :
    (s.readPayload fill f).Pays 0 Value.weight := by
  have present := pays_readPresent (s := s) thrifty f
  rw [readPayload]
  split
  · refine (Read.pays_optional present).bind fun item => ?_
    cases item with
    | none => exact Read.pays_pure (Nat.le_refl 0)
    | some v => exact Read.pays_pure (Nat.le_refl _)
  · exact present

theorem pays_skip (thrifty : fill.Thrifty) (f : Field) : (s.skip fill f).Pays 0 fun _ => 0 := by
  rw [skip]
  split
  · split
    · exact (Read.pays_optional Read.pays_frame).map fun _ => Nat.zero_le _
    · exact Read.pays_frame.map fun _ => Nat.zero_le _
  · exact (pays_readPayload thrifty f).map fun _ => Nat.zero_le _

theorem paid_frameInto (thrifty : fill.Thrifty) {name : String} {old new : List Value}
    {r r' : Reader} (filled : Read.frameInto (fill name) old r = (.ok (), new, r')) :
    r.Paid r' (Value.weightAll old) (Value.weightAll new) := by
  rw [Read.frameInto] at filled
  rcases framed : Read.frame.exec r with ⟨e | bytes, after⟩
  · rw [framed] at filled
    cases filled
  · rw [framed] at filled
    rcases taken : fill name old bytes with ⟨outcome, values⟩
    simp only [taken, Prod.mk.injEq] at filled
    obtain ⟨rfl, rfl, rfl⟩ := filled
    have paid := (Read.pays_frame r bytes after framed).keep (Value.weightAll old)
    have gained := thrifty name old bytes values taken
    exact paid.mono (by dsimp only; omega)

theorem paid_optionalFrameInto (thrifty : fill.Thrifty) {name : String} {fresh : List Value}
    (light : Value.weightAll fresh = 0) {old new : Option (List Value)} {r r' : Reader}
    (filled : Read.optionalFrameInto (fill name) fresh old r = (.ok (), new, r')) :
    r.Paid r' (Value.weightAll (old.getD [])) (Value.weightAll (new.getD [])) := by
  rw [Read.optionalFrameInto] at filled
  rcases flagged : Read.flag.exec r with ⟨e | b, between⟩
  · rw [flagged] at filled
    cases filled
  rw [flagged] at filled
  have paid := (Read.pays_flag r b between flagged).keep (Value.weightAll (old.getD []))
  cases b with
  | false =>
    cases filled
    exact paid.mono (Nat.zero_le _)
  | true =>
    replace paid := paid.mono (Nat.le_succ _)
    cases old with
    | some values =>
      rcases into : Read.frameInto (fill name) values between with ⟨outcome, held, after⟩
      simp only [into, Prod.mk.injEq] at filled
      obtain ⟨rfl, rfl, rfl⟩ := filled
      exact paid.trans (paid_frameInto thrifty into)
    | none =>
      rcases into : Read.frameInto (fill name) fresh between with ⟨e | u, held, after⟩
      · simp [into] at filled
      · simp only [into, Prod.mk.injEq, true_and] at filled
        obtain ⟨rfl, rfl⟩ := filled
        have taken := paid_frameInto thrifty into
        rw [light] at taken
        exact paid.trans taken

/-- A record that fills its field pays for what the field gains. -/
theorem paid_populate (thrifty : fill.Thrifty) {f : Field} {old v : Value} {r r' : Reader}
    (filled : s.populate fill f old r = (.ok (), v, r')) : r.Paid r' old.weight v.weight := by
  have held := old.weightAll_values?_le
  rw [populate] at filled
  split at filled
  · split at filled
    · rcases into : Read.optionalFrameInto (fill f.typeName) (s.defaultMessage f.typeName)
        old.values? r with ⟨outcome, values, after⟩
      simp only [into, Prod.mk.injEq] at filled
      obtain ⟨rfl, rfl, rfl⟩ := filled
      have paid := paid_optionalFrameInto thrifty (s.weightAll_defaultMessage f.typeName) into
      refine (Reader.Paid.refl r held).trans (paid.mono ?_)
      cases values <;> simp [Value.ofValues?]
    · rcases into : Read.frameInto (fill f.typeName) (old.values?.getD []) r with
        ⟨outcome, values, after⟩
      simp only [into, Prod.mk.injEq] at filled
      obtain ⟨rfl, rfl, rfl⟩ := filled
      exact (Reader.Paid.refl r held).trans (paid_frameInto thrifty into)
  · rcases read : (s.readPayload fill f).exec r with ⟨e | v, after⟩
    · rw [read] at filled
      cases filled
    · rw [read] at filled
      cases filled
      have paid := pays_readPayload thrifty f r _ _ read
      exact (Reader.Paid.refl r (Nat.zero_le _)).trans paid

theorem paid_readSlot (thrifty : fill.Thrifty) {slot slot' : Slot} {r r' : Reader}
    (read : s.readSlot fill slot r = (.ok (), slot', r')) :
    r.Paid r' slot.value.weight slot'.value.weight := by
  rw [readSlot] at read
  split at read
  · rcases passed : (s.skip fill slot.field).exec r with ⟨e | u, after⟩
    · rw [passed] at read
      cases read
    · rw [passed] at read
      cases read
      exact (pays_skip thrifty slot.field r _ _ passed).keep slot.value.weight
  · rcases filled : s.populate fill slot.field slot.value r with ⟨e | u, v, after⟩
    · rw [filled] at read
      cases read
    · rw [filled] at read
      cases read
      exact paid_populate thrifty filled

theorem paid_readRecord (thrifty : fill.Thrifty) {id : UInt16} {slots slots' : List Slot}
    {r r' : Reader} (read : s.readRecord fill id slots r = some (.ok (), slots', r')) :
    r.Paid r' (Value.weightAll (slots.map Slot.value))
      (Value.weightAll (slots'.map Slot.value)) := by
  induction slots generalizing slots' with
  | nil => cases read
  | cons slot slots ih =>
    rw [readRecord] at read
    split at read
    · rcases own : s.readSlot fill slot r with ⟨outcome, slot', after⟩
      rw [own] at read
      cases read
      have paid := (paid_readSlot thrifty own).keep (Value.weightAll (slots.map Slot.value))
      simpa [Nat.add_comm] using paid
    · obtain ⟨⟨outcome, later, after⟩, read, same⟩ := Option.map_eq_some_iff.mp read
      cases same
      exact (ih read).keep slot.value.weight

end

theorem weightAll_ofValues_le (fields : List Field) (values : List Value) :
    Value.weightAll ((Slot.ofValues fields values).map Slot.value) ≤ Value.weightAll values := by
  induction fields generalizing values with
  | nil => exact Nat.zero_le _
  | cons f fs ih =>
    cases values with
    | nil => exact Nat.zero_le _
    | cons v vs => exact Nat.add_le_add_left (ih vs) v.weight

/-- A run of the read loop pays for what the slots gain. -/
theorem paid_readRecords {s : Schema} {fuel : Nat} {slots slots' : List Slot} {r r' : Reader}
    (read : s.readRecords fuel slots r = (.ok (), slots', r')) :
    r.Paid r' (Value.weightAll (slots.map Slot.value))
      (Value.weightAll (slots'.map Slot.value)) := by
  induction fuel generalizing slots slots' r r' with
  | zero =>
    cases read
    exact Reader.Paid.refl r (Nat.le_refl _)
  | succ fuel ih =>
    -- Frames are taken in by shorter runs, which pay for themselves.
    have thrifty : (s.fillTo fuel).Thrifty := by
      intro name old bytes new filled
      rw [fillTo] at filled
      rcases run : s.readRecords fuel (Slot.ofValues (s.fieldsOf name) old) (Reader.ofBytes bytes)
        with ⟨outcome, left, after⟩
      simp only [run, Prod.mk.injEq] at filled
      obtain ⟨rfl, rfl⟩ := filled
      have gained := (ih run).ofBytes
      have start := weightAll_ofValues_le (s.fieldsOf name) old
      omega
    by_cases short : r.remaining ≤ 2
    · rw [readRecords_of_short _ _ short] at read
      cases read
      exact Reader.Paid.refl r (Nat.le_refl _)
    obtain ⟨low, high, next, more, long⟩ := Reader.exists_more (Nat.lt_of_not_le short)
    rw [long, readRecords_succ] at read
    split at read
    · cases read
      exact long ▸ Reader.Paid.refl r (Nat.le_refl _)
    -- The id pays for nothing.
    have id : r.Paid ⟨next :: more, r.index + 2⟩ 0 0 := by
      rw [long]
      exact ⟨by simp [Reader.remaining]; omega, by simp⟩
    split at read
    · cases read
    · cases read
    · rename_i left between turn
      have paid := (id.keep _).trans (paid_readRecord thrifty turn)
      exact paid.trans (ih read)

/-- Unpacking adds no more weight to a message than it takes bytes. -/
theorem weightAll_le_of_unpack {s : Schema} {fields : List Field} {old new : List Value}
    {data : List UInt8} {offset length n : Nat}
    (read : s.unpack fields old data offset length = (.ok n, new)) :
    Value.weightAll new ≤ Value.weightAll old + n ∧ n ≤ length := by
  rw [unpack] at read
  cases range : Reader.ofRange data offset length with
  | error e =>
    rw [range] at read
    cases read
  | ok r =>
    obtain ⟨bytes, rfl, size⟩ : ∃ bytes, r = Reader.ofBytes bytes ∧ bytes.length ≤ length := by
      rw [Reader.ofRange] at range
      split at range <;> cases range
      exact ⟨_, rfl, List.length_take_le _ _⟩
    rcases run : s.readRecords bytes.length (Slot.ofValues fields old) (Reader.ofBytes bytes) with
      ⟨e | u, slots, r⟩
    all_goals
      simp only [range, readFields, show (Reader.ofBytes bytes).remaining = bytes.length from rfl,
        run, Except.map, Prod.mk.injEq, Except.ok.injEq, reduceCtorEq, false_and] at read
    obtain ⟨rfl, rfl⟩ := read
    have gained := (paid_readRecords run).ofBytes
    have start := weightAll_ofValues_le fields old
    omega

/-- A message that is read from bytes weighs no more than the bytes that were taken for it. -/
theorem weightAll_le_of_deserialize {s : Schema} {name : String} {data : List UInt8}
    {offset length : Nat} {m : List Value} (read : s.deserialize name data offset length = .ok m) :
    ∃ n, s.unpack (s.fieldsOf name) (s.defaultMessage name) data offset length = (.ok n, m) ∧
      Value.weightAll m ≤ n ∧ n ≤ length := by
  rw [deserialize] at read
  split at read
  · rename_i n values taken
    cases read
    have gained := weightAll_le_of_unpack taken
    rw [weightAll_defaultMessage, Nat.zero_add] at gained
    exact ⟨n, taken, gained⟩
  · cases read

/-- `oak` has a label of three units and one branch. -/
theorem weightAll_le_of_deserialize_oak :
    forest.deserialize "Tree" oakBytes.toList 0 59 = .ok oak ∧ Value.weightAll oak = 4 ∧
      ∃ n, forest.unpack (forest.fieldsOf "Tree") (forest.defaultMessage "Tree") oakBytes.toList 0
          59 = (.ok n, oak) ∧ 4 ≤ n ∧ n ≤ 59 := by
  have read := deserialize_records (d := ⟨"Tree", ⟨3, 9⟩, .message treeFields⟩)
    (p := forest.records treeFields oak) forest_accepted (by decide) admitsAll_oak serialize_oak
    (List.Perm.refl _)
  rw [(records_of_serialize admitsAll_oak serialize_oak).1] at read
  have weight : Value.weightAll oak = 4 := by decide
  have light := weightAll_le_of_deserialize read
  rw [weight] at light
  exact ⟨read, weight, light⟩

end Schema

end WireSchema
