import WireSchema.Proofs.Layout
import WireSchema.Wire.Decode

/-!
Reading takes back what the layout lays down. A step gives a value from bytes when it takes exactly
these bytes, wherever they stand and whatever follows them, so the facts about steps compose as the
bytes do. Nested messages are left to an assumption about how their frames are taken in.
-/

namespace WireSchema

open Text

namespace Read

variable {α β : Type}

@[simp] theorem exec_pure (a : α) (r : Reader) : (pure a : Read α).exec r = (.ok a, r) := rfl

@[simp] theorem exec_get (r : Reader) : (get : Read Reader).exec r = (.ok r, r) := rfl

@[simp] theorem exec_set (r' r : Reader) : (set r' : Read PUnit).exec r = (.ok ⟨⟩, r') := rfl

theorem exec_bind (step : Read α) (next : α → Read β) (r : Reader) :
    (step >>= next).exec r =
      match step.exec r with
      | (.ok a, r) => (next a).exec r
      | (.error e, r) => (.error e, r) := by
  show (StateT.run (ExceptT.run (step >>= next)) r) = _
  rw [ExceptT.run_bind, StateT.run_bind]
  unfold exec
  cases StateT.run (ExceptT.run step) r with
  | mk outcome r' => cases outcome <;> rfl

/-- Takes exactly these bytes, whatever follows them, and gives this value. -/
def Gives (step : Read α) (bs : List UInt8) (a : α) : Prop :=
  ∀ (rest : List UInt8) (index : Nat),
    step.exec ⟨bs ++ rest, index⟩ = (.ok a, ⟨rest, index + bs.length⟩)

theorem Gives.pure (a : α) : Gives (pure a) [] a := by
  intro rest index
  rfl

/-- Reads one after the other take their bytes one behind the other. -/
theorem Gives.bind {step : Read α} {next : α → Read β} {bs cs : List UInt8} {a : α} {b : β}
    (first : Gives step bs a) (later : Gives (next a) cs b) :
    Gives (step >>= next) (bs ++ cs) b := by
  intro rest index
  rw [exec_bind, List.append_assoc, first]
  simp only
  rw [later, List.length_append, Nat.add_assoc]

/-- What a step gives may be worked on without taking more. -/
theorem Gives.then {step : Read α} {next : α → Read β} {bs : List UInt8} {a : α} {b : β}
    (first : Gives step bs a) (later : Gives (next a) [] b) : Gives (step >>= next) bs b := by
  have h := first.bind later
  rwa [List.append_nil] at h

theorem Gives.map {step : Read α} {bs : List UInt8} {a : α} (first : Gives step bs a)
    (f : α → β) : Gives (step >>= fun a => Pure.pure (f a)) bs (f a) :=
  first.then (Gives.pure (f a))

/-- So many bytes are taken, or none where there are too few. -/
theorem exec_bytes (n : Nat) (r : Reader) :
    (bytes n).exec r =
      if r.rest.length < n then (.error (.unexpectedEnd r.index n r.remaining), r)
      else (.ok (r.rest.take n), ⟨r.rest.drop n, r.index + n⟩) := by
  have short : (r.rest.take n).length < n ↔ r.rest.length < n := by
    rw [List.length_take]
    omega
  rw [bytes, exec_bind, exec_get]
  simp only [short]
  split <;> rfl

theorem gives_bytes (bs : List UInt8) : Gives (bytes bs.length) bs bs := by
  intro rest index
  have enough : ¬ (bs ++ rest).length < bs.length := by
    rw [List.length_append]
    omega
  rw [exec_bytes, if_neg enough, List.take_left, List.drop_left]

theorem gives_fixed (width n : Nat) (small : n < 256 ^ width) :
    Gives (fixed width) (Bytes.ofNat width n) n := by
  have taken := gives_bytes (Bytes.ofNat width n)
  rw [Bytes.length_ofNat] at taken
  have read := taken.map Bytes.toNat
  rwa [Bytes.toNat_ofNat, Nat.mod_eq_of_lt small] at read

/-- A length is read back if two bytes can hold it. -/
theorem gives_length {n : Nat} (small : n ≤ 65535) : Gives length (Bytes.ofNat 2 n) n := by
  have read := ((gives_fixed 2 n (by omega)).map Nat.toUInt16).map UInt16.toNat
  rwa [Utf16.toNat_unit (by omega)] at read

/-- A frame is read back from its length and its bytes. -/
theorem gives_frame {bs : List UInt8} (small : bs.length ≤ 65535) :
    Gives frame (Bytes.ofNat 2 bs.length ++ bs) bs :=
  (gives_length small).bind (gives_bytes bs)

theorem gives_uint8 (n : UInt8) : Gives uint8 [n] n := by
  have read := ((gives_bytes [n]).map Bytes.toNat).map Nat.toUInt8
  have same : (Bytes.toNat [n]).toUInt8 = n := by simp
  rwa [same] at read

theorem gives_uint16 (n : UInt16) : Gives uint16 (Bytes.ofNat 2 n.toNat) n := by
  have read := (gives_fixed 2 n.toNat n.toNat_lt).map Nat.toUInt16
  have same : n.toNat.toUInt16 = n := by simp
  rwa [same] at read

theorem gives_uint32 (n : UInt32) : Gives uint32 (Bytes.ofNat 4 n.toNat) n := by
  have read := (gives_fixed 4 n.toNat n.toNat_lt).map Nat.toUInt32
  have same : n.toNat.toUInt32 = n := by simp
  rwa [same] at read

theorem gives_uint64 (n : UInt64) : Gives uint64 (Bytes.ofNat 8 n.toNat) n := by
  have read := (gives_fixed 8 n.toNat n.toNat_lt).map Nat.toUInt64
  have same : n.toNat.toUInt64 = n := by simp
  rwa [same] at read

theorem gives_flag (b : Bool) : Gives flag [if b then 1 else 0] b := by
  have read := (gives_uint8 (if b then 1 else 0)).map (· != 0)
  cases b <;> exact read

/-- Looking at the reader takes nothing. -/
theorem Gives.get {next : Reader → Read α} {bs : List UInt8} {a : α}
    (same : ∀ r, Gives (next r) bs a) : Gives (get >>= next) bs a := by
  intro rest index
  rw [exec_bind, exec_get]
  exact same _ rest index

/-- Units are read back from their bytes. -/
theorem units_ofUnits (units : List UInt16) : Bytes.units (Bytes.ofUnits units) = units := by
  have general (acc : List UInt16) :
      Bytes.unitsFrom acc (Bytes.ofUnits units) = acc.reverse ++ units := by
    induction units generalizing acc with
    | nil => simp [Bytes.ofUnits, Bytes.unitsFrom]
    | cons u us ih =>
      have step : Bytes.unitsFrom acc (Bytes.ofUnits (u :: us)) =
          Bytes.unitsFrom ((Bytes.toNat (Bytes.ofNat 2 u.toNat)).toUInt16 :: acc)
            (Bytes.ofUnits us) := rfl
      rw [step, Bytes.toUInt16_toNat_ofNat, ih]
      simp
  exact general []

/-- A text is read back if its length can be written. -/
theorem gives_text {t : String} (small : Utf16.length t ≤ 65535) :
    Gives text (Scalar.string t).wire t := by
  have room : 2 * Utf16.length t = (Bytes.ofUnits (Utf16.encode t.toList)).length := by
    rw [Bytes.length_ofUnits, Utf16.length_eq_length_encode]
  apply Gives.get
  intro r
  apply (gives_length small).bind
  rw [room]
  apply (gives_bytes (Bytes.ofUnits (Utf16.encode t.toList))).then
  simp only [units_ofUnits, Utf16.decode?_encode, String.ofList_toList]
  exact Gives.pure t

/-- Items are read back one after the other. -/
theorem gives_times {step : Read α} {bytes : α → List UInt8} (items : List α) (acc : Array α)
    (each : ∀ a ∈ items, Gives step (bytes a) a) :
    Gives (times step items.length acc) (items.flatMap bytes) (acc ++ items.toArray) := by
  induction items generalizing acc with
  | nil =>
    rw [show acc ++ ([] : List α).toArray = acc from Array.append_empty]
    exact Gives.pure acc
  | cons a items ih =>
    have later := ih (acc.push a) (fun b member => each b (List.mem_cons_of_mem _ member))
    have grown : acc.push a ++ items.toArray = acc ++ (a :: items).toArray := by
      apply Array.toList_inj.mp
      simp
    rw [grown] at later
    rw [List.flatMap_cons]
    exact (each a List.mem_cons_self).bind later

/-- An array is read back if its length can be written. -/
theorem gives_array {step : Read α} {bytes : α → List UInt8} {items : List α}
    (small : items.length ≤ 65535) (each : ∀ a ∈ items, Gives step (bytes a) a) :
    Gives (array step) (Bytes.ofNat 2 items.length ++ items.flatMap bytes) items := by
  apply (gives_length small).bind
  have read := (gives_times items #[] each).map Array.toList
  rwa [Array.empty_append, List.toList_toArray] at read

theorem gives_optional {step : Read α} {bs : List UInt8} {a : α} (present : Gives step bs a) :
    Gives (optional step) (1 :: bs) (some a) := by
  apply (gives_flag true).bind
  exact present.map some

end Read

/-- A built-in value is read back if its type is the one that is asked for. -/
theorem Scalar.gives_read {x : Scalar} {p : Primitive} (typed : x.type = p) {s : Schema}
    {type : String} (fit : ∀ n ∈ s.valueLengths type (.scalar x), n ≤ 65535) :
    Read.Gives (Scalar.read p) x.wire x := by
  subst typed
  cases x with
  | bool b => exact (Read.gives_flag b).map Scalar.bool
  | byte n => exact (Read.gives_uint8 n).map Scalar.byte
  | sbyte n => exact (Read.gives_uint8 n.toUInt8).map fun n => Scalar.sbyte n.toInt8
  | short n => exact (Read.gives_uint16 n.toUInt16).map fun n => Scalar.short n.toInt16
  | ushort n => exact (Read.gives_uint16 n).map Scalar.ushort
  | int n => exact (Read.gives_uint32 n.toUInt32).map fun n => Scalar.int n.toInt32
  | uint n => exact (Read.gives_uint32 n).map Scalar.uint
  | long n => exact (Read.gives_uint64 n.toUInt64).map fun n => Scalar.long n.toInt64
  | ulong n => exact (Read.gives_uint64 n).map Scalar.ulong
  | float bits => exact (Read.gives_uint32 bits).map Scalar.float
  | double bits => exact (Read.gives_uint64 bits).map Scalar.double
  | string t => exact (Read.gives_text (fit _ (List.mem_singleton.mpr rfl))).map Scalar.string
  | char unit => exact (Read.gives_uint16 unit).map Scalar.char

mutual

/-- What a field holds after a record of `new` was read into it. A message is filled where it stands,
anything else is replaced, and no record leaves the old value. -/
def Value.onto : Value → Value → Value
  | .absent, old => old
  | .message new, .message old => .message (Value.ontoAll new old)
  | new, _ => new

def Value.ontoAll : List Value → List Value → List Value
  | v :: vs, w :: ws => v.onto w :: Value.ontoAll vs ws
  | _, _ => []

end

namespace Schema

/-- Frames of up to `limit` bytes are taken in as the messages that they were written from. -/
def Fills (s : Schema) (fill : Fill) (limit : Nat) : Prop :=
  ∀ (name : String) (new old : List Value),
    s.admitsAll (s.fieldsOf name) new → s.admitsAll (s.fieldsOf name) old →
    (∀ n ∈ s.lengths (s.fieldsOf name) new, n ≤ 65535) →
    (s.records (s.fieldsOf name) new).flatten.length ≤ limit →
    fill name old (s.records (s.fieldsOf name) new).flatten = (.ok (), Value.ontoAll new old)

/-- The defaults are messages of their types, and reading into one gives what was written. -/
def Grounded (s : Schema) : Prop :=
  ∀ name : String,
    s.admitsAll (s.fieldsOf name) (s.defaultMessage name) ∧
    ∀ new, s.admitsAll (s.fieldsOf name) new → Value.ontoAll new (s.defaultMessage name) = new

theorem eachBytes_eq_flatMap (s : Schema) (type : String) (items : List Value) :
    s.eachBytes type items = items.flatMap (s.valueBytes type) := by
  induction items with
  | nil => rfl
  | cons v vs ih => rw [eachBytes, ih, List.flatMap_cons]

theorem length_valueBytes_le (s : Schema) (type : String) {v : Value} {items : List Value}
    (member : v ∈ items) :
    (s.valueBytes type v).length ≤ (items.flatMap (s.valueBytes type)).length := by
  obtain ⟨before, after, rfl⟩ := List.append_of_mem member
  simp only [List.flatMap_append, List.flatMap_cons, List.length_append]
  omega

theorem mem_eachLengths {s : Schema} {type : String} {v : Value} {items : List Value} {n : Nat}
    (member : v ∈ items) (inside : n ∈ s.valueLengths type v) : n ∈ s.eachLengths type items := by
  induction items with
  | nil => cases member
  | cons w ws ih =>
    rw [eachLengths, List.mem_append]
    cases member with
    | head => exact Or.inl inside
    | tail _ later => exact Or.inr (ih later)

/-- The value of an enum is read back if some entry has it. -/
theorem gives_readEnum {s : Schema} {name : String} {n : Int32}
    (known : (s.entriesOf name).any fun e => e.value == n) :
    Read.Gives (s.readEnum name) (enumBytes n) n := by
  apply (Read.gives_uint32 n.toUInt32).then
  simp only [Int32.toInt32_toUInt32, known, if_true]
  exact Read.Gives.pure n

section

variable {s : Schema} {fill : Fill} {limit : Nat}

/-- A nested message is read back where its frame is filled. -/
theorem gives_readMessage (fills : s.Fills fill limit) (grounded : s.Grounded) {name : String}
    {values : List Value} (admitted : s.admitsAll (s.fieldsOf name) values)
    (fit : ∀ n ∈ s.valueLengths name (.message values), n ≤ 65535)
    (room : (s.valueBytes name (.message values)).length ≤ limit) :
    Read.Gives (s.readMessage fill name) (s.valueBytes name (.message values)) values := by
  rw [valueBytes, List.length_append] at room
  rw [valueLengths, ← length_records s _ _ admitted] at fit
  have small := fit _ List.mem_cons_self
  have taken := fills name values (s.defaultMessage name) admitted (grounded name).1
    (fun n member => fit n (List.mem_cons_of_mem _ member)) (by omega)
  rw [(grounded name).2 values admitted] at taken
  rw [valueBytes]
  apply (Read.gives_frame small).then
  simp only [taken]
  exact Read.Gives.pure values

/-- An element is read back, whatever its type. -/
theorem gives_readElement (fills : s.Fills fill limit) (grounded : s.Grounded) {f : Field}
    {v : Value} (admitted : s.admits f.element v)
    (fit : ∀ n ∈ s.valueLengths f.typeName v, n ≤ 65535)
    (room : (s.valueBytes f.typeName v).length ≤ limit) :
    Read.Gives (s.readElement fill f) (s.valueBytes f.typeName v) v := by
  cases v with
  | absent => cases admitted
  | array items => exact absurd admitted not_admits_element_array
  | scalar x =>
    have typed : f.type = .primitive x.type := (admits_scalar.mp admitted).2
    rw [readElement, typed]
    exact (Scalar.gives_read rfl fit).map Value.scalar
  | enum n =>
    obtain ⟨-, typed, known⟩ := admits_enum.mp admitted
    rw [Field.type_element] at typed
    rw [readElement, typed]
    exact (gives_readEnum known).map Value.enum
  | message values =>
    obtain ⟨-, typed, inner⟩ := admits_message.mp admitted
    rw [Field.type_element] at typed
    rw [readElement, typed]
    exact (gives_readMessage fills grounded inner fit room).map Value.message

/-- So is a value that is present, an array among them. -/
theorem gives_readPresent (fills : s.Fills fill limit) (grounded : s.Grounded) {f : Field}
    {v : Value} (admitted : s.admits f v) (present : v.isAbsent = false)
    (fit : ∀ n ∈ s.valueLengths f.typeName v, n ≤ 65535)
    (room : (s.valueBytes f.typeName v).length ≤ limit) :
    Read.Gives (s.readPresent fill f) (s.valueBytes f.typeName v) v := by
  rw [readPresent]
  by_cases array : f.isArray
  · obtain ⟨items, rfl⟩ := exists_array admitted present array
    have each := (admits_array.mp admitted).2
    rw [if_pos array, valueBytes, eachBytes_eq_flatMap]
    rw [valueBytes, eachBytes_eq_flatMap, List.length_append] at room
    rw [valueLengths] at fit
    refine (Read.gives_array (fit _ List.mem_cons_self) ?_).map Value.array
    intro w member
    apply gives_readElement fills grounded (admits_of_mem each member)
    · intro n inside
      exact fit n (List.mem_cons_of_mem _ (mem_eachLengths member inside))
    · have shorter := length_valueBytes_le s f.typeName member
      omega
  · rw [if_neg array]
    exact gives_readElement fills grounded (admits_element admitted present (by simpa using array)) fit room

/-- The value of a record is read back, behind the byte that says it is there. -/
theorem gives_readPayload (fills : s.Fills fill limit) (grounded : s.Grounded) {f : Field}
    {v : Value} (admitted : s.admits f v) (present : v.isAbsent = false)
    (fit : ∀ n ∈ s.valueLengths f.typeName v, n ≤ 65535)
    (room : (s.valueBytes f.typeName v).length ≤ limit) :
    Read.Gives (s.readPayload fill f) (f.mark ++ s.valueBytes f.typeName v) v := by
  have read := gives_readPresent fills grounded admitted present fit room
  rw [readPayload, Field.mark]
  by_cases optional : f.isOptional
  · rw [if_pos optional, if_pos optional]
    exact (Read.gives_optional read).then (Read.Gives.pure v)
  · rw [if_neg optional, if_neg optional]
    exact read

/-- The frame of a message is taken in by whatever message it is read into. -/
theorem frameInto_eq (fills : s.Fills fill limit) {name : String} {new old : List Value}
    (admitted : s.admitsAll (s.fieldsOf name) new)
    (admittedOld : s.admitsAll (s.fieldsOf name) old)
    (fit : ∀ n ∈ s.valueLengths name (.message new), n ≤ 65535)
    (room : (s.valueBytes name (.message new)).length ≤ limit) (rest : List UInt8) (index : Nat) :
    Read.frameInto (fill name) old ⟨s.valueBytes name (.message new) ++ rest, index⟩ =
      (.ok (), Value.ontoAll new old,
        ⟨rest, index + (s.valueBytes name (.message new)).length⟩) := by
  rw [valueBytes] at room ⊢
  rw [List.length_append] at room
  rw [valueLengths, ← length_records s _ _ admitted] at fit
  have taken := fills name new old admitted admittedOld
    (fun n member => fit n (List.mem_cons_of_mem _ member)) (by omega)
  rw [Read.frameInto, Read.gives_frame (fit _ List.mem_cons_self)]
  simp only [taken]

/-- An optional message is filled where it stands, or built on the default. -/
theorem optionalFrameInto_eq (fills : s.Fills fill limit) (grounded : s.Grounded)
    {name : String} {new : List Value} {old : Option (List Value)}
    (admitted : s.admitsAll (s.fieldsOf name) new)
    (admittedOld : ∀ values, old = some values → s.admitsAll (s.fieldsOf name) values)
    (fit : ∀ n ∈ s.valueLengths name (.message new), n ≤ 65535)
    (room : (s.valueBytes name (.message new)).length ≤ limit) (rest : List UInt8) (index : Nat) :
    Read.optionalFrameInto (fill name) (s.defaultMessage name) old
        ⟨[1] ++ s.valueBytes name (.message new) ++ rest, index⟩ =
      (.ok (), some (Value.ontoAll new (old.getD (s.defaultMessage name))),
        ⟨rest, index + ([1] ++ s.valueBytes name (.message new)).length⟩) := by
  have flag := Read.gives_flag true (s.valueBytes name (.message new) ++ rest) index
  simp only [if_true] at flag
  rw [Read.optionalFrameInto, List.append_assoc, flag]
  cases old with
  | none =>
    simp only [frameInto_eq fills admitted (grounded name).1 fit room, Option.getD_none,
      List.length_append, Nat.add_assoc]
  | some values =>
    simp only [frameInto_eq fills admitted (admittedOld values rfl) fit room, Option.getD_some,
      List.length_append, Nat.add_assoc]

/-- A record fills its field: a message where it stands, anything else anew. -/
theorem populate_eq (fills : s.Fills fill limit) (grounded : s.Grounded) {f : Field}
    {v old : Value} (admitted : s.admits f v) (present : v.isAbsent = false)
    (admittedOld : s.admits f old) (fit : ∀ n ∈ s.valueLengths f.typeName v, n ≤ 65535)
    (room : (s.valueBytes f.typeName v).length ≤ limit) (rest : List UInt8) (index : Nat) :
    s.populate fill f old ⟨f.mark ++ s.valueBytes f.typeName v ++ rest, index⟩ =
      (.ok (), v.onto old, ⟨rest, index + (f.mark ++ s.valueBytes f.typeName v).length⟩) := by
  rw [populate]
  by_cases held : f.isInline
  · obtain ⟨new, rfl, inner⟩ := exists_message admitted present held
    rw [if_pos held, Field.mark]
    by_cases optional : f.isOptional
    · have innerOld : ∀ values, old.values? = some values →
          s.admitsAll (s.fieldsOf f.typeName) values := by
        intro values same
        cases old with
        | message values' =>
          cases same
          exact (admits_message.mp admittedOld).2.2
        | _ => cases same
      rw [if_pos optional, if_pos optional]
      simp only [optionalFrameInto_eq fills grounded inner innerOld fit room, Value.ofValues?]
      cases old with
      | message values => rfl
      | _ => simp only [Value.values?, Option.getD_none, (grounded f.typeName).2 new inner, Value.onto]
    · rw [if_neg optional, if_neg optional]
      obtain ⟨values, rfl, innerOld⟩ := exists_message admittedOld (by
        cases old with
        | absent => exact absurd admittedOld optional
        | _ => rfl) held
      simp only [Value.values?, Option.getD_some, List.nil_append]
      rw [frameInto_eq fills inner innerOld fit room]
      rfl
  · have read := gives_readPayload fills grounded admitted present fit room rest index
    rw [if_neg held, read]
    cases v with
    | message values =>
      obtain ⟨single, typed, -⟩ := admits_message.mp admitted
      exact absurd (by simp [Field.isInline, single, typed]) held
    | absent => cases present
    | _ => rfl

end

end Schema

end WireSchema
