import WireSchema.Proofs.Writing

/-!
What writing can do to a buffer, whoever writes. A message may claim any size and write in any way:
its operations may fail and others follow, and what comes next may depend on how they ended.
Whatever it does, a writer moves on inside its range, and no byte changes but those that it moves
past. A message that is written into a buffer therefore leaves the rest of the buffer as it was.
-/

namespace WireSchema

open Text

mutual

/-- A write operation, where a nested message goes about writing in its own way. -/
inductive WriteCall where
  /-- A number of fixed width, or raw bytes. -/
  | bytes (bs : List UInt8)
  | length (n : Nat)
  | text (s : String)
  /-- A message that claims `size` bytes. -/
  | message (size : Nat) (body : WriteRoutine)

/-- How a message goes about writing: one operation after another, each chosen by how the last one
ended and by how much has been written, and a result of its own at the end. -/
inductive WriteRoutine where
  | done (result : Except EncodeError Unit)
  | call (first : WriteCall) (next : Except EncodeError Unit → Nat → WriteRoutine)

end

mutual

def WriteCall.run : WriteCall → Writer → Except EncodeError Unit × Writer
  | .bytes bs, w => w.put bs
  | .length n, w => w.putLength n
  | .text s, w => w.putText s
  | .message size body, w =>
    match w.putLength size with
    | (.ok (), w) => w.putFrame size body.run
    | (.error e, w) => (.error e, w)

def WriteRoutine.run : WriteRoutine → Writer → Except EncodeError Unit × Writer
  | .done result, w => (result, w)
  | .call first next, w => (next (first.run w).1 (first.run w).2.index).run (first.run w).2

end

def WriteCall.runEach (calls : List WriteCall) (w : Writer) : Writer :=
  calls.foldl (fun w call => (call.run w).2) w

mutual

/-- The operation as a call: its nested messages stop at the first operation that fails. -/
def WriteOp.call : WriteOp → WriteCall
  | .bytes bs => .bytes bs
  | .length n => .length n
  | .text s => .text s
  | .message size body => .message size (WriteOp.routine body)

def WriteOp.routine : List WriteOp → WriteRoutine
  | [] => .done (.ok ())
  | op :: ops => .call op.call fun outcome _ =>
    match outcome with
    | .ok () => WriteOp.routine ops
    | .error e => .done (.error e)

end

mutual

/-- A write operation is the call that it stands for. -/
theorem WriteOp.run_call : ∀ (op : WriteOp) (w : Writer), op.call.run w = op.run w
  | .bytes _, _ => rfl
  | .length _, _ => rfl
  | .text _, _ => rfl
  | .message size body, w => by
    have same : (WriteOp.routine body).run = WriteOp.runAll body :=
      funext (WriteOp.run_routine body)
    rcases put : w.putLength size with ⟨e | u, w'⟩ <;>
      simp only [WriteOp.call, WriteCall.run, WriteOp.run, same, put]

/-- A list of write operations is the routine that it stands for. -/
theorem WriteOp.run_routine : ∀ (ops : List WriteOp) (w : Writer),
    (WriteOp.routine ops).run w = WriteOp.runAll ops w
  | [], _ => rfl
  | op :: ops, w => by
    rw [WriteOp.routine, WriteRoutine.run, WriteOp.run_call op w, WriteOp.runAll]
    rcases op.run w with ⟨e | u, w'⟩
    · rfl
    · exact WriteOp.run_routine ops w'

end

namespace Writer

/-- What writing may do to a writer. -/
structure Confined (w w' : Writer) : Prop where
  start : w'.start = w.start
  capacity : w'.capacity = w.capacity
  size : w'.bytes.size = w.bytes.size
  forward : w.index ≤ w'.index
  inside : w'.index ≤ w'.capacity
  outside : ∀ k, k < w.start + w.index ∨ w.start + w'.index ≤ k → w'.bytes[k]? = w.bytes[k]?

variable {w v u : Writer}

theorem Confined.refl (inside : w.index ≤ w.capacity) : Confined w w :=
  ⟨rfl, rfl, rfl, Nat.le_refl _, inside, fun _ _ => rfl⟩

/-- Confined writes one after the other are confined. -/
theorem Confined.trans (first : Confined w v) (later : Confined v u) : Confined w u where
  start := later.start.trans first.start
  capacity := later.capacity.trans first.capacity
  size := later.size.trans first.size
  forward := Nat.le_trans first.forward later.forward
  inside := later.inside
  outside := by
    intro k apart
    have ahead := first.forward
    have further := later.forward
    rw [later.outside k (by rw [first.start]; omega), first.outside k (by omega)]

/-- Going on unless the first part failed. -/
theorem Confined.andThen {reply : Except EncodeError Unit × Writer}
    {next : Writer → Except EncodeError Unit × Writer} (first : Confined w reply.2)
    (later : ∀ v : Writer, v.index ≤ v.capacity → Confined v (next v).2) :
    Confined w (Writer.andThen reply next).2 := by
  obtain ⟨e | _, v⟩ := reply
  · exact first
  · exact first.trans (later v first.inside)

theorem size_store (buffer : Array UInt8) (position : Nat) (bs : List UInt8) :
    (store buffer position bs).size = buffer.size := by
  induction bs generalizing buffer position with
  | nil => rfl
  | cons b bs ih => rw [store, ih, Array.size_setIfInBounds]

/-- Storing changes nothing outside the bytes that are stored. -/
theorem getElem?_store (buffer : Array UInt8) (position : Nat) (bs : List UInt8) {k : Nat}
    (apart : k < position ∨ position + bs.length ≤ k) :
    (store buffer position bs)[k]? = buffer[k]? := by
  induction bs generalizing buffer position with
  | nil => rfl
  | cons b bs ih =>
    rw [List.length_cons] at apart
    rw [store, ih _ _ (by omega), Array.getElem?_setIfInBounds_ne (by omega)]

/-- Writing all of some bytes or none of them. -/
theorem put_cases (w : Writer) (bs : List UInt8) :
    (w.index + bs.length ≤ w.capacity ∧
      w.put bs = (.ok (), ⟨store w.bytes (w.start + w.index) bs, w.start, w.capacity,
        w.index + bs.length⟩)) ∨
    ∃ e, w.put bs = (.error e, w) := by
  rw [put]
  by_cases room : w.index + bs.length ≤ w.capacity
  · exact Or.inl ⟨room, if_pos room⟩
  · exact Or.inr ⟨_, if_neg room⟩

/-- Bytes are stored within the window of the writer, or not at all. -/
theorem confined_put (inside : w.index ≤ w.capacity) (bs : List UInt8) :
    Confined w (w.put bs).2 := by
  obtain ⟨room, wrote⟩ | ⟨e, failed⟩ := w.put_cases bs
  · rw [wrote]
    refine ⟨rfl, rfl, size_store _ _ _, Nat.le_add_right _ _, room, fun k apart => ?_⟩
    exact getElem?_store _ _ _ (by dsimp only at apart; omega)
  · rw [failed]
    exact Confined.refl inside

/-- A length is written as its two bytes, or nothing is. -/
theorem putLength_cases (w : Writer) (n : Nat) :
    (n < 65536 ∧ w.putLength n = w.put (Bytes.ofNat 2 n)) ∨ ∃ e, w.putLength n = (.error e, w) := by
  rw [putLength]
  split
  next small => exact Or.inl ⟨small, rfl⟩
  next => exact Or.inr ⟨_, rfl⟩

theorem confined_putLength (inside : w.index ≤ w.capacity) (n : Nat) :
    Confined w (w.putLength n).2 := by
  obtain ⟨-, wrote⟩ | ⟨e, failed⟩ := w.putLength_cases n
  · rw [wrote]
    exact confined_put inside _
  · rw [failed]
    exact Confined.refl inside

/-- A text that runs out of room leaves the units before, and these are inside the window. -/
theorem confined_putUnits (inside : w.index ≤ w.capacity) (units : List UInt16) :
    Confined w (w.putUnits units).2 := by
  induction units generalizing w with
  | nil => exact Confined.refl inside
  | cons unit units ih =>
    exact (confined_put inside (Bytes.ofNat 2 unit.toNat)).andThen fun _ within => ih within

theorem confined_putText (inside : w.index ≤ w.capacity) (s : String) :
    Confined w (w.putText s).2 :=
  (confined_putLength inside (Utf16.length s)).andThen fun _ within => confined_putUnits within _

/-- The writer that a nested message gets: the next `size` bytes of the range. -/
def nested (w : Writer) (size : Nat) : Writer := ⟨w.bytes, w.start + w.index, size, 0⟩

/-- What is confined to the nested range is confined to the bytes that the outer writer moves past.
-/
theorem confined_putFrame (inside : w.index ≤ w.capacity) {size : Nat}
    {body : Writer → Except EncodeError Unit × Writer}
    (held : Confined (w.nested size) (body (w.nested size)).2) :
    Confined w (w.putFrame size body).2 := by
  by_cases room : w.index + size ≤ w.capacity
  · have outer :
        Confined w ⟨(body (w.nested size)).2.bytes, w.start, w.capacity, w.index + size⟩ := by
      refine ⟨rfl, rfl, held.size, Nat.le_add_right _ _, room, fun k apart => held.outside k ?_⟩
      have reach := held.inside
      rw [held.capacity] at reach
      dsimp only [nested] at apart reach ⊢
      omega
    rw [nested] at outer
    rw [putFrame, if_pos room]
    generalize body ⟨w.bytes, w.start + w.index, size, 0⟩ = reply at outer ⊢
    rcases reply with ⟨e | _, v⟩ <;> exact outer
  · rw [putFrame, if_neg room]
    exact Confined.refl inside

end Writer

mutual

/-- No call leaves the window, whatever it writes and however it ends. -/
theorem WriteCall.confined : ∀ (call : WriteCall) {w : Writer}, w.index ≤ w.capacity →
    w.Confined (call.run w).2
  | .bytes bs, _, inside => Writer.confined_put inside bs
  | .length n, _, inside => Writer.confined_putLength inside n
  | .text s, _, inside => Writer.confined_putText inside s
  | .message size body, _, inside =>
    (Writer.confined_putLength inside size).andThen fun _ within =>
      Writer.confined_putFrame within (WriteRoutine.confined body (Nat.zero_le size))

/-- Whatever a message does when it writes, it does to the bytes that the writer moves past. -/
theorem WriteRoutine.confined : ∀ (routine : WriteRoutine) {w : Writer}, w.index ≤ w.capacity →
    w.Confined (routine.run w).2
  | .done _, _, inside => Writer.Confined.refl inside
  | .call first next, w, inside => by
    have step := WriteCall.confined first inside
    exact step.trans
      (WriteRoutine.confined (next (first.run w).1 (first.run w).2.index) step.inside)

end

/-- Neither do calls one after the other, failed ones among them. -/
theorem WriteCall.confined_runEach (calls : List WriteCall) {w : Writer}
    (inside : w.index ≤ w.capacity) : w.Confined (WriteCall.runEach calls w) := by
  induction calls generalizing w with
  | nil => exact Writer.Confined.refl inside
  | cons call calls ih =>
    have first := call.confined inside
    exact first.trans (ih first.inside)

/-- Bytes in memory, a buffer or what is written into it, are fewer than this. -/
def memoryLimit : Nat := 0x8000000000000000

mutual

/-- The raw bytes that are written, at any depth, are in memory. -/
def WriteCall.Held : WriteCall → Prop
  | .bytes bs => bs.length < memoryLimit
  | .message _ body => body.Held
  | _ => True

def WriteRoutine.Held : WriteRoutine → Prop
  | .done _ => True
  | .call first next => first.Held ∧ ∀ outcome index, (next outcome index).Held

end

theorem WriteCall.held_bytes {bs : List UInt8} :
    (WriteCall.bytes bs).Held ↔ bs.length < memoryLimit := Iff.rfl

namespace Writer

/-- The sums that writing a length forms: where its two bytes would end. -/
def lengthSums (n : Nat) (w : Writer) : List Nat := if n < 65536 then [w.index + 2] else []

/-- The sums that writing units forms, up to the unit that does not fit. -/
def unitSums : List UInt16 → Writer → List Nat
  | [], _ => []
  | u :: us, w =>
    (w.index + 2) ::
      match w.put (Bytes.ofNat 2 u.toNat) with
      | (.ok (), w) => unitSums us w
      | (.error _, _) => []

end Writer

mutual

/-- The sums that an operation forms on its way, its nested messages included: for each range of
bytes that is asked for, where that range would end. -/
def WriteCall.sums : WriteCall → Writer → List Nat
  | .bytes bs, w => [w.index + bs.length]
  | .length n, w => w.lengthSums n
  | .text s, w =>
    w.lengthSums (Utf16.length s) ++
      match w.putLength (Utf16.length s) with
      | (.ok (), w) => w.unitSums (Utf16.encode s.toList)
      | (.error _, _) => []
  | .message size body, w =>
    w.lengthSums size ++
      match w.putLength size with
      | (.ok (), w) =>
        (w.index + size) :: if w.index + size ≤ w.capacity then body.sums (w.nested size) else []
      | (.error _, _) => []

def WriteRoutine.sums : WriteRoutine → Writer → List Nat
  | .done _, _ => []
  | .call first next, w =>
    first.sums w ++ (next (first.run w).1 (first.run w).2.index).sums (first.run w).2

end

/-- An index inside its range and a length of bytes in memory add up within 64 bits. -/
theorem add_lt_size {index capacity length : Nat} (inside : index ≤ capacity)
    (small : capacity < memoryLimit) (held : length < memoryLimit) :
    index + length < UInt64.size := by
  simp only [memoryLimit, UInt64.size] at *
  omega

namespace Writer

variable {w : Writer}

/-- The sums for a length stay below the limit of the machine. -/
theorem lengthSums_lt (inside : w.index ≤ w.capacity) (small : w.capacity < memoryLimit) (n : Nat) :
    ∀ k ∈ w.lengthSums n, k < UInt64.size := by
  intro k member
  rw [lengthSums] at member
  split at member
  · rw [List.mem_singleton.mp member]
    exact add_lt_size inside small (by decide)
  · cases member

/-- So do those for each unit of a text. -/
theorem unitSums_lt (inside : w.index ≤ w.capacity) (small : w.capacity < memoryLimit)
    (units : List UInt16) : ∀ k ∈ w.unitSums units, k < UInt64.size := by
  induction units generalizing w with
  | nil => simp [unitSums]
  | cons unit units ih =>
    have step := confined_put inside (Bytes.ofNat 2 unit.toNat)
    rw [unitSums, List.forall_mem_cons]
    refine ⟨add_lt_size inside small (by decide), ?_⟩
    rcases reply : w.put (Bytes.ofNat 2 unit.toNat) with ⟨e | _, v⟩
    · simp
    · rw [reply] at step
      exact ih step.inside (step.capacity ▸ small)

end Writer

mutual

/-- No sum that a call forms overflows, as long as what it writes fits into memory. -/
theorem WriteCall.sums_lt : ∀ (call : WriteCall) {w : Writer}, w.index ≤ w.capacity →
    w.capacity < memoryLimit → call.Held → ∀ k ∈ call.sums w, k < UInt64.size
  | .bytes bs, w, inside, small, held => by
    intro k member
    rw [List.mem_singleton.mp member]
    exact add_lt_size inside small (WriteCall.held_bytes.mp held)
  | .length n, _, inside, small, _ => Writer.lengthSums_lt inside small n
  | .text s, w, inside, small, _ => by
    have step := Writer.confined_putLength inside (Utf16.length s)
    rw [WriteCall.sums, List.forall_mem_append]
    refine ⟨Writer.lengthSums_lt inside small _, ?_⟩
    rcases reply : w.putLength (Utf16.length s) with ⟨e | _, v⟩
    · simp
    · rw [reply] at step
      exact Writer.unitSums_lt step.inside (step.capacity ▸ small) _
  | .message size body, w, inside, small, held => by
    have step := Writer.confined_putLength inside size
    rw [WriteCall.sums, List.forall_mem_append]
    refine ⟨Writer.lengthSums_lt inside small _, ?_⟩
    obtain ⟨short, -⟩ | ⟨e, failed⟩ := w.putLength_cases size
    · rcases reply : w.putLength size with ⟨e | _, v⟩
      · simp
      · rw [reply] at step
        -- The size has passed the check of the length in front, so the nested range is short.
        have few : size < memoryLimit := Nat.lt_trans short (by decide)
        refine List.forall_mem_cons.mpr
          ⟨add_lt_size step.inside (step.capacity ▸ small) few, ?_⟩
        split
        · exact WriteRoutine.sums_lt body (Nat.zero_le size) few held
        · simp
    · simp [failed]

/-- No sum wraps that is formed when a message writes. -/
theorem WriteRoutine.sums_lt : ∀ (routine : WriteRoutine) {w : Writer}, w.index ≤ w.capacity →
    w.capacity < memoryLimit → routine.Held → ∀ k ∈ routine.sums w, k < UInt64.size
  | .done _, _, _, _, _ => by simp [WriteRoutine.sums]
  | .call first next, w, inside, small, held => by
    have step := first.confined inside
    rw [WriteRoutine.sums, List.forall_mem_append]
    exact ⟨WriteCall.sums_lt first inside small held.1,
      WriteRoutine.sums_lt (next (first.run w).1 (first.run w).2.index) step.inside
        (step.capacity ▸ small) (held.2 _ _)⟩

end

/-- Bytes of fixed width, raw bytes and lengths are written as a whole or not at all. -/
theorem WriteCall.eq_of_failed {call : WriteCall} {w w' : Writer} {e : EncodeError}
    (plain : (∃ bs, call = .bytes bs) ∨ ∃ n, call = .length n)
    (failed : call.run w = (.error e, w')) : w' = w := by
  obtain ⟨bs, rfl⟩ | ⟨n, rfl⟩ := plain
  · obtain ⟨-, wrote⟩ | ⟨_, kept⟩ := w.put_cases bs
    · cases wrote.symm.trans failed
    · cases kept.symm.trans failed
      rfl
  · obtain ⟨-, wrote⟩ | ⟨_, kept⟩ := w.putLength_cases n
    · obtain ⟨-, put⟩ | ⟨_, kept⟩ := w.put_cases (Bytes.ofNat 2 n)
      · cases (wrote.trans put).symm.trans failed
      · cases (wrote.trans kept).symm.trans failed
        rfl
    · cases kept.symm.trans failed
      rfl

/-- A writer finishes exactly if it is full. -/
theorem Writer.finish_eq_ok_iff (w : Writer) (n : Nat) :
    w.finish = .ok n ↔ n = w.index ∧ n = w.capacity := by
  rw [finish]
  split
  next full => simp [full, eq_comm]
  next short =>
    simp only [reduceCtorEq, false_iff]
    rintro ⟨rfl, same⟩
    exact short same

/-- Every operation on a writer, after any others and whether or not it fails, leaves the capacity
as it is, moves the index on inside the range, forms no sum that wraps, and changes no byte of the
buffer but those that it moves past. -/
theorem WriteCall.run_confined {buffer : Array UInt8} {offset size : Nat} {w₀ w w' : Writer}
    (opened : Writer.new buffer offset size = .ok w₀) {before : List WriteCall}
    (reached : WriteCall.runEach before w₀ = w) {call : WriteCall}
    {outcome : Except EncodeError Unit} (ran : call.run w = (outcome, w')) :
    w.capacity = size ∧ w'.capacity = size ∧ w.index ≤ w'.index ∧ w'.index ≤ size ∧
      (buffer.size < memoryLimit → call.Held → ∀ n ∈ call.sums w, n < UInt64.size) ∧
      w'.bytes.size = buffer.size ∧
      (∀ k, k < offset + w.index ∨ offset + w'.index ≤ k → w'.bytes[k]? = w.bytes[k]?) ∧
      (∀ e, outcome = .error e → ((∃ bs, call = .bytes bs) ∨ ∃ n, call = .length n) → w' = w) ∧
      ∀ n, w'.finish = .ok n ↔ n = w'.index ∧ n = w'.capacity := by
  obtain ⟨room, rfl⟩ : offset + size ≤ buffer.size ∧ w₀ = ⟨buffer, offset, size, 0⟩ := by
    rw [Writer.new] at opened
    split at opened
    next room => exact ⟨room, (Except.ok.inj opened).symm⟩
    next => cases opened
  have sofar := WriteCall.confined_runEach before (w := ⟨buffer, offset, size, 0⟩)
    (Nat.zero_le size)
  rw [reached] at sofar
  have step := call.confined sofar.inside
  rw [ran] at step
  have capacity : w.capacity = size := sofar.capacity
  refine ⟨capacity, step.capacity.trans capacity, step.forward, ?_, ?_, step.size.trans sofar.size,
    ?_, ?_, w'.finish_eq_ok_iff⟩
  · exact Nat.le_trans step.inside (Nat.le_of_eq (step.capacity.trans capacity))
  · intro memory held
    exact call.sums_lt sofar.inside (by omega) held
  · intro k apart
    exact step.outside k (by rwa [sofar.start])
  · rintro e rfl plain
    exact WriteCall.eq_of_failed plain ran

/-- A message that claims four bytes, writes three, fails to write two more and reports no error. -/
def hasty : WriteCall :=
  .message 4 (.call (.bytes [7, 8, 9]) fun _ _ => .call (.bytes [5, 5]) fun _ _ => .done (.ok ()))

/-- The bytes in front of the second operation and behind it stay as they are. -/
theorem run_confined_hasty :
    ∃ w w', WriteCall.runEach [.bytes [1]] ⟨Array.replicate 12 170, 2, 8, 0⟩ = w ∧
      hasty.run w = (.error (.sizeMismatch 4 3), w') ∧ w.index = 1 ∧ w'.index = 7 ∧
      w'.bytes = #[170, 170, 1, 4, 0, 7, 8, 9, 170, 170, 170, 170] ∧
      (∀ n ∈ hasty.sums w, n < UInt64.size) ∧
      ∀ k, k < 2 + 1 ∨ 2 + 7 ≤ k → w'.bytes[k]? = w.bytes[k]? := by
  have held : hasty.Held := ⟨WriteCall.held_bytes.mpr (by decide), fun _ _ =>
    ⟨WriteCall.held_bytes.mpr (by decide), fun _ _ => trivial⟩⟩
  have opened : Writer.new (Array.replicate 12 170) 2 8 =
      .ok ⟨Array.replicate 12 170, 2, 8, 0⟩ := rfl
  have reached : WriteCall.runEach [.bytes [1]] ⟨Array.replicate 12 170, 2, 8, 0⟩ =
      ⟨#[170, 170, 1, 170, 170, 170, 170, 170, 170, 170, 170, 170], 2, 8, 1⟩ := rfl
  have ran : hasty.run ⟨#[170, 170, 1, 170, 170, 170, 170, 170, 170, 170, 170, 170], 2, 8, 1⟩ =
      (.error (.sizeMismatch 4 3),
        ⟨#[170, 170, 1, 4, 0, 7, 8, 9, 170, 170, 170, 170], 2, 8, 7⟩) := rfl
  obtain ⟨-, -, -, -, sums, -, outside, -⟩ := WriteCall.run_confined opened reached ran
  exact ⟨_, _, reached, ran, rfl, rfl, rfl, sums (by decide) held, outside⟩

namespace Schema

variable {s : Schema} {fields : List Field} {values : List Value}

/-- No byte outside the range of a message changes, however writing it ends. -/
theorem serializeInto_outside (s : Schema) (fields : List Field) (values : List Value)
    (buffer : Array UInt8) (offset : Nat) :
    (s.serializeInto fields values buffer offset).2.size = buffer.size ∧
      ∀ k, k < offset ∨ offset + s.totalSize fields values ≤ k →
        (s.serializeInto fields values buffer offset).2[k]? = buffer[k]? := by
  rw [serializeInto, Writer.new]
  by_cases room : offset + s.totalSize fields values ≤ buffer.size
  · have held := (WriteOp.routine (s.recordOps fields values)).confined
      (w := ⟨buffer, offset, s.totalSize fields values, 0⟩) (Nat.zero_le _)
    rw [WriteOp.run_routine] at held
    rw [if_pos room]
    dsimp only
    generalize WriteOp.runAll (s.recordOps fields values)
      ⟨buffer, offset, s.totalSize fields values, 0⟩ = reply at held ⊢
    have reach : reply.2.index ≤ s.totalSize fields values :=
      Nat.le_trans held.inside (Nat.le_of_eq held.capacity)
    have outside : ∀ k, k < offset ∨ offset + s.totalSize fields values ≤ k →
        reply.2.bytes[k]? = buffer[k]? :=
      fun k apart => held.outside k (by dsimp only; omega)
    obtain ⟨e | _, w⟩ := reply <;> exact ⟨held.size, outside⟩
  · rw [if_neg room]
    exact ⟨rfl, fun _ _ => rfl⟩

/-- Writing into a buffer stores at the offset what writing alone gives, and fails where that fails;
in no case does a byte outside the range of the message change. Where the range does not end inside
the buffer, or at no 64-bit number at all, nothing is written. -/
theorem serializeInto_agrees (admitted : s.admitsAll fields values) (buffer : Array UInt8)
    (memory : buffer.size < UInt64.size) (offset : Nat) :
    (buffer.size < offset + s.totalSize fields values ∨
        UInt64.size ≤ offset + s.totalSize fields values →
      s.serializeInto fields values buffer offset =
        (.error (.bufferTooSmall offset (s.totalSize fields values) buffer.size), buffer)) ∧
    (offset + s.totalSize fields values ≤ buffer.size →
      ((s.serializeInto fields values buffer offset).1 = .ok (s.totalSize fields values) ↔
        ∃ b, s.serialize fields values = .ok b) ∧
      (∀ b, s.serialize fields values = .ok b →
        (s.serializeInto fields values buffer offset).2.toList =
          buffer.toList.take offset ++ b.toList ++ buffer.toList.drop (offset + b.size)) ∧
      ∀ e, s.serialize fields values = .error e →
        (s.serializeInto fields values buffer offset).1 = .error e ∧
        (s.serializeInto fields values buffer offset).2.size = buffer.size ∧
        ∀ k, k < offset ∨ offset + s.totalSize fields values ≤ k →
          (s.serializeInto fields values buffer offset).2[k]? = buffer[k]?) := by
  refine ⟨fun small => ?_, fun room => ?_⟩
  · rw [serializeInto, Writer.new, if_neg (by omega)]
  · have size := length_records s fields values admitted
    have alone := serialize_eq admitted
    have placed := serializeInto_of_room admitted buffer offset room
    cases found : (s.lengths fields values).find? overflows with
    | none =>
      simp only [found] at alone placed
      rw [alone, placed]
      refine ⟨⟨fun _ => ⟨_, rfl⟩, fun _ => rfl⟩, ?_, by simp⟩
      rintro b ⟨⟩
      rw [Writer.toList_store buffer offset _ (by omega), List.size_toArray]
    | some n =>
      simp only [found] at alone placed
      rw [alone, placed]
      refine ⟨by simp, by simp, ?_⟩
      rintro e ⟨⟩
      exact ⟨rfl, serializeInto_outside s fields values buffer offset⟩

/-- The same message in front of the end of a buffer, and where it would pass that end. -/
theorem serializeInto_oak :
    forest.admitsAll treeFields oak ∧
      forest.serializeInto treeFields oak (Array.replicate 62 170) 4 =
        (.error (.bufferTooSmall 4 59 62), Array.replicate 62 170) ∧
      ∃ b, forest.serialize treeFields oak = .ok b ∧
        (forest.serializeInto treeFields oak (Array.replicate 62 170) 2).1 = .ok 59 ∧
        (forest.serializeInto treeFields oak (Array.replicate 62 170) 2).2.toList =
          [170, 170] ++ b.toList ++ [170] := by
  have admitted : forest.admitsAll treeFields oak := by decide
  have law := serializeInto_agrees admitted (Array.replicate 62 170) (by decide)
  have written : forest.serialize treeFields oak =
      .ok (forest.records treeFields oak).flatten.toArray :=
    (serialize_eq_ok_iff admitted).mpr ⟨rfl, by decide⟩
  obtain ⟨accepted, stored, -⟩ := (law 2).2 (by decide)
  exact ⟨admitted, (law 4).1 (by decide), _, written, accepted.mpr ⟨_, written⟩, stored _ written⟩

end Schema

end WireSchema
