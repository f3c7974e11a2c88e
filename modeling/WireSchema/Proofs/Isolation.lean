import WireSchema.Proofs.Format

/-!
What reading can do to a reader, whoever reads. A message may take in its frame in any way: it may
stop early, go on after a failure, and choose what comes next by what it has read. Whatever it does,
it sees the bytes of its frame and no others, and the outer reader goes on behind the frame. No
reader ever goes back or leaves its data.
-/

namespace WireSchema

open Text

/-- What can be done with a reader: one operation after another, each chosen by what came before,
and a result at the end. An error of an operation is an answer like any other. -/
inductive ReadRoutine : Type → Type 1 where
  | done {α : Type} (result : α) : ReadRoutine α
  /-- Looks at what is left and at the index. -/
  | look {α : Type} (next : Reader → ReadRoutine α) : ReadRoutine α
  | bytes {α : Type} (n : Nat) (next : Except DecodeError (List UInt8) → ReadRoutine α) :
      ReadRoutine α
  | scalar {α : Type} (p : Primitive) (next : Except DecodeError Scalar → ReadRoutine α) :
      ReadRoutine α
  | length {α : Type} (next : Except DecodeError Nat → ReadRoutine α) : ReadRoutine α
  | array {α β : Type} (each : ReadRoutine (Except DecodeError β))
      (next : Except DecodeError (List β) → ReadRoutine α) : ReadRoutine α
  | optional {α β : Type} (present : ReadRoutine (Except DecodeError β))
      (next : Except DecodeError (Option β) → ReadRoutine α) : ReadRoutine α
  /-- Passes over a nested message. -/
  | skip {α : Type} (next : Except DecodeError (List UInt8) → ReadRoutine α) : ReadRoutine α
  /-- Fills a message, which takes in its frame by a routine of its own. -/
  | message {α σ : Type} (intake : σ → ReadRoutine (Except DecodeError Unit × σ)) (old : σ)
      (next : Except DecodeError Unit × σ → ReadRoutine α) : ReadRoutine α
  | optionalMessage {α σ : Type} (intake : σ → ReadRoutine (Except DecodeError Unit × σ))
      (fresh : σ) (old : Option σ) (next : Except DecodeError Unit × Option σ → ReadRoutine α) :
      ReadRoutine α

namespace ReadRoutine

def run {α : Type} : ReadRoutine α → Reader → α × Reader
  | .done result, r => (result, r)
  | .look next, r => (next r).run r
  | .bytes n next, r =>
    let reply := (Read.bytes n).exec r
    (next reply.1).run reply.2
  | .scalar p next, r =>
    let reply := (Scalar.read p).exec r
    (next reply.1).run reply.2
  | .length next, r =>
    let reply := Read.length.exec r
    (next reply.1).run reply.2
  | .array each next, r =>
    let reply := (Read.array each.run).exec r
    (next reply.1).run reply.2
  | .optional present next, r =>
    let reply := (Read.optional present.run).exec r
    (next reply.1).run reply.2
  | .skip next, r =>
    let reply := Read.frame.exec r
    (next reply.1).run reply.2
  | .message intake old next, r =>
    let fill := fun m bytes => ((intake m).run (Reader.ofBytes bytes)).1
    let reply := Read.frameInto fill old r
    (next (reply.1, reply.2.1)).run reply.2.2
  | .optionalMessage intake fresh old next, r =>
    let fill := fun m bytes => ((intake m).run (Reader.ofBytes bytes)).1
    let reply := Read.optionalFrameInto fill fresh old r
    (next (reply.1, reply.2.1)).run reply.2.2

/-- What a message makes of its frame: the routine is run on a reader of these bytes alone. -/
def within {σ : Type} (intake : σ → ReadRoutine (Except DecodeError Unit × σ)) (old : σ)
    (frame : List UInt8) : Except DecodeError Unit × σ :=
  ((intake old).run (Reader.ofBytes frame)).1

end ReadRoutine

namespace Reader

/-- The reader is at its index in this data. -/
def Stands (data : List UInt8) (r : Reader) : Prop :=
  r.rest = data.drop r.index ∧ r.index ≤ data.length

/-- Some bytes further on, or at the same place. -/
def Ahead (r r' : Reader) : Prop :=
  ∃ taken, r.rest = taken ++ r'.rest ∧ r'.index = r.index + taken.length

theorem Ahead.refl (r : Reader) : r.Ahead r := ⟨[], rfl, rfl⟩

theorem Ahead.trans {r r' r'' : Reader} (first : r.Ahead r') (later : r'.Ahead r'') :
    r.Ahead r'' := by
  obtain ⟨taken, rest, index⟩ := first
  obtain ⟨more, rest', index'⟩ := later
  refine ⟨taken ++ more, ?_, ?_⟩
  · rw [rest, rest', List.append_assoc]
  · rw [index', index, List.length_append, Nat.add_assoc]

/-- A reader that goes ahead still stands on the same bytes, and no earlier. -/
theorem Stands.ahead {data : List UInt8} {r r' : Reader} (stands : r.Stands data)
    (ahead : r.Ahead r') : r'.Stands data ∧ r.index ≤ r'.index := by
  obtain ⟨rest, inside⟩ := stands
  obtain ⟨taken, split, index⟩ := ahead
  rw [rest] at split
  have length := congrArg List.length split
  rw [List.length_drop, List.length_append] at length
  refine ⟨⟨?_, by omega⟩, by omega⟩
  rw [index, ← List.drop_drop, split, List.drop_left]

end Reader

namespace Read

variable {α β : Type}

/-- A step that never goes back, whether or not it fails. -/
def Advances (step : Read α) : Prop := ∀ r : Reader, r.Ahead (step.exec r).2

theorem advances_pure (a : α) : (pure a : Read α).Advances := Reader.Ahead.refl

theorem advances_throw (e : DecodeError) : (throw e : Read α).Advances := Reader.Ahead.refl

theorem advances_get : (get : Read Reader).Advances := Reader.Ahead.refl

/-- Reads that only go ahead do so one after the other. -/
theorem Advances.bind {step : Read α} {next : α → Read β} (first : step.Advances)
    (later : ∀ a, (next a).Advances) : (step >>= next).Advances := by
  intro r
  have ahead := first r
  rw [exec_bind]
  generalize step.exec r = reply at ahead ⊢
  rcases reply with ⟨e | a, r'⟩
  · exact ahead
  · exact ahead.trans (later a r')

theorem Advances.map {step : Read α} (first : step.Advances) (f : α → β) :
    (step >>= fun a => pure (f a)).Advances := first.bind fun a => advances_pure (f a)

/-- Taking bytes only goes ahead, also where there are too few of them. -/
theorem advances_bytes (n : Nat) : (bytes n).Advances := by
  intro r
  rw [exec_bytes]
  split
  · exact Reader.Ahead.refl r
  next enough =>
    refine ⟨r.rest.take n, (List.take_append_drop n r.rest).symm, ?_⟩
    rw [List.length_take, Nat.min_eq_left (Nat.le_of_not_lt enough)]

theorem advances_fixed (width : Nat) : (fixed width).Advances :=
  (advances_bytes width).map Bytes.toNat

theorem advances_uint8 : uint8.Advances := (advances_fixed 1).map Nat.toUInt8

theorem advances_uint16 : uint16.Advances := (advances_fixed 2).map Nat.toUInt16

theorem advances_uint32 : uint32.Advances := (advances_fixed 4).map Nat.toUInt32

theorem advances_uint64 : uint64.Advances := (advances_fixed 8).map Nat.toUInt64

theorem advances_flag : flag.Advances := advances_uint8.map (· != 0)

theorem advances_length : length.Advances := advances_uint16.map UInt16.toNat

theorem advances_text : text.Advances := by
  refine advances_get.bind fun _ => advances_length.bind fun count =>
    (advances_bytes (2 * count)).bind fun units => ?_
  dsimp only
  split
  · exact advances_pure _
  · exact advances_throw _

/-- A read that only goes ahead may be repeated. -/
theorem advances_times {step : Read α} (each : step.Advances) (n : Nat) (acc : Array α) :
    (times step n acc).Advances := by
  induction n generalizing acc with
  | zero => exact advances_pure acc
  | succ n ih => exact each.bind fun a => ih (acc.push a)

theorem advances_array {step : Read α} (each : step.Advances) : (array step).Advances :=
  advances_length.bind fun count => (advances_times each count #[]).map Array.toList

theorem advances_optional {step : Read α} (present : step.Advances) : (optional step).Advances := by
  refine advances_flag.bind fun b => ?_
  cases b with
  | false => exact advances_pure none
  | true => exact present.map some

theorem advances_frame : frame.Advances := advances_length.bind advances_bytes

/-- Filling from a frame moves on by the frame, whatever the filling does. -/
theorem ahead_frameInto {σ : Type} (fill : σ → List UInt8 → Except DecodeError Unit × σ) (old : σ)
    (r : Reader) : r.Ahead (frameInto fill old r).2.2 := by
  have ahead := advances_frame r
  rw [frameInto]
  generalize frame.exec r = reply at ahead ⊢
  rcases reply with ⟨e | bytes, r'⟩ <;> exact ahead

theorem ahead_optionalFrameInto {σ : Type} (fill : σ → List UInt8 → Except DecodeError Unit × σ)
    (fresh : σ) (old : Option σ) (r : Reader) :
    r.Ahead (optionalFrameInto fill fresh old r).2.2 := by
  have ahead := advances_flag r
  rw [optionalFrameInto]
  generalize flag.exec r = reply at ahead ⊢
  rcases reply with ⟨e | b, r'⟩
  · exact ahead
  cases b with
  | false => exact ahead
  | true =>
    cases old with
    | some m => exact ahead.trans (ahead_frameInto fill m r')
    | none =>
      have further := ahead.trans (ahead_frameInto fill fresh r')
      dsimp only
      generalize frameInto fill fresh r' = built at further ⊢
      rcases built with ⟨e | _, new, r''⟩ <;> exact further

end Read

/-- Reading a built-in type only goes ahead. -/
theorem Scalar.advances_read (p : Primitive) : (Scalar.read p).Advances := by
  cases p with
  | bool => exact Read.advances_flag.map Scalar.bool
  | byte => exact Read.advances_uint8.map Scalar.byte
  | sbyte => exact Read.advances_uint8.map fun n => Scalar.sbyte n.toInt8
  | short => exact Read.advances_uint16.map fun n => Scalar.short n.toInt16
  | ushort => exact Read.advances_uint16.map Scalar.ushort
  | int => exact Read.advances_uint32.map fun n => Scalar.int n.toInt32
  | uint => exact Read.advances_uint32.map Scalar.uint
  | long => exact Read.advances_uint64.map fun n => Scalar.long n.toInt64
  | ulong => exact Read.advances_uint64.map Scalar.ulong
  | float => exact Read.advances_uint32.map Scalar.float
  | double => exact Read.advances_uint64.map Scalar.double
  | string => exact Read.advances_text.map Scalar.string
  | char => exact Read.advances_uint16.map Scalar.char

/-- Whatever is done with a reader, it never goes back. -/
theorem ReadRoutine.ahead_run {α : Type} (routine : ReadRoutine α) (r : Reader) :
    r.Ahead (routine.run r).2 := by
  induction routine generalizing r with
  | done result => exact Reader.Ahead.refl r
  | look next ih => exact ih r r
  | bytes n next ih => exact (Read.advances_bytes n r).trans (ih _ _)
  | scalar p next ih => exact (Scalar.advances_read p r).trans (ih _ _)
  | length next ih => exact (Read.advances_length r).trans (ih _ _)
  | array each next ihEach ih => exact (Read.advances_array ihEach r).trans (ih _ _)
  | optional present next ihPresent ih => exact (Read.advances_optional ihPresent r).trans (ih _ _)
  | skip next ih => exact (Read.advances_frame r).trans (ih _ _)
  | message intake old next _ ih => exact (Read.ahead_frameInto _ old r).trans (ih _ _)
  | optionalMessage intake fresh old next _ ih =>
    exact (Read.ahead_optionalFrameInto _ fresh old r).trans (ih _ _)

namespace Read

/-- A length is read from two bytes, if there are two. -/
theorem exec_length (r : Reader) :
    length.exec r =
      if r.rest.length < 2 then (.error (.unexpectedEnd r.index 2 r.remaining), r)
      else (.ok (Bytes.toNat (r.rest.take 2)), ⟨r.rest.drop 2, r.index + 2⟩) := by
  rw [length, exec_map, uint16, exec_map, fixed, exec_map, exec_bytes]
  split
  · rfl
  next enough =>
    have small := Bytes.toNat_lt (r.rest.take 2)
    rw [List.length_take, Nat.min_eq_left (Nat.le_of_not_lt enough)] at small
    simp only [Except.map, Utf16.toNat_unit small]

end Read

namespace Reader

variable {data : List UInt8} {r : Reader}

theorem Stands.length_rest (stands : r.Stands data) : r.rest.length = data.length - r.index := by
  rw [stands.1, List.length_drop]

/-- A frame is cut out where all its bytes are there. -/
theorem Stands.exec_frame (stands : r.Stands data) {n : Nat}
    (count : Bytes.Hold 2 n ((data.drop r.index).take 2)) :
    Read.frame.exec r =
      if data.length < r.index + 2 + n then
        (.error (.unexpectedEnd (r.index + 2) n (data.length - (r.index + 2))),
          ⟨data.drop (r.index + 2), r.index + 2⟩)
      else (.ok ((data.drop (r.index + 2)).take n),
        ⟨data.drop (r.index + 2 + n), r.index + 2 + n⟩) := by
  have counted : ¬ r.rest.length < 2 := by
    have two := count.1
    rw [← stands.1, List.length_take] at two
    omega
  have behind : r.rest.drop 2 = data.drop (r.index + 2) := by rw [stands.1, List.drop_drop]
  have short : data.length - (r.index + 2) < n ↔ data.length < r.index + 2 + n := by
    have left := stands.length_rest
    omega
  rw [Read.frame, Read.exec_bind, Read.exec_length, if_neg counted, behind, stands.1, count.2]
  simp only [Read.exec_bytes, Reader.remaining, List.length_drop, List.drop_drop, short]

end Reader

namespace ReadRoutine

/-- A message is taken in from its frame alone. Where the frame is whole, the outer reader ends
behind it and the message makes of it what it makes of these bytes by themselves, however it fares;
where the frame is not, the message keeps what it held. Whatever else is done, a reader stays in its
data and does not go back. -/
theorem frameInto_isolated {σ : Type} (intake : σ → ReadRoutine (Except DecodeError Unit × σ))
    (old : σ) {data : List UInt8} {r : Reader} (stands : r.Stands data) :
    (∀ n, Bytes.Hold 2 n ((data.drop r.index).take 2) →
      (r.index + 2 + n ≤ data.length →
        let made := within intake old ((data.drop (r.index + 2)).take n)
        Read.frameInto (within intake) old r =
          (made.1, made.2, ⟨data.drop (r.index + 2 + n), r.index + 2 + n⟩)) ∧
      (data.length < r.index + 2 + n →
        Read.frameInto (within intake) old r =
          (.error (.unexpectedEnd (r.index + 2) n (data.length - (r.index + 2))), old,
            ⟨data.drop (r.index + 2), r.index + 2⟩))) ∧
    (data.length < r.index + 2 →
      Read.frameInto (within intake) old r =
        (.error (.unexpectedEnd r.index 2 (data.length - r.index)), old, r)) ∧
    ∀ {α : Type} (routine : ReadRoutine α),
      (routine.run r).2.Stands data ∧ r.index ≤ (routine.run r).2.index := by
  refine ⟨fun n count => ⟨fun whole => ?_, fun cut => ?_⟩, fun short => ?_, fun routine => ?_⟩
  · rw [Read.frameInto, stands.exec_frame count, if_neg (Nat.not_lt.mpr whole)]
  · rw [Read.frameInto, stands.exec_frame count, if_pos cut]
  · have few : r.rest.length < 2 := by
      rw [stands.length_rest]
      omega
    rw [Read.frameInto, Read.frame, Read.exec_bind, Read.exec_length, if_pos few, Reader.remaining,
      stands.length_rest]
  · exact stands.ahead (routine.ahead_run r)

/-- Keeps a byte, asks for five more and gives up. -/
def greedy (held : List UInt8) : ReadRoutine (Except DecodeError Unit × List UInt8) :=
  .bytes 1 fun first => .bytes 5 fun more =>
    .done (more.map fun _ => (), held ++ first.toOption.getD [])

/-- The frame has three bytes, and the five that are asked for are not taken from behind it. -/
theorem frameInto_isolated_greedy :
    (Reader.mk [3, 0, 1, 2, 3, 8, 8, 8] 1).Stands [9, 3, 0, 1, 2, 3, 8, 8, 8] ∧
    Bytes.Hold 2 3 [3, 0] ∧
    Read.frameInto (within greedy) [7] ⟨[3, 0, 1, 2, 3, 8, 8, 8], 1⟩ =
      (.error (.unexpectedEnd 1 5 2), [7, 1], ⟨[8, 8, 8], 6⟩) := by
  have stands : (Reader.mk [3, 0, 1, 2, 3, 8, 8, 8] 1).Stands [9, 3, 0, 1, 2, 3, 8, 8, 8] :=
    ⟨rfl, by decide⟩
  have count : Bytes.Hold 2 3 [3, 0] := ⟨rfl, by decide⟩
  exact ⟨stands, count, ((frameInto_isolated greedy [7] stands).1 3 count).1 (by decide)⟩

end ReadRoutine

end WireSchema
