import WireSchema.Proofs.Layout

/-!
What writing a message does. A list of write operations whose nested messages claim their true sizes
never runs out of room: it either lays down its image or stops at the first length that two bytes
cannot hold. The operations of a message are of this kind, so `serialize` gives the layout of the
message, or the first such length.
-/

namespace WireSchema

open Text

def overflows (n : Nat) : Bool := 65535 < n

namespace Writer

def wrote (w : Writer) (bs : List UInt8) : Writer :=
  ⟨store w.bytes (w.start + w.index) bs, w.start, w.capacity, w.index + bs.length⟩

/-- Goes on unless the first part failed. -/
def andThen (reply : Except EncodeError Unit × Writer)
    (next : Writer → Except EncodeError Unit × Writer) : Except EncodeError Unit × Writer :=
  match reply with
  | (.ok (), w) => next w
  | (.error e, w) => (.error e, w)

/-- The writer `w` is reached, unless one of the lengths is too large; then the first such length is
the error. -/
def Settles (lengths : List Nat) (w : Writer) (reply : Except EncodeError Unit × Writer) : Prop :=
  match lengths.find? overflows with
  | none => reply = (.ok (), w)
  | some n => reply.1 = .error (.lengthOverflow n)

theorem Settles.andThen {lengths more : List Nat} {w v : Writer}
    {reply : Except EncodeError Unit × Writer} {next : Writer → Except EncodeError Unit × Writer}
    (first : Settles lengths w reply) (later : Settles more v (next w)) :
    Settles (lengths ++ more) v (Writer.andThen reply next) := by
  unfold Settles at *
  rw [List.find?_append]
  cases found : lengths.find? overflows with
  | none =>
    simp only [found] at first
    rw [first, Option.none_or]
    exact later
  | some n =>
    simp only [found] at first
    obtain ⟨outcome, w'⟩ := reply
    simp only at first
    rw [first, Option.some_or]
    rfl

theorem store_append (buffer : Array UInt8) (position : Nat) (bs cs : List UInt8) :
    store buffer position (bs ++ cs) = store (store buffer position bs) (position + bs.length) cs := by
  induction bs generalizing buffer position with
  | nil => rfl
  | cons b bs ih =>
    rw [List.cons_append, store, ih, store, List.length_cons]
    congr 1
    omega

/-- Storing replaces the bytes from the position on and no others. -/
theorem toList_store (buffer : Array UInt8) (position : Nat) (bs : List UInt8)
    (room : position + bs.length ≤ buffer.size) :
    (store buffer position bs).toList =
      buffer.toList.take position ++ bs ++ buffer.toList.drop (position + bs.length) := by
  induction bs generalizing buffer position with
  | nil => simp [store]
  | cons b bs ih =>
    rw [List.length_cons] at room
    have inside : position < buffer.toList.length := by rw [Array.length_toList]; omega
    have front : (buffer.toList.set position b).take (position + 1) =
        buffer.toList.take position ++ [b] := by
      rw [List.take_add_one, List.take_set_of_le (Nat.le_refl _),
        List.getElem?_set_self inside]
      rfl
    have back : (buffer.toList.set position b).drop (position + 1 + bs.length) =
        buffer.toList.drop (position + 1 + bs.length) := List.drop_set_of_lt (by omega)
    rw [store, ih _ _ (by rw [Array.size_setIfInBounds]; omega), Array.toList_setIfInBounds, front,
      back, List.length_cons, Nat.add_right_comm, Nat.add_assoc position]
    simp

theorem wrote_append (w : Writer) (bs cs : List UInt8) :
    w.wrote (bs ++ cs) = (w.wrote bs).wrote cs := by
  simp only [wrote, store_append, List.length_append, Nat.add_assoc]

theorem put_eq_wrote (w : Writer) (bs : List UInt8) (room : w.index + bs.length ≤ w.capacity) :
    w.put bs = (.ok (), w.wrote bs) := by
  rw [put, if_pos room]
  rfl

theorem settles_put (w : Writer) (bs : List UInt8) (room : w.index + bs.length ≤ w.capacity) :
    Settles [] (w.wrote bs) (w.put bs) :=
  put_eq_wrote w bs room

theorem settles_putLength (w : Writer) (n : Nat) (room : w.index + 2 ≤ w.capacity) :
    Settles [n] (w.wrote (Bytes.ofNat 2 n)) (w.putLength n) := by
  by_cases small : n < 65536
  · have fits : overflows n = false := by simp [overflows]; omega
    rw [Settles, List.find?_singleton, fits, putLength, if_pos small]
    exact put_eq_wrote w _ (by rw [Bytes.length_ofNat]; exact room)
  · have large : overflows n = true := by simp [overflows]; omega
    rw [Settles, List.find?_singleton, large, putLength, if_neg small]
    rfl

theorem settles_putUnits (w : Writer) (units : List UInt16)
    (room : w.index + 2 * units.length ≤ w.capacity) :
    Settles [] (w.wrote (Bytes.ofUnits units)) (w.putUnits units) := by
  induction units generalizing w with
  | nil => rfl
  | cons u us ih =>
    rw [List.length_cons] at room
    have first := settles_put w (Bytes.ofNat 2 u.toNat) (by rw [Bytes.length_ofNat]; omega)
    have later := ih (w.wrote (Bytes.ofNat 2 u.toNat)) (by
      simp only [wrote, Bytes.length_ofNat]
      omega)
    rw [← wrote_append] at later
    exact first.andThen later

theorem settles_putText (w : Writer) (text : String)
    (room : w.index + (Scalar.string text).wire.length ≤ w.capacity) :
    Settles [Utf16.length text] (w.wrote (Scalar.string text).wire) (w.putText text) := by
  rw [Scalar.length_wire_string, lengthHeaderLength] at room
  have first := settles_putLength w (Utf16.length text) (by omega)
  have later := settles_putUnits (w.wrote (Bytes.ofNat 2 (Utf16.length text)))
    (Utf16.encode text.toList) (by
      rw [← Utf16.length_eq_length_encode]
      simp only [wrote, Bytes.length_ofNat]
      omega)
  rw [← wrote_append] at later
  exact first.andThen later

/-- A nested message that fills the range it claims leaves the outer writer behind that range. -/
theorem settles_putFrame (w : Writer) (lengths : List Nat) (image : List UInt8)
    (body : Writer → Except EncodeError Unit × Writer)
    (room : w.index + image.length ≤ w.capacity)
    (filled : ∀ v : Writer, v.index + image.length ≤ v.capacity →
      Settles lengths (v.wrote image) (body v)) :
    Settles lengths (w.wrote image) (w.putFrame image.length body) := by
  have inner := filled ⟨w.bytes, w.start + w.index, image.length, 0⟩ (by simp)
  obtain ⟨buffer, start, capacity, index⟩ := w
  rw [putFrame, if_pos room]
  unfold Settles at *
  cases found : lengths.find? overflows with
  | none =>
    simp only [found] at inner
    rw [inner]
    simp [finish, wrote, Except.map]
  | some n =>
    simp only [found] at inner
    cases reply : body ⟨buffer, start + index, image.length, 0⟩ with
    | mk outcome nested =>
      simp only [reply] at inner
      rw [inner]

end Writer

namespace WriteOp

mutual

def image : WriteOp → List UInt8
  | .bytes bs => bs
  | .length n => Bytes.ofNat 2 n
  | .text s => (Scalar.string s).wire
  | .message size body => Bytes.ofNat 2 size ++ imageAll body

def imageAll : List WriteOp → List UInt8
  | [] => []
  | op :: ops => op.image ++ imageAll ops

end

mutual

/-- The lengths that an operation writes, each before what it covers. -/
def lengths : WriteOp → List Nat
  | .bytes _ => []
  | .length n => [n]
  | .text s => [Utf16.length s]
  | .message size body => size :: lengthsAll body

def lengthsAll : List WriteOp → List Nat
  | [] => []
  | op :: ops => op.lengths ++ lengthsAll ops

end

mutual

/-- Every nested message claims the number of bytes that it writes. -/
def Exact : WriteOp → Prop
  | .message size body => size = (imageAll body).length ∧ ExactAll body
  | _ => True

def ExactAll : List WriteOp → Prop
  | [] => True
  | op :: ops => op.Exact ∧ ExactAll ops

end

mutual

theorem settles_run (w : Writer) :
    ∀ op : WriteOp, op.Exact → w.index + op.image.length ≤ w.capacity →
      Writer.Settles op.lengths (w.wrote op.image) (op.run w)
  | .bytes bs, _, room => Writer.settles_put w bs room
  | .length n, _, room => Writer.settles_putLength w n (by rwa [image, Bytes.length_ofNat] at room)
  | .text s, _, room => Writer.settles_putText w s room
  | .message size body, ⟨claimed, exact⟩, room => by
    rw [image, List.length_append, Bytes.length_ofNat] at room
    have first := Writer.settles_putLength w size (by omega)
    have later := Writer.settles_putFrame (w.wrote (Bytes.ofNat 2 size)) (lengthsAll body)
      (imageAll body) (runAll body) (by
        simp only [Writer.wrote, Bytes.length_ofNat]
        omega) (fun v inner => settles_runAll v body exact inner)
    rw [← Writer.wrote_append, ← claimed] at later
    exact first.andThen later

/-- Operations that claim true sizes run to their end, or to the first length that is too large. -/
theorem settles_runAll (w : Writer) :
    ∀ ops : List WriteOp, ExactAll ops → w.index + (imageAll ops).length ≤ w.capacity →
      Writer.Settles (lengthsAll ops) (w.wrote (imageAll ops)) (runAll ops w)
  | [], _, _ => rfl
  | op :: ops, ⟨exact, rest⟩, room => by
    rw [imageAll, List.length_append] at room
    have first := settles_run w op exact (by omega)
    have later := settles_runAll (w.wrote op.image) ops rest (by
      simp only [Writer.wrote]
      omega)
    rw [← Writer.wrote_append] at later
    exact first.andThen later

end

/-- Operations with true sizes that write these bytes, and among them these lengths. -/
structure Writes (ops : List WriteOp) (bs : List UInt8) (lengths : List Nat) : Prop where
  exact : ExactAll ops
  image : imageAll ops = bs
  lengths : lengthsAll ops = lengths

theorem Writes.nil : Writes [] [] [] := ⟨trivial, rfl, rfl⟩

theorem Writes.bytes (bs : List UInt8) : Writes [.bytes bs] bs [] :=
  ⟨⟨trivial, trivial⟩, by simp [imageAll, WriteOp.image], rfl⟩

theorem Writes.cons {op : WriteOp} {ops : List WriteOp} {bs cs : List UInt8} {ls ms : List Nat}
    (first : Writes [op] bs ls) (later : Writes ops cs ms) :
    Writes (op :: ops) (bs ++ cs) (ls ++ ms) := by
  have image : op.image = bs := by simpa [imageAll] using first.image
  have lengths : op.lengths = ls := by simpa [lengthsAll] using first.lengths
  refine ⟨⟨first.exact.1, later.exact⟩, ?_, ?_⟩
  · rw [imageAll, image, later.image]
  · rw [lengthsAll, lengths, later.lengths]

theorem Writes.append {ops more : List WriteOp} {bs cs : List UInt8} {ls ms : List Nat}
    (first : Writes ops bs ls) (later : Writes more cs ms) :
    Writes (ops ++ more) (bs ++ cs) (ls ++ ms) := by
  obtain ⟨exact, rfl, rfl⟩ := first
  induction ops with
  | nil => exact later
  | cons op ops ih =>
    have tail := ih exact.2
    refine ⟨⟨exact.1, tail.exact⟩, ?_, ?_⟩
    · rw [List.cons_append, imageAll, tail.image, imageAll, List.append_assoc]
    · rw [List.cons_append, lengthsAll, tail.lengths, lengthsAll, List.append_assoc]

/-- A nested message that claims the size of its body. -/
theorem Writes.message {body : List WriteOp} {bs : List UInt8} {ls : List Nat}
    (inner : Writes body bs ls) :
    Writes [.message bs.length body] (Bytes.ofNat 2 bs.length ++ bs) (bs.length :: ls) := by
  obtain ⟨exact, rfl, rfl⟩ := inner
  exact ⟨⟨⟨rfl, exact⟩, trivial⟩, List.append_nil _, List.append_nil _⟩

end WriteOp

theorem Scalar.writes_writeOp (x : Scalar) (type : String) (s : Schema) :
    WriteOp.Writes [x.writeOp] x.wire (s.valueLengths type (.scalar x)) := by
  cases x with
  | string text => exact ⟨⟨trivial, trivial⟩, List.append_nil _, rfl⟩
  | _ => exact WriteOp.Writes.bytes _

theorem Field.writes_headerOps (f : Field) : WriteOp.Writes f.headerOps f.header [] := by
  rw [headerOps, header, mark]
  cases f.isOptional with
  | true => exact (WriteOp.Writes.bytes _).cons (WriteOp.Writes.bytes [1])
  | false => exact (WriteOp.Writes.bytes _).cons WriteOp.Writes.nil

namespace Schema

theorem elementOps_eq (s : Schema) (f : Field) (acc : List WriteOp) (items : List Value) :
    s.elementOps f acc items = acc.reverse ++ items.map (s.elementOp f) := by
  induction items generalizing acc with
  | nil => simp [elementOps]
  | cons v vs ih => simp [elementOps, ih]

def valueOps (s : Schema) (f : Field) : Value → List WriteOp
  | .absent => []
  | .array items => .length items.length :: s.elementOps f [] items
  | v => [s.elementOp f v]

theorem recordOps_cons (s : Schema) (f : Field) (v : Value) (fs : List Field) (vs : List Value) :
    s.recordOps (f :: fs) (v :: vs) =
      (if v.isAbsent then [] else f.headerOps ++ s.valueOps f v) ++ s.recordOps fs vs := by
  cases v <;> rfl

theorem valueOps_message (s : Schema) (f : Field) (values : List Value) :
    s.valueOps f (.message values) =
      [.message (s.totalSize (s.fieldsOf f.typeName) values)
        (s.recordOps (s.fieldsOf f.typeName) values)] := rfl

theorem valueOps_element {s : Schema} {f : Field} {v : Value} (admitted : s.admits f.element v) :
    s.valueOps f.element v = [s.elementOp f v] := by
  cases v with
  | absent => cases admitted
  | array items => exact absurd admitted not_admits_element_array
  | _ => rfl

mutual

theorem writes_valueOps (s : Schema) (f : Field) :
    ∀ v : Value, s.admits f v →
      WriteOp.Writes (s.valueOps f v) (s.valueBytes f.typeName v) (s.valueLengths f.typeName v)
  | .absent, _ => WriteOp.Writes.nil
  | .array items, admitted => by
    have each := writes_elementOps s f items (admits_array.mp admitted).2
    have count : WriteOp.Writes [.length items.length] (Bytes.ofNat 2 items.length)
        [items.length] := ⟨⟨trivial, trivial⟩, List.append_nil _, rfl⟩
    rw [valueOps, elementOps_eq, List.reverse_nil, List.nil_append]
    exact count.cons each
  | .scalar x, _ => x.writes_writeOp f.typeName s
  | .enum n, _ => WriteOp.Writes.bytes (enumBytes n)
  | .message values, admitted => by
    have typed := (admits_message.mp admitted).2.2
    have body := writes_recordOps s (s.fieldsOf f.typeName) values typed
    have size := length_records s (s.fieldsOf f.typeName) values typed
    rw [valueBytes, valueLengths, valueOps_message, ← size]
    exact body.message

theorem writes_elementOps (s : Schema) (f : Field) :
    ∀ items : List Value, s.admitsEach f.element items →
      WriteOp.Writes (items.map (s.elementOp f)) (s.eachBytes f.typeName items)
        (s.eachLengths f.typeName items)
  | [], _ => WriteOp.Writes.nil
  | v :: vs, admitted => by
    have both := admitsEach_cons.mp admitted
    have first := writes_valueOps s f.element v both.1
    rw [valueOps_element both.1] at first
    exact first.cons (writes_elementOps s f vs both.2)

/-- The operations of a message write its records. -/
theorem writes_recordOps (s : Schema) :
    ∀ (fields : List Field) (values : List Value), s.admitsAll fields values →
      WriteOp.Writes (s.recordOps fields values) (s.records fields values).flatten
        (s.lengths fields values)
  | [], [], _ => WriteOp.Writes.nil
  | [], _ :: _, admitted => by cases admitted
  | _ :: _, [], admitted => by cases admitted
  | f :: fs, v :: vs, admitted => by
    have both := admitsAll_cons.mp admitted
    have first := writes_valueOps s f v both.1
    have later := writes_recordOps s fs vs both.2
    rw [recordOps_cons, records, lengths]
    split
    · rename_i absent
      obtain rfl := Value.eq_absent absent
      exact later
    · rw [List.flatten_cons]
      exact (f.writes_headerOps.append first).append later

end

/-- Where the buffer has room, writing into it stores the records at the offset, unless one of the
lengths is too large; then the first such length is the error. -/
theorem serializeInto_of_room {s : Schema} {fields : List Field} {values : List Value}
    (admitted : s.admitsAll fields values) (buffer : Array UInt8) (offset : Nat)
    (room : offset + s.totalSize fields values ≤ buffer.size) :
    match (s.lengths fields values).find? overflows with
    | none => s.serializeInto fields values buffer offset =
        (.ok (s.totalSize fields values),
          Writer.store buffer offset (s.records fields values).flatten)
    | some n => (s.serializeInto fields values buffer offset).1 = .error (.lengthOverflow n) := by
  have writes := writes_recordOps s fields values admitted
  have size := length_records s fields values admitted
  have settled := WriteOp.settles_runAll ⟨buffer, offset, s.totalSize fields values, 0⟩
    (s.recordOps fields values) writes.exact (by rw [writes.image, size]; exact Nat.le_of_eq (Nat.zero_add _))
  rw [writes.lengths, writes.image] at settled
  rw [serializeInto, Writer.new, if_pos room]
  unfold Writer.Settles at settled
  cases found : (s.lengths fields values).find? overflows with
  | none =>
    simp only [found] at settled
    simp only [settled, Writer.wrote, Writer.finish, Nat.zero_add, Nat.add_zero, size, if_pos]
  | some n =>
    simp only [found] at settled
    cases reply : WriteOp.runAll (s.recordOps fields values)
        ⟨buffer, offset, s.totalSize fields values, 0⟩ with
    | mk outcome w =>
      simp only [reply] at settled
      simp only [reply, settled]

/-- A message is written as its records, unless one of its lengths is too large; then the first
such length is the error. -/
theorem serialize_eq {s : Schema} {fields : List Field} {values : List Value}
    (admitted : s.admitsAll fields values) :
    s.serialize fields values =
      match (s.lengths fields values).find? overflows with
      | none => .ok (s.records fields values).flatten.toArray
      | some n => .error (.lengthOverflow n) := by
  have size := length_records s fields values admitted
  have written := serializeInto_of_room admitted
    (Array.replicate (s.totalSize fields values) 0) 0 (by rw [Array.size_replicate]; omega)
  rw [serialize]
  cases found : (s.lengths fields values).find? overflows with
  | none =>
    simp only [found] at written
    have stored := Writer.toList_store (Array.replicate (s.totalSize fields values) 0) 0
      (s.records fields values).flatten (by rw [Array.size_replicate, size]; omega)
    rw [Nat.zero_add, size, List.take_zero, List.nil_append, List.drop_eq_nil_of_le (by simp),
      List.append_nil] at stored
    simp only [written]
    congr 1
    exact Array.toList_inj.mp stored
  | some n =>
    simp only [found] at written
    cases reply : s.serializeInto fields values (Array.replicate (s.totalSize fields values) 0) 0 with
    | mk outcome buffer =>
      simp only [reply] at written
      simp only [written]

/-- What is written are the records, and every length fits its two bytes. -/
theorem serialize_eq_ok_iff {s : Schema} {fields : List Field} {values : List Value}
    (admitted : s.admitsAll fields values) {b : Array UInt8} :
    s.serialize fields values = .ok b ↔
      b.toList = (s.records fields values).flatten ∧ ∀ n ∈ s.lengths fields values, n ≤ 65535 := by
  have fit : (s.lengths fields values).find? overflows = none ↔
      ∀ n ∈ s.lengths fields values, n ≤ 65535 := by
    simp [List.find?_eq_none, overflows]
  rw [serialize_eq admitted, ← fit]
  cases (s.lengths fields values).find? overflows with
  | none => simp [← Array.toList_inj, eq_comm]
  | some n => simp

/-- Writing neither runs out of room nor leaves any. It gives exactly as many bytes as were computed
when every length fits two bytes, and otherwise fails with the first length that does not. -/
theorem serialize_exact_or_overflow (s : Schema) (fields : List Field) (values : List Value)
    (admitted : s.admitsAll fields values) :
    (∀ expected written, s.serialize fields values ≠ .error (.sizeMismatch expected written)) ∧
    (∀ offset needed available,
      s.serialize fields values ≠ .error (.bufferTooSmall offset needed available)) ∧
    ((∃ b, s.serialize fields values = .ok b ∧ b.size = s.totalSize fields values) ↔
      ∀ n ∈ s.lengths fields values, n ≤ 65535) ∧
    (∀ n, s.serialize fields values = .error (.lengthOverflow n) ↔
      (s.lengths fields values).find? overflows = some n) := by
  have size := length_records s fields values admitted
  have written := serialize_eq admitted
  cases found : (s.lengths fields values).find? overflows with
  | none =>
    simp only [found] at written
    have fit : ∀ n ∈ s.lengths fields values, n ≤ 65535 := by
      intro n member
      have small := List.find?_eq_none.mp found n member
      simpa [overflows] using small
    refine ⟨?_, ?_, ⟨fun _ => fit, fun _ => ⟨_, written, ?_⟩⟩, ?_⟩
    · intro expected written'
      simp [written]
    · intro offset needed available
      simp [written]
    · rw [List.size_toArray, size]
    · intro n
      simp [written]
  | some m =>
    simp only [found] at written
    have large : 65535 < m := by simpa [overflows] using List.find?_some found
    refine ⟨?_, ?_, ⟨?_, ?_⟩, ?_⟩
    · intro expected written'
      simp [written]
    · intro offset needed available
      simp [written]
    · rintro ⟨b, same, -⟩
      rw [written] at same
      cases same
    · intro fit
      exact absurd (fit m (List.mem_of_find?_eq_some found)) (by omega)
    · intro n
      simp [written]

theorem serialize_oak_exact :
    forest.admitsAll treeFields oak ∧ forest.totalSize treeFields oak = 59 ∧
      ∃ b, forest.serialize treeFields oak = .ok b ∧
        b.size = forest.totalSize treeFields oak := by
  have admitted : forest.admitsAll treeFields oak := by decide
  have fit : ∀ n ∈ forest.lengths treeFields oak, n ≤ 65535 := by decide
  have law := serialize_exact_or_overflow forest treeFields oak admitted
  exact ⟨admitted, by decide, law.2.2.1.mpr fit⟩

end Schema

end WireSchema
