import WireSchema.Proofs.Format

/-!
Texts on the wire. Writing a text and reading it are inverse to each other: on one side stand all
texts whose units can be counted, on the other all sequences of units in which surrogates stand in
pairs. Any other sequence is refused, at the byte where its count stands.
-/

namespace WireSchema

open Text

/-- Reading a counted sequence of units is decoding the units. -/
theorem Read.exec_text {units : List UInt16} {count body : List UInt8}
    (counts : Bytes.Hold 2 units.length count) (held : Bytes.HoldUnits units body)
    (rest : List UInt8) (index : Nat) :
    text.exec ⟨count ++ body ++ rest, index⟩ =
      (match Utf16.decode? units with
        | some cs => .ok (String.ofList cs)
        | none => .error (.invalidUtf16 index),
        ⟨rest, index + (2 + 2 * units.length)⟩) := by
  obtain ⟨small, rfl⟩ := Bytes.hold_length_iff.mp counts
  obtain rfl := Bytes.holdUnits_iff.mp held
  have counted := gives_length small (Bytes.ofUnits units ++ rest) index
  have taken := gives_bytes (Bytes.ofUnits units) rest (index + 2)
  rw [Bytes.length_ofNat] at counted
  rw [Bytes.length_ofUnits] at taken
  rw [List.append_assoc, text, exec_bind, exec_get]
  dsimp only
  rw [exec_bind, counted]
  dsimp only
  rw [exec_bind, taken]
  simp only [units_ofUnits, ← Nat.add_assoc]
  cases Utf16.decode? units <;> rfl

/-- A text whose units can be counted is laid down where there is room. -/
theorem Writer.putText_eq_wrote {t : String} (small : Utf16.length t ≤ 65535) {w : Writer}
    (room : w.index + (2 + 2 * Utf16.length t) ≤ w.capacity) :
    w.putText t = (.ok (), w.wrote (Scalar.string t).wire) := by
  have length : (Scalar.string t).wire.length = 2 + 2 * Utf16.length t :=
    Scalar.length_wire_string t
  have settled := settles_putText w t (by rw [length]; exact room)
  have fits : overflows (Utf16.length t) = false := decide_eq_false (Nat.not_lt.mpr small)
  rwa [Settles, List.find?_singleton, fits] at settled

/-- What was written stands in the buffer where the writer was, up to where it is. -/
theorem Writer.drop_wrote {w : Writer} {bs : List UInt8}
    (inside : w.start + w.capacity ≤ w.bytes.size) (room : w.index + bs.length ≤ w.capacity) :
    (w.wrote bs).bytes.toList.drop (w.start + w.index) =
      bs ++ (w.wrote bs).bytes.toList.drop (w.start + (w.wrote bs).index) := by
  have stored := toList_store w.bytes (w.start + w.index) bs (by omega)
  have front : (w.bytes.toList.take (w.start + w.index)).length = w.start + w.index := by
    rw [List.length_take, Array.length_toList]
    omega
  generalize w.bytes.toList.take (w.start + w.index) = before at stored front
  generalize w.bytes.toList.drop (w.start + w.index + bs.length) = after at stored
  simp only [wrote, stored, List.append_assoc, ← Nat.add_assoc w.start]
  rw [List.drop_left' front, ← List.drop_drop, List.drop_left' front, List.drop_left]

/-- Writing and reading texts are inverse to each other. A text whose units can be counted is
written in two bytes and two more for each unit, a character above U+FFFF having two units and any
other one, and is read back from there. A counted sequence of units is read exactly where every
surrogate has its partner; what is read is then written as the same bytes, and otherwise reading
fails and names the place of the count. -/
theorem texts_coded :
    (∀ (t : String) (w : Writer), Utf16.length t ≤ 65535 →
      w.start + w.capacity ≤ w.bytes.size →
      w.index + (2 + 2 * Utf16.length t) ≤ w.capacity →
      ∃ w', w.putText t = (.ok (), w') ∧ w'.index = w.index + (2 + 2 * Utf16.length t) ∧
        ∀ index, Read.text.exec ⟨w'.bytes.toList.drop (w.start + w.index), index⟩ =
          (.ok t, ⟨w'.bytes.toList.drop (w.start + w'.index),
            index + (2 + 2 * Utf16.length t)⟩)) ∧
    (∀ t : String, Utf16.length t = t.length + t.toList.countP (0xFFFF < ·.toNat)) ∧
    (∀ (units : List UInt16) (count body rest : List UInt8) (index : Nat),
      Bytes.Hold 2 units.length count → Bytes.HoldUnits units body →
      let reply := Read.text.exec ⟨count ++ body ++ rest, index⟩
      reply.2 = ⟨rest, index + (2 + 2 * units.length)⟩ ∧
        ((∃ t, reply.1 = .ok t) ↔ Utf16.Paired units) ∧
        (∀ t, reply.1 = .ok t → ∀ w : Writer,
          w.index + (count ++ body).length ≤ w.capacity →
          w.putText t = (.ok (), w.wrote (count ++ body))) ∧
        (¬ Utf16.Paired units → reply.1 = .error (.invalidUtf16 index))) := by
  refine ⟨fun t w small inside room => ?_, fun t => ?_,
    fun units count body rest index counts held => ?_⟩
  · have length : (Scalar.string t).wire.length = 2 + 2 * Utf16.length t :=
      Scalar.length_wire_string t
    rw [← length] at room
    refine ⟨_, Writer.putText_eq_wrote small (by rwa [length] at room), ?_, fun index => ?_⟩
    · rw [← length]
      rfl
    · rw [Writer.drop_wrote inside room, Read.gives_text small, length]
  · rw [Utf16.length_eq_add_countP, String.length_toList]
  · have read := Read.exec_text counts held rest index
    obtain ⟨small, whole⟩ := Bytes.hold_length_iff.mp counts
    have bytes := Bytes.holdUnits_iff.mp held
    simp only [read, true_and]
    rw [← Utf16.decode?_isSome_iff]
    cases found : Utf16.decode? units with
    | none => simp
    | some cs =>
      have same : units = Utf16.encode cs := Utf16.decode?_eq_some_iff.mp found
      have length : Utf16.length (String.ofList cs) = units.length := by
        rw [Utf16.length_eq_length_encode, String.toList_ofList, same]
      have wire : (Scalar.string (String.ofList cs)).wire = count ++ body := by
        rw [Scalar.wire, length, String.toList_ofList, ← same, whole, bytes]
      refine ⟨by simp, ?_, by simp⟩
      rintro t ⟨⟩ w room
      rw [← wire] at room ⊢
      rw [Scalar.length_wire_string] at room
      exact Writer.putText_eq_wrote (length ▸ small) room

/-- A smile takes six bytes. Half of its pair in front of a letter is refused. -/
theorem texts_coded_smile :
    (∃ w', (Writer.mk (Array.replicate 9 0) 2 7 1).putText "😀" = (.ok (), w') ∧ w'.index = 7) ∧
      (Read.text.exec ⟨[2, 0] ++ [0x3D, 0xD8, 0x61, 0] ++ [9], 5⟩).1 =
        .error (.invalidUtf16 5) := by
  have units : Utf16.length "😀" = 2 := by decide
  have alone : ¬ Utf16.Paired [0xD83D, 0x61] :=
    fun paired => absurd (paired.high 0 (by decide)) (by decide)
  have held : Bytes.HoldUnits [0xD83D, 0x61] [0x3D, 0xD8, 0x61, 0] :=
    Bytes.holdUnits_iff.mpr (by decide)
  obtain ⟨writing, -, reading⟩ := texts_coded
  obtain ⟨w', written, index, -⟩ := writing "😀" ⟨Array.replicate 9 0, 2, 7, 1⟩
    (by decide) (by decide) (by decide)
  rw [units] at index
  exact ⟨⟨w', written, index⟩,
    (reading [0xD83D, 0x61] [2, 0] [0x3D, 0xD8, 0x61, 0] [9] 5 ⟨rfl, by decide⟩ held).2.2.2 alone⟩

end WireSchema
