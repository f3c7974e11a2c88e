import WireSchema.Proofs.Effect

/-!
Passing over a record against filling a field from it. The two begin at the same byte and are
defined separately, so they could part on some type of field. They do not: what can be filled can be
passed over and ends where it ends, whatever the field holds. What can be passed over may still fail
to fill, but only in a message that is filled where it stands, on bytes of its own frame, and with
the reader already behind them.
-/

namespace WireSchema

/-- A delimited read only ever moves ahead. -/
theorem Read.Delimited.ahead {α : Type} {step : Read α} (delimited : step.Delimited) {r r' : Reader}
    {a : α} (read : step.exec r = (.ok a, r')) : r.Ahead r' := by
  obtain ⟨bs, whole, gives, -⟩ := delimited r a r' read
  have after := gives r'.rest r.index
  rw [← whole, read, Prod.mk.injEq] at after
  exact ⟨bs, whole, congrArg Reader.index after.2⟩

namespace Schema

/-- Between two readers stands a record with a whole frame, and the message in the field, or a new
one where there is none, fails on the bytes of that frame. -/
inductive FailsInside (s : Schema) (fill : Fill) (f : Field) (old : Value) (e : DecodeError) :
    Reader → Reader → Prop
  | intro {mark count frame rest : List UInt8} {index : Nat} :
      f.isInline → f.Marks mark → Bytes.Hold 2 frame.length count →
      (fill f.typeName (old.values?.getD (s.defaultMessage f.typeName)) frame).1 = .error e →
      FailsInside s fill f old e ⟨mark ++ count ++ frame ++ rest, index⟩
        ⟨rest, index + (mark ++ count ++ frame).length⟩

section

variable {s : Schema} {fill : Fill} {f : Field} {old : Value} {r r' : Reader}

/-- A frame is brought by a record of a message that is held inside, and stands at its end. -/
theorem exists_of_deliver_frame {frame : List UInt8}
    (brought : (s.deliver fill f).exec r = (.ok (.frame frame), r')) :
    f.isInline ∧ ∃ mark count, f.Marks mark ∧ Bytes.Hold 2 frame.length count ∧
      r = ⟨mark ++ count ++ frame ++ r'.rest, r.index⟩ ∧
      r' = ⟨r'.rest, r.index + (mark ++ count ++ frame).length⟩ := by
  obtain ⟨taken, split, index⟩ := (s.delimited_deliver fill f).ahead brought
  by_cases held : f.isInline
  · have same : s.deliver fill f = s.deliver s.fill f := by
      rw [deliver, deliver, if_pos held, if_pos held]
    rw [same] at brought
    obtain ⟨body, rest, brings⟩ := exists_brings brought
    obtain rfl := List.append_cancel_right (split.symm.trans rest)
    cases brings with
    | frame _ marks counts =>
      refine ⟨held, _, _, marks, counts, ?_, ?_⟩
      · rw [← rest]
      · rw [← index]
  · rw [deliver, if_neg held, Read.exec_map] at brought
    generalize (s.readPayload fill f).exec r = reply at brought
    rcases reply with ⟨e | v, after⟩ <;> cases brought

/-- Nothing but a frame is refused, and a frame only by the message that takes it in. -/
theorem exists_of_accept_error {d : Delivery} {e : DecodeError}
    (refused : (s.accept fill f old d).1 = .error e) :
    ∃ frame, d = .frame frame ∧
      (fill f.typeName (old.values?.getD (s.defaultMessage f.typeName)) frame).1 = .error e := by
  cases d with
  | value v => cases refused
  | frame frame =>
    refine ⟨frame, rfl, ?_⟩
    rw [accept] at refused
    cases standing : old.values? with
    | some values =>
      rw [standing] at refused
      exact refused
    | none =>
      rw [standing] at refused
      rw [Option.getD_none]
      generalize fill f.typeName (s.defaultMessage f.typeName) frame = reply at refused ⊢
      rcases reply with ⟨e' | u, new⟩ <;> cases refused
      rfl

/-- Filling a field and passing over its record keep step, however messages take in their frames.
What fills the field is passed over to the same byte; what is passed over fills the field to the
same byte, or fails inside a frame that ends there; and what cannot be passed over fails alike and
leaves the field alone. -/
theorem populate_aligned_skip (admitted : s.admits f old) (fill : Fill) (r : Reader) :
    (∀ new r', s.populate fill f old r = (.ok (), new, r') →
      (s.skip fill f).exec r = (.ok (), r')) ∧
    (∀ r', (s.skip fill f).exec r = (.ok (), r') →
      (∃ new, s.populate fill f old r = (.ok (), new, r')) ∨
        ∃ e new, s.populate fill f old r = (.error e, new, r') ∧
          s.FailsInside fill f old e r r') ∧
    (∀ e r', (s.skip fill f).exec r = (.error e, r') →
      s.populate fill f old r = (.error e, old, r')) := by
  refine ⟨fun new r' => exec_skip_of_populate, fun r' passed => ?_,
    fun e r' => populate_of_exec_skip admitted⟩
  rw [exec_skip] at passed
  rcases brought : (s.deliver fill f).exec r with ⟨e | d, after⟩
  · rw [brought] at passed
    cases passed
  rw [brought] at passed
  cases passed
  have filled : s.populate fill f old r =
      ((s.accept fill f old d).1, (s.accept fill f old d).2, after) := by
    rw [populate_eq_deliver admitted, brought]
  cases outcome : (s.accept fill f old d).1 with
  | ok u => exact Or.inl ⟨_, by rw [filled, outcome]⟩
  | error e =>
    obtain ⟨frame, rfl, refused⟩ := exists_of_accept_error outcome
    obtain ⟨held, mark, count, marks, counts, before, behind⟩ := exists_of_deliver_frame brought
    refine Or.inr ⟨e, _, by rw [filled, outcome], ?_⟩
    rw [before, behind]
    exact .intro held marks counts refused

end

def scion : Field := ⟨.message, "Tree", "scion", 1, true, false, ⟨11, 3⟩⟩

/-- A scion with a colour that there is not can be passed over, and fails inside its frame. -/
theorem populate_aligned_skip_scion :
    nursery.admits scion (.message elm) ∧
      (nursery.skip nursery.fill scion).exec ⟨graftBytes.drop 10 ++ [7], 10⟩ =
        (.ok (), ⟨[7], 26⟩) ∧
      nursery.FailsInside nursery.fill scion (.message elm) (.unknownEnumValue "Hue" 9)
        ⟨graftBytes.drop 10 ++ [7], 10⟩ ⟨[7], 26⟩ := by
  have admitted : nursery.admits scion (.message elm) := by decide
  have passed : (nursery.skip nursery.fill scion).exec ⟨graftBytes.drop 10 ++ [7], 10⟩ =
      (.ok (), ⟨[7], 26⟩) := rfl
  have failed : (nursery.populate nursery.fill scion (.message elm)
      ⟨graftBytes.drop 10 ++ [7], 10⟩).1 = .error (.unknownEnumValue "Hue" 9) := rfl
  refine ⟨admitted, passed, ?_⟩
  obtain ⟨new, filled⟩ | ⟨e, new, stopped, inside⟩ :=
    (populate_aligned_skip admitted nursery.fill ⟨graftBytes.drop 10 ++ [7], 10⟩).2.1 _ passed
  · rw [filled] at failed
    cases failed
  · rw [stopped] at failed
    cases failed
    exact inside

end Schema

end WireSchema
