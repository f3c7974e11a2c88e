import WireSchema.Proofs.Reading

/-!
What a record brings, apart from the value that it meets. Filling a field is a step that does not
look at the field's value, followed by a change of that value; passing over a record is the same step
with nothing changed. So the two take the same bytes, and the value never decides where reading goes.
-/

namespace WireSchema

theorem Read.exec_map {α β : Type} (step : Read α) (g : α → β) (r : Reader) :
    (step >>= fun a => pure (g a)).exec r = ((step.exec r).1.map g, (step.exec r).2) := by
  rw [exec_bind]
  rcases step.exec r with ⟨_ | a, r⟩ <;> rfl

/-- An optional is read by its flag first. -/
theorem Read.exec_optional {α : Type} (step : Read α) (r : Reader) :
    (optional step).exec r =
      match flag.exec r with
      | (.ok true, r) => ((step.exec r).1.map some, (step.exec r).2)
      | (.ok false, r) => (.ok none, r)
      | (.error e, r) => (.error e, r) := by
  rw [optional, exec_bind]
  rcases flag.exec r with ⟨_ | b, r⟩
  · rfl
  · cases b with
    | false => rfl
    | true => exact exec_map step some r

/-- Where a frame fills a message, it was read as a whole. -/
theorem Read.exec_frame_of_frameInto {α : Type} {fill : α → List UInt8 → Except DecodeError Unit × α}
    {message new : α} {r r' : Reader} (filled : frameInto fill message r = (.ok (), new, r')) :
    ∃ bytes, frame.exec r = (.ok bytes, r') := by
  rw [frameInto] at filled
  generalize frame.exec r = reply at *
  rcases reply with ⟨e | bytes, r⟩
  · cases filled
  · simp only [Prod.mk.injEq] at filled
    exact ⟨bytes, by rw [filled.2.2]⟩

theorem Read.exec_optional_of_optionalFrameInto {α : Type}
    {fill : α → List UInt8 → Except DecodeError Unit × α} {fresh : α} {message new : Option α}
    {r r' : Reader} (filled : optionalFrameInto fill fresh message r = (.ok (), new, r')) :
    ∃ bytes, (optional frame).exec r = (.ok bytes, r') := by
  rw [optionalFrameInto] at filled
  rw [exec_optional]
  generalize flag.exec r = flagged at *
  rcases flagged with ⟨e | b, r⟩
  · cases filled
  cases b with
  | false =>
    cases filled
    exact ⟨none, rfl⟩
  | true =>
    obtain ⟨bytes, framed⟩ : ∃ bytes, frame.exec r = (.ok bytes, r') := by
      cases message with
      | some old =>
        rcases into : frameInto fill old r with ⟨outcome, held, after⟩
        simp only [into, Prod.mk.injEq] at filled
        obtain ⟨rfl, -, rfl⟩ := filled
        exact exec_frame_of_frameInto into
      | none =>
        rcases into : frameInto fill fresh r with ⟨e | u, held, after⟩
        · simp only [into, reduceCtorEq, Prod.mk.injEq, false_and] at filled
        · simp only [into, Prod.mk.injEq, true_and] at filled
          rw [← filled.2]
          exact exec_frame_of_frameInto into
    exact ⟨some bytes, by simp only [framed]; rfl⟩

/-- What a record brings: a value in place of the old one, or the frame of a message that is filled
where it stands. -/
inductive Delivery where
  | value (v : Value)
  | frame (bytes : List UInt8)

namespace Schema

def deliver (s : Schema) (fill : Fill) (f : Field) : Read Delivery :=
  if f.isInline then
    if f.isOptional then do
      match ← Read.optional Read.frame with
      | some bytes => return .frame bytes
      | none => return .value .absent
    else return .frame (← Read.frame)
  else return .value (← s.readPayload fill f)

/-- What becomes of a field's value. A frame fills the message that is there, or a new one, which is
kept only if it is complete. -/
def accept (s : Schema) (fill : Fill) (f : Field) (old : Value) :
    Delivery → Except DecodeError Unit × Value
  | .value v => (.ok (), v)
  | .frame bytes =>
    match old.values? with
    | some values =>
      ((fill f.typeName values bytes).1, .message (fill f.typeName values bytes).2)
    | none =>
      match fill f.typeName (s.defaultMessage f.typeName) bytes with
      | (.ok (), values) => (.ok (), .message values)
      | (.error e, _) => (.error e, old)

section

variable {s : Schema} {fill : Fill} {f : Field}

/-- A field that holds a message inside it holds one, or nothing if it is optional. -/
theorem absent_or_message {v : Value} (held : f.isInline) (admitted : s.admits f v) :
    v = .absent ∧ f.isOptional ∨
      ∃ values, v = .message values ∧ s.admitsAll (s.fieldsOf f.typeName) values := by
  cases absent : v.isAbsent with
  | true =>
    obtain rfl := Value.eq_absent absent
    exact Or.inl ⟨rfl, admitted⟩
  | false => exact Or.inr (exists_message admitted absent held)

/-- Filling a field is reading what its record brings, and then changing the value. -/
theorem populate_eq_deliver {old : Value} (admitted : s.admits f old) (r : Reader) :
    s.populate fill f old r =
      match (s.deliver fill f).exec r with
      | (.ok d, r) => ((s.accept fill f old d).1, (s.accept fill f old d).2, r)
      | (.error e, r) => (.error e, old, r) := by
  rw [populate, deliver]
  by_cases held : f.isInline
  · rw [if_pos held, if_pos held]
    by_cases optional : f.isOptional
    · rw [if_pos optional, if_pos optional, Read.exec_bind, Read.exec_optional]
      simp only [Read.optionalFrameInto, Read.frameInto]
      rcases Read.flag.exec r with ⟨e | b, r⟩
      · obtain ⟨rfl, -⟩ | ⟨values, rfl, -⟩ := absent_or_message held admitted <;> rfl
      · cases b with
        | false => rfl
        | true =>
          dsimp only
          rcases Read.frame.exec r with ⟨e | bytes, r⟩
          · obtain ⟨rfl, -⟩ | ⟨values, rfl, -⟩ := absent_or_message held admitted <;> rfl
          · obtain ⟨rfl, -⟩ | ⟨values, rfl, -⟩ := absent_or_message held admitted
            · simp only [Value.values?, Except.map, Read.exec_pure, accept]
              rcases fill f.typeName (s.defaultMessage f.typeName) bytes with ⟨e | u, new⟩ <;> rfl
            · rfl
    · rw [if_neg optional, if_neg optional, Read.exec_map]
      obtain ⟨-, wrong⟩ | ⟨values, rfl, -⟩ := absent_or_message held admitted
      · exact absurd wrong optional
      · simp only [Read.frameInto]
        rcases Read.frame.exec r with ⟨e | bytes, r⟩ <;> rfl
  · rw [if_neg held, if_neg held, Read.exec_map]
    rcases (s.readPayload fill f).exec r with ⟨_ | v, r⟩ <;> rfl

/-- Passing over a record is reading what it brings. -/
theorem exec_skip (r : Reader) :
    (s.skip fill f).exec r =
      (((s.deliver fill f).exec r).1.map fun _ => (), ((s.deliver fill f).exec r).2) := by
  rw [skip, deliver]
  by_cases held : f.isInline
  · rw [if_pos held, if_pos held]
    by_cases optional : f.isOptional
    · rw [if_pos optional, if_pos optional, Read.exec_map, Read.exec_bind]
      rcases (Read.optional Read.frame).exec r with ⟨e | _ | bytes, r⟩ <;> rfl
    · rw [if_neg optional, if_neg optional, Read.exec_map, Read.exec_map]
      rcases Read.frame.exec r with ⟨e | bytes, r⟩ <;> rfl
  · rw [if_neg held, if_neg held, Read.exec_map, Read.exec_map]
    rcases (s.readPayload fill f).exec r with ⟨e | v, r⟩ <;> rfl

/-- Where a record fills its field, what it brings was read as a whole. -/
theorem exec_deliver_of_populate {old v : Value} {r r' : Reader}
    (filled : s.populate fill f old r = (.ok (), v, r')) :
    ∃ d, (s.deliver fill f).exec r = (.ok d, r') := by
  rw [populate] at filled
  rw [deliver]
  by_cases held : f.isInline
  · rw [if_pos held] at filled ⊢
    by_cases optional : f.isOptional
    · rw [if_pos optional] at filled ⊢
      rcases into : Read.optionalFrameInto (fill f.typeName) (s.defaultMessage f.typeName)
        old.values? r with ⟨outcome, values, after⟩
      simp only [into, Prod.mk.injEq] at filled
      obtain ⟨rfl, -, rfl⟩ := filled
      obtain ⟨bytes, read⟩ := Read.exec_optional_of_optionalFrameInto into
      rw [Read.exec_bind, read]
      cases bytes <;> exact ⟨_, rfl⟩
    · rw [if_neg optional] at filled ⊢
      rcases into : Read.frameInto (fill f.typeName) (old.values?.getD []) r with
        ⟨outcome, values, after⟩
      simp only [into, Prod.mk.injEq] at filled
      obtain ⟨rfl, -, rfl⟩ := filled
      obtain ⟨bytes, read⟩ := Read.exec_frame_of_frameInto into
      rw [Read.exec_map, read]
      exact ⟨_, rfl⟩
  · rw [if_neg held] at filled ⊢
    rw [Read.exec_map]
    generalize (s.readPayload fill f).exec r = reply at *
    rcases reply with ⟨e | v, r⟩ <;> cases filled
    exact ⟨_, rfl⟩

/-- Where a record fills its field, passing over it takes the same bytes. -/
theorem exec_skip_of_populate {old v : Value} {r r' : Reader}
    (filled : s.populate fill f old r = (.ok (), v, r')) :
    (s.skip fill f).exec r = (.ok (), r') := by
  obtain ⟨d, read⟩ := exec_deliver_of_populate filled
  rw [exec_skip, read]
  rfl

/-- Where a record cannot even be passed over, it leaves its field alone. -/
theorem populate_of_exec_skip {old : Value} {e : DecodeError} {r r' : Reader}
    (admitted : s.admits f old) (failed : (s.skip fill f).exec r = (.error e, r')) :
    s.populate fill f old r = (.error e, old, r') := by
  rw [populate_eq_deliver admitted]
  rw [exec_skip] at failed
  generalize (s.deliver fill f).exec r = reply at *
  rcases reply with ⟨e | d, r⟩ <;> cases failed
  rfl

end

end Schema

end WireSchema
