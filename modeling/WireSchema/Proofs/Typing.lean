import WireSchema.Proofs.Intake

/-!
What reading gives, from whatever bytes, is a value of the field that it is read for, if nested
messages that are taken in from a frame are messages of their types.
-/

namespace WireSchema

namespace Read

variable {α β : Type}

/-- Whatever the step gives has the property. -/
def Ensures (step : Read α) (P : α → Prop) : Prop :=
  ∀ r a r', step.exec r = (.ok a, r') → P a

theorem Ensures.pure {P : α → Prop} {a : α} (holds : P a) : (Pure.pure a : Read α).Ensures P := by
  intro r b r' read
  cases read
  exact holds

theorem ensures_throw (P : α → Prop) (e : DecodeError) : (throw e : Read α).Ensures P := by
  intro r a r' read
  cases read

/-- What the first read ensures may be used for the next. -/
theorem Ensures.bind {P : α → Prop} {Q : β → Prop} {step : Read α} {next : α → Read β}
    (first : step.Ensures P) (later : ∀ a, P a → (next a).Ensures Q) :
    (step >>= next).Ensures Q := by
  intro r b r' read
  rw [exec_bind] at read
  rcases given : step.exec r with ⟨e | a, between⟩
  · rw [given] at read
    cases read
  · rw [given] at read
    exact later a (first r a between given) between b r' read

theorem Ensures.map {P : α → Prop} {Q : β → Prop} {step : Read α} {g : α → β}
    (first : step.Ensures P) (holds : ∀ a, P a → Q (g a)) :
    (step >>= fun a => Pure.pure (g a)).Ensures Q :=
  first.bind fun a given => Ensures.pure (holds a given)

theorem ensures_true (step : Read α) : step.Ensures fun _ => True := fun _ _ _ _ => trivial

/-- What each read ensures holds of all items. -/
theorem ensures_times {P : α → Prop} {step : Read α} (each : step.Ensures P) (n : Nat)
    {acc : Array α} (before : ∀ a ∈ acc.toList, P a) :
    (times step n acc).Ensures fun items => ∀ a ∈ items.toList, P a := by
  induction n generalizing acc with
  | zero => exact Ensures.pure before
  | succ n ih =>
    refine each.bind ?_
    intro a holds
    apply ih
    rw [Array.toList_push]
    intro b member
    rcases List.mem_append.mp member with old | new
    · exact before b old
    · rw [List.mem_singleton.mp new]
      exact holds

theorem ensures_array {P : α → Prop} {step : Read α} (each : step.Ensures P) :
    (array step).Ensures fun items => ∀ a ∈ items, P a := by
  refine (ensures_true length).bind ?_
  intro count _
  exact (ensures_times each count (by simp)).map fun items all => all

theorem ensures_optional {P : α → Prop} {step : Read α} (present : step.Ensures P) :
    (optional step).Ensures fun item => ∀ a, item = some a → P a := by
  refine (ensures_true flag).bind ?_
  intro b _
  cases b with
  | false => exact Ensures.pure (by simp)
  | true => exact present.map fun a holds b same => Option.some.inj same ▸ holds

end Read

/-- A scalar is read with the type that was asked for. -/
theorem Scalar.ensures_read (p : Primitive) : (Scalar.read p).Ensures fun x => x.type = p := by
  cases p <;> exact (Read.ensures_true _).map fun _ _ => rfl

/-- A value of the field, or a frame if the field holds a message inside it. -/
def Delivery.Fits (s : Schema) (f : Field) : Delivery → Prop
  | .value v => s.admits f v
  | .frame _ => f.isInline

namespace Schema

/-- Messages that are built from a frame are messages of their types. -/
def Builds (s : Schema) (fill : Fill) : Prop :=
  ∀ name bytes values, fill name (s.defaultMessage name) bytes = (.ok (), values) →
    s.admitsAll (s.fieldsOf name) values

section

variable {s : Schema} {fill : Fill}

theorem admits_of_element {f : Field} {v : Value} (single : f.isArray = false)
    (admitted : s.admits f.element v) : s.admits f v := by
  cases v with
  | absent => cases admitted
  | array items => exact absurd admitted not_admits_element_array
  | scalar x => exact admits_scalar.mpr ⟨single, (admits_scalar.mp admitted).2⟩
  | enum n => exact admits_enum.mpr ⟨single, (admits_enum.mp admitted).2⟩
  | message values => exact admits_message.mpr ⟨single, (admits_message.mp admitted).2⟩

theorem admitsEach_of_forall_mem {f : Field} {items : List Value}
    (all : ∀ v ∈ items, s.admits f v) : s.admitsEach f items := by
  induction items with
  | nil => rfl
  | cons v vs ih =>
    rw [List.forall_mem_cons] at all
    exact admitsEach_cons.mpr ⟨all.1, ih all.2⟩

theorem ensures_readEnum (s : Schema) (name : String) :
    (s.readEnum name).Ensures fun n => (s.entriesOf name).any fun e => e.value == n := by
  refine (Read.ensures_true Read.uint32).bind ?_
  intro n _
  dsimp only
  split
  · rename_i known
    exact Read.Ensures.pure known
  · exact Read.ensures_throw _ _

theorem ensures_readMessage (builds : s.Builds fill) (name : String) :
    (s.readMessage fill name).Ensures fun values => s.admitsAll (s.fieldsOf name) values := by
  refine (Read.ensures_true Read.frame).bind ?_
  intro bytes _
  split
  · rename_i values built
    exact Read.Ensures.pure (builds name bytes values built)
  · exact Read.ensures_throw _ _

/-- An element is read with a value of its type. -/
theorem ensures_readElement (builds : s.Builds fill) (f : Field) :
    (s.readElement fill f).Ensures fun v => s.admits f.element v := by
  rw [readElement]
  split
  · rename_i p typed
    exact (Scalar.ensures_read p).map fun x same => admits_scalar.mpr ⟨rfl, by rw [same]; exact typed⟩
  · rename_i typed
    exact (ensures_readEnum s f.typeName).map fun n known => admits_enum.mpr ⟨rfl, typed, known⟩
  · rename_i typed
    exact (ensures_readMessage builds f.typeName).map fun values all =>
      admits_message.mpr ⟨rfl, typed, all⟩

theorem ensures_readPresent (builds : s.Builds fill) (f : Field) :
    (s.readPresent fill f).Ensures fun v => s.admits f v := by
  rw [readPresent]
  split
  · rename_i array
    exact (Read.ensures_array (ensures_readElement builds f)).map fun items all =>
      admits_array.mpr ⟨array, admitsEach_of_forall_mem all⟩
  · rename_i single
    intro r v r' read
    exact admits_of_element (by simpa using single) (ensures_readElement builds f r v r' read)

/-- A value that is read is one of its field. -/
theorem ensures_readPayload (builds : s.Builds fill) (f : Field) :
    (s.readPayload fill f).Ensures fun v => s.admits f v := by
  rw [readPayload]
  split
  · rename_i optional
    refine (Read.ensures_optional (ensures_readPresent builds f)).bind ?_
    intro item all
    cases item with
    | none => exact Read.Ensures.pure optional
    | some v => exact Read.Ensures.pure (all v rfl)
  · exact ensures_readPresent builds f

/-- What a record brings fits its field. -/
theorem ensures_deliver (builds : s.Builds fill) (f : Field) :
    (s.deliver fill f).Ensures (Delivery.Fits s f) := by
  rw [deliver]
  split
  · rename_i held
    split
    · rename_i optional
      refine (Read.ensures_true (Read.optional Read.frame)).bind ?_
      intro item _
      cases item with
      | none => exact Read.Ensures.pure optional
      | some bytes => exact Read.Ensures.pure held
    · exact (Read.ensures_true Read.frame).map fun _ _ => held
  · exact (ensures_readPayload builds f).map fun _ admitted => admitted

end

end Schema

end WireSchema
