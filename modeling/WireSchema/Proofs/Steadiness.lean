import WireSchema.Proofs.Delimited
import WireSchema.Proofs.RoundTrip
import WireSchema.Proofs.Typing

/-!
How reading depends on the message that is read into. The values never decide where reading goes, so
all messages of a type meet the same end with the same bytes. A message that has been read into holds
what the bytes say, and reading them again leaves it as it is.
-/

namespace WireSchema

namespace Schema

/-- Taking in a frame ends alike for all messages of a type. What has taken it in is a message of the
type, and does not change when it takes the frame in again. -/
structure Steady (s : Schema) (fill : Fill) : Prop where
  same : ∀ name bytes v w, s.admitsAll (s.fieldsOf name) v → s.admitsAll (s.fieldsOf name) w →
    (fill name v bytes).1 = (fill name w bytes).1
  admits : ∀ name bytes v new, s.admitsAll (s.fieldsOf name) v →
    fill name v bytes = (.ok (), new) → s.admitsAll (s.fieldsOf name) new
  again : ∀ name bytes v new, s.admitsAll (s.fieldsOf name) v →
    fill name v bytes = (.ok (), new) → fill name new bytes = (.ok (), new)

/-- Whether a field takes what a record brings, whatever value it has. -/
def verdict (s : Schema) (fill : Fill) (f : Field) : Delivery → Except DecodeError Unit
  | .value _ => .ok ()
  | .frame bytes => (fill f.typeName (s.defaultMessage f.typeName) bytes).1

/-- A record turns values of its field into such values, and a second time not at all. -/
def Fixes (s : Schema) (r : Record) : Prop :=
  ∀ old, s.admits r.field old →
    s.admits r.field (r.turn old) ∧ r.turn (r.turn old) = r.turn old

section

variable {s : Schema} {fill : Fill} {f : Field} {old : Value} {d : Delivery}

theorem Steady.builds (steady : s.Steady fill) (grounded : s.Grounded) : s.Builds fill :=
  fun name bytes values built => steady.admits name bytes _ values (grounded name).1 built

/-- A frame fills a message: the one that stands there, or the default. -/
theorem exists_standing (grounded : s.Grounded) (fill : Fill) (admitted : s.admits f old)
    (bytes : List UInt8) :
    ∃ values, s.admitsAll (s.fieldsOf f.typeName) values ∧
      (s.accept fill f old (.frame bytes)).1 = (fill f.typeName values bytes).1 ∧
      ∀ new, fill f.typeName values bytes = (.ok (), new) →
        s.accept fill f old (.frame bytes) = (.ok (), .message new) := by
  cases standing : old.values? with
  | some values =>
    cases old with
    | message held =>
      cases standing
      refine ⟨values, (admits_message.mp admitted).2.2, rfl, fun new filled => ?_⟩
      simp only [accept, Value.values?, filled]
    | _ => cases standing
  | none =>
    refine ⟨s.defaultMessage f.typeName, (grounded f.typeName).1, ?_, fun new filled => ?_⟩
    · simp only [accept, standing]
      rcases fill f.typeName (s.defaultMessage f.typeName) bytes with ⟨e | u, new⟩ <;> rfl
    · simp only [accept, standing, filled]

/-- The value of a field has no part in whether it takes what a record brings. -/
theorem accept_fst (steady : s.Steady fill) (grounded : s.Grounded) (admitted : s.admits f old)
    (d : Delivery) : (s.accept fill f old d).1 = s.verdict fill f d := by
  cases d with
  | value v => rfl
  | frame bytes =>
    obtain ⟨values, inner, outcome, -⟩ := exists_standing grounded fill admitted bytes
    rw [outcome]
    exact steady.same f.typeName bytes _ _ inner (grounded f.typeName).1

/-- What a record brings fixes the value of its field. -/
theorem fixes_accept (steady : s.Steady fill) (grounded : s.Grounded) (fits : d.Fits s f)
    (taken : s.verdict fill f d = .ok ()) (body : List UInt8) :
    s.Fixes ⟨f, body, fun old => (s.accept fill f old d).2⟩ := by
  intro old admitted
  cases d with
  | value v => exact ⟨fits, rfl⟩
  | frame bytes =>
    obtain ⟨values, inner, outcome, filled⟩ := exists_standing grounded fill admitted bytes
    rw [accept_fst steady grounded admitted, taken] at outcome
    obtain ⟨new, built⟩ : ∃ new, fill f.typeName values bytes = (.ok (), new) :=
      ⟨_, Prod.ext outcome.symm rfl⟩
    have marks : f.isArray = false ∧ f.type = .message := by
      simpa [Delivery.Fits, Field.isInline] using fits
    have kept := steady.again f.typeName bytes values new inner built
    simp only [filled new built]
    refine ⟨admits_message.mpr ⟨marks.1, marks.2,
      steady.admits f.typeName bytes values new inner built⟩, ?_⟩
    simp only [accept, Value.values?, kept]

end

end Schema

/-- What decides where reading goes: the field, and whether it has had a record. -/
def Slot.shape (slot : Slot) : Field × Bool := (slot.field, slot.seen)

namespace Slot

theorem exists_of_shape {slots : List Slot} {f : Field} {seen : Bool}
    (inside : (f, seen) ∈ slots.map shape) : ∃ v, ⟨f, v, seen⟩ ∈ slots := by
  obtain ⟨⟨_, v, _⟩, member, equal⟩ := List.mem_map.mp inside
  cases equal
  exact ⟨v, member⟩

def shapesAfter (r : Record) (shapes : List (Field × Bool)) : List (Field × Bool) :=
  shapes.map fun p => if p.1.id = r.field.id then (p.1, true) else p

theorem fields_shapesAfter (r : Record) (shapes : List (Field × Bool)) :
    (shapesAfter r shapes).map Prod.fst = shapes.map Prod.fst := by
  rw [shapesAfter, List.map_map]
  refine List.map_congr_left fun p _ => ?_
  rw [Function.comp_apply]
  split <;> rfl

/-- What a record does to the shapes of slots does not depend on their values. -/
theorem shapes_follow (r : Record) (slots : List Slot) :
    (slots.map (follow r)).map shape = shapesAfter r (slots.map shape) := by
  rw [shapesAfter, List.map_map, List.map_map]
  refine List.map_congr_left fun slot _ => ?_
  rw [Function.comp_apply, Function.comp_apply]
  by_cases same : slot.field.id = r.field.id
  · rw [if_pos (show slot.shape.1.id = r.field.id from same)]
    cases seen : slot.seen with
    | true => rw [follow_of_seen seen, shape, seen]
    | false => rw [follow_of_unseen same seen, shape, shape]
  · rw [if_neg (show ¬ slot.shape.1.id = r.field.id from same), follow_of_ne same]

theorem shapes_ofValues {s : Schema} {fields : List Field} {values : List Value}
    (admitted : s.admitsAll fields values) :
    (ofValues fields values).map shape = fields.map fun f => (f, false) := by
  have unseen : (ofValues fields values).map shape =
      ((ofValues fields values).map Slot.field).map fun f => (f, false) := by
    rw [List.map_map]
    exact List.map_congr_left fun slot member => Prod.ext rfl (seen_of_mem_ofValues member)
  rw [unseen, fields_ofValues admitted]

/-- Records leave a field alone, or one of them turns whatever it holds. -/
theorem exists_followAll (rs : List Record) (f : Field) :
    (∀ v, followAll rs ⟨f, v, false⟩ = ⟨f, v, false⟩) ∨
      ∃ r ∈ rs, r.field.id = f.id ∧ ∀ v, followAll rs ⟨f, v, false⟩ = ⟨f, r.turn v, true⟩ := by
  induction rs with
  | nil => exact Or.inl fun _ => rfl
  | cons r rs ih =>
    by_cases same : f.id = r.field.id
    · refine Or.inr ⟨r, List.mem_cons_self, same.symm, fun v => ?_⟩
      rw [followAll_cons, follow_of_unseen same rfl]
      exact followAll_of_seen rfl
    · have pass (v : Value) : followAll (r :: rs) ⟨f, v, false⟩ = followAll rs ⟨f, v, false⟩ := by
        rw [followAll_cons, follow_of_ne same]
      rcases ih with left | ⟨q, member, own, turned⟩
      · exact Or.inl fun v => by rw [pass, left]
      · exact Or.inr ⟨q, List.mem_cons_of_mem _ member, own, fun v => by rw [pass, turned]⟩

end Slot

namespace Schema

/-- What a record does to slots of one shape, whatever their values. -/
inductive Reception (s : Schema) (fill : Fill) (id : UInt16) (shape : List (Field × Bool))
    (q : Reader) : Prop
  | unknown (each : ∀ slots, slots.map Slot.shape = shape → s.readRecord fill id slots q = none)
  | failed (e : DecodeError) (q' : Reader)
      (each : ∀ slots, slots.map Slot.shape = shape → s.Ready slots →
        ∃ left, s.readRecord fill id slots q = some (.error e, left, q'))
  | passed (q' : Reader)
      (each : ∀ slots, slots.map Slot.shape = shape → s.Ready slots →
        s.readRecord fill id slots q = some (.ok (), slots, q'))
  | filled (r : Record) (q' : Reader) (known : r.field ∈ shape.map Prod.fst) (fixes : s.Fixes r)
      (each : ∀ slots, slots.map Slot.shape = shape → s.Ready slots →
        s.readRecord fill id slots q = some (.ok (), slots.map (Slot.follow r), q'))

/-- What a run of the read loop does to slots of one shape, whatever their values. -/
structure Course (s : Schema) (fuel : Nat) (shape : List (Field × Bool)) (r : Reader)
    (outcome : Except DecodeError Unit) (rs : List Record) (r' : Reader) : Prop where
  fixes : ∀ q ∈ rs, q.field ∈ shape.map Prod.fst ∧ s.Fixes q
  run : ∀ slots, slots.map Slot.shape = shape → s.Ready slots →
    ∃ left, s.readRecords fuel slots r = (outcome, left, r') ∧
      (outcome = .ok () → left = slots.map (Slot.followAll rs))

section

variable {s : Schema} {fill : Fill}

/-- What is brought to a field that takes it is a record that turns and fixes its value. -/
theorem exists_turns (steady : s.Steady fill) (grounded : s.Grounded) {f : Field} {d : Delivery}
    {q q' : Reader} (brought : (s.deliver fill f).exec q = (.ok d, q'))
    (taken : s.verdict fill f d = .ok ()) :
    ∃ r : Record, r.field = f ∧ s.Turns fill r ∧ s.Fixes r ∧
      q = ⟨r.body ++ q'.rest, q.index⟩ ∧ q' = ⟨q'.rest, q.index + r.body.length⟩ := by
  obtain ⟨bs, whole, gives, -⟩ := s.delimited_deliver fill f q d q' brought
  have fits := ensures_deliver (steady.builds grounded) f q d q' brought
  have turns := turns_of_gives gives fun old admitted =>
    (accept_fst steady grounded admitted d).trans taken
  have reader : q = ⟨bs ++ q'.rest, q.index⟩ := by rw [← whole]
  have after := gives q'.rest q.index
  rw [← reader, brought, Prod.mk.injEq] at after
  exact ⟨_, rfl, turns, fixes_accept steady grounded fits taken bs, reader, after.2⟩

/-- Nothing but the bytes, the fields and which of them have had a record decides what becomes of a
record. -/
theorem reception (steady : s.Steady fill) (grounded : s.Grounded) (id : UInt16)
    (shape : List (Field × Bool)) (q : Reader) : s.Reception fill id shape q := by
  by_cases known : ∃ p ∈ shape, p.1.id = id
  · obtain ⟨⟨f, seen⟩, inside, rfl⟩ := known
    have find {slots : List Slot} (same : slots.map Slot.shape = shape) :
        ∃ v, ⟨f, v, seen⟩ ∈ slots := Slot.exists_of_shape (same ▸ inside)
    rcases brought : (s.deliver fill f).exec q with ⟨e | d, q'⟩
    · refine .failed e q' fun slots same ready => ⟨slots, ?_⟩
      obtain ⟨v, member⟩ := find same
      exact readRecord_of_exec_skip ready (List.mem_map.mpr ⟨_, member, rfl⟩)
        (by rw [exec_skip, brought]; rfl)
    cases seen with
    | true =>
      refine .passed q' fun slots same ready => ?_
      obtain ⟨v, member⟩ := find same
      apply readRecord_of_kept ready member
      simp only [readSlot, if_true, exec_skip, brought, Except.map]
    | false =>
      cases taken : s.verdict fill f d with
      | error e =>
        refine .failed e q' fun slots same ready => ?_
        obtain ⟨v, member⟩ := find same
        have admitted := ready.admitted _ member rfl
        have refused : s.readSlot fill ⟨f, v, false⟩ q =
            (.error e, ⟨f, (s.accept fill f v d).2, false⟩, q') := by
          simp only [readSlot, Bool.false_eq_true, if_false, populate_eq_deliver admitted, brought,
            accept_fst steady grounded admitted, taken]
        exact exists_readRecord ready member refused
      | ok u =>
        obtain ⟨r, rfl, turns, fixes, before, after⟩ := exists_turns steady grounded brought taken
        refine .filled r q' (List.mem_map.mpr ⟨_, inside, rfl⟩) fixes fun slots same ready => ?_
        obtain ⟨v, member⟩ := find same
        rw [before, after]
        exact readRecord_eq turns ready (List.mem_map.mpr ⟨_, member, rfl⟩) q'.rest q.index
  · refine .unknown fun slots same => readRecord_eq_none ?_ q
    intro slot member equal
    exact known ⟨slot.shape, same ▸ List.mem_map.mpr ⟨slot, member, rfl⟩, equal⟩

/-- Where reading stops at once, no record is followed. -/
theorem Course.stop {fuel : Nat} {shape : List (Field × Bool)} {r : Reader}
    (ends : ∀ slots, slots.map Slot.shape = shape → s.readRecords fuel slots r = (.ok (), slots, r)) :
    s.Course fuel shape r (.ok ()) [] r where
  fixes := by simp
  run := fun slots same _ => ⟨slots, ends slots same, fun _ => (List.map_id slots).symm⟩

theorem Course.fail {fuel : Nat} {shape : List (Field × Bool)} {r r' : Reader} {e : DecodeError}
    (ends : ∀ slots, slots.map Slot.shape = shape → s.Ready slots →
      ∃ left, s.readRecords fuel slots r = (.error e, left, r')) :
    s.Course fuel shape r (.error e) [] r' where
  fixes := by simp
  run := by
    intro slots same ready
    obtain ⟨left, read⟩ := ends slots same ready
    exact ⟨left, read, fun wrong => by cases wrong⟩

/-- A run of the read loop takes one course with all slots of a shape. -/
theorem exists_course (grounded : s.Grounded) {fuel : Nat}
    (steady : ∀ n < fuel, s.Steady (s.fillTo n)) (shape : List (Field × Bool)) (r : Reader) :
    ∃ outcome rs r', s.Course fuel shape r outcome rs r' := by
  -- The records behind the first are read with one turn less, and so are the frames inside it.
  induction fuel generalizing shape r with
  | zero => exact ⟨_, _, _, Course.stop fun slots _ => rfl⟩
  | succ fuel ih =>
    replace ih := ih fun n small => steady n (by omega)
    by_cases short : r.remaining ≤ 2
    · exact ⟨_, _, _, Course.stop fun slots _ => readRecords_of_short _ _ short⟩
    have every {slots : List Slot} (same : slots.map Slot.shape = shape) :
        slots.all Slot.seen = shape.all Prod.snd := by
      rw [← same, List.all_map]
      rfl
    by_cases seen : shape.all Prod.snd
    · exact ⟨_, _, _, Course.stop fun slots same => readRecords_of_seen _ (every same ▸ seen) r⟩
    obtain ⟨low, high, next, more, long⟩ := Reader.exists_more (Nat.lt_of_not_le short)
    have turn {slots : List Slot} (same : slots.map Slot.shape = shape) := by
      have step := s.readRecords_succ fuel slots low high next more r.index
      rwa [← long, if_neg (every same ▸ seen)] at step
    cases reception (steady fuel (Nat.lt_succ_self fuel)) grounded
      (Bytes.toNat [low, high]).toUInt16 shape ⟨next :: more, r.index + 2⟩ with
    | unknown each =>
      refine ⟨.error (.unknownField (Bytes.toNat [low, high]).toUInt16 r.index), [],
        ⟨next :: more, r.index + 2⟩, Course.fail fun slots same _ => ⟨slots, ?_⟩⟩
      rw [turn same, each slots same]
    | failed e q' each =>
      refine ⟨.error e, [], q', Course.fail fun slots same ready => ?_⟩
      obtain ⟨left, read⟩ := each slots same ready
      exact ⟨left, by rw [turn same, read]⟩
    | passed q' each =>
      obtain ⟨outcome, rs, r', later⟩ := ih shape q'
      refine ⟨outcome, rs, r', later.fixes, fun slots same ready => ?_⟩
      rw [turn same, each slots same ready]
      exact later.run slots same ready
    | filled q q' known fixes each =>
      obtain ⟨outcome, rs, r', later⟩ := ih (Slot.shapesAfter q shape) q'
      refine ⟨outcome, q :: rs, r', ?_, fun slots same ready => ?_⟩
      · have fixed := later.fixes
        rw [Slot.fields_shapesAfter] at fixed
        exact List.forall_mem_cons.mpr ⟨⟨known, fixes⟩, fixed⟩
      · obtain ⟨left, read, filled⟩ := later.run (slots.map (Slot.follow q))
          (by rw [Slot.shapes_follow, same]) (ready.follow q)
        rw [turn same, each slots same ready]
        refine ⟨left, read, fun done => ?_⟩
        rw [filled done, List.map_map]
        rfl

/-- A change of single values that fixes each of them fixes a message. -/
theorem zipWith_fixed {fields : List Field} {change : Field → Value → Value}
    (each : ∀ f ∈ fields, ∀ v, s.admits f v →
      s.admits f (change f v) ∧ change f (change f v) = change f v)
    {values : List Value} (admitted : s.admitsAll fields values) :
    s.admitsAll fields (List.zipWith change fields values) ∧
      List.zipWith change fields (List.zipWith change fields values) =
        List.zipWith change fields values := by
  induction fields generalizing values with
  | nil => exact ⟨rfl, rfl⟩
  | cons f fs ih =>
    cases values with
    | nil => cases admitted
    | cons v vs =>
      rw [List.forall_mem_cons] at each
      have both := admitsAll_cons.mp admitted
      obtain ⟨fits, fixed⟩ := each.1 v both.1
      obtain ⟨fitsLater, fixedLater⟩ := ih each.2 both.2
      rw [List.zipWith_cons_cons, List.zipWith_cons_cons, fixed, fixedLater]
      exact ⟨admitsAll_cons.mpr ⟨fits, fitsLater⟩, rfl⟩

/-- Records that fix the values of their fields fix each field. -/
theorem followAll_fixed {fields : List Field} (distinct : (fields.map Field.id).Nodup)
    {rs : List Record} (fixes : ∀ r ∈ rs, r.field ∈ fields ∧ s.Fixes r) :
    ∀ f ∈ fields, ∀ v, s.admits f v →
      s.admits f (Slot.followAll rs ⟨f, v, false⟩).value ∧
        (Slot.followAll rs ⟨f, (Slot.followAll rs ⟨f, v, false⟩).value, false⟩).value =
          (Slot.followAll rs ⟨f, v, false⟩).value := by
  intro f member v admitted
  rcases Slot.exists_followAll rs f with left | ⟨r, inside, same, turned⟩
  · rw [left, left]
    exact ⟨admitted, rfl⟩
  · obtain ⟨known, fixed⟩ := fixes r inside
    obtain rfl := List.inj_on_of_nodup_map distinct known member same
    rw [turned, turned]
    exact fixed v admitted

/-- Reading has one outcome for all messages of a type. What is read into is a message of the type
then, and reading the same bytes again leaves it as it is. -/
theorem exists_reading (grounded : s.Grounded) {fuel : Nat}
    (steady : ∀ n < fuel, s.Steady (s.fillTo n)) {fields : List Field}
    (distinct : (fields.map Field.id).Nodup) (r : Reader) :
    ∃ outcome r', ∀ v, s.admitsAll fields v →
      ∃ slots, s.readRecords fuel (Slot.ofValues fields v) r = (outcome, slots, r') ∧
        (outcome = .ok () → s.admitsAll fields (slots.map Slot.value) ∧
          ∃ last, s.readRecords fuel (Slot.ofValues fields (slots.map Slot.value)) r =
              (.ok (), last, r') ∧
            last.map Slot.value = slots.map Slot.value) := by
  obtain ⟨outcome, rs, r', fixes, run⟩ := exists_course grounded steady
    (fields.map fun f => (f, false)) r
  have known : (fields.map fun f => (f, false)).map Prod.fst = fields := by
    rw [List.map_map]
    exact List.map_id fields
  rw [known] at fixes
  have change (v : List Value) : ((Slot.ofValues fields v).map (Slot.followAll rs)).map Slot.value =
      List.zipWith (fun f v => (Slot.followAll rs ⟨f, v, false⟩).value) fields v := by
    rw [Slot.ofValues, List.map_zipWith, List.map_zipWith]
  refine ⟨outcome, r', fun v start => ?_⟩
  obtain ⟨slots, read, filled⟩ := run _ (Slot.shapes_ofValues start) (ready_ofValues distinct start)
  refine ⟨slots, read, fun done => ?_⟩
  obtain ⟨admitted, fixed⟩ := zipWith_fixed (followAll_fixed distinct fixes) start
  rw [filled done, change]
  obtain ⟨last, again, refilled⟩ := run _ (Slot.shapes_ofValues admitted)
    (ready_ofValues distinct admitted)
  refine ⟨admitted, last, done ▸ again, ?_⟩
  rw [refilled done, change, fixed]

end

/-- Nested messages take in frames steadily at every depth. -/
theorem Readable.steady {s : Schema} (readable : s.Readable) (n : Nat) :
    s.Steady (s.fillTo n) := by
  induction n using Nat.strongRecOn with
  | _ n ih =>
    have reading (name : String) (bytes : List UInt8) := exists_reading readable.grounded ih
      (readable.distinct name) (Reader.ofBytes bytes)
    constructor
    · intro name bytes v w start other
      obtain ⟨outcome, r', read⟩ := reading name bytes
      obtain ⟨slots, first, -⟩ := read v start
      obtain ⟨slots', second, -⟩ := read w other
      rw [fillTo, fillTo, first, second]
    · intro name bytes v new start filled
      obtain ⟨outcome, r', read⟩ := reading name bytes
      obtain ⟨slots, first, fixed⟩ := read v start
      rw [fillTo, first, Prod.mk.injEq] at filled
      rw [← filled.2]
      exact (fixed filled.1).1
    · intro name bytes v new start filled
      obtain ⟨outcome, r', read⟩ := reading name bytes
      obtain ⟨slots, first, fixed⟩ := read v start
      rw [fillTo, first, Prod.mk.injEq] at filled
      obtain ⟨-, last, again, same⟩ := fixed filled.1
      rw [← filled.2, fillTo, again]
      simp only [same]

section

variable {tokens : List Token} {s : Schema} {d : Definition} {v w : List Value}

/-- Reading a range of bytes ends alike for all messages of a type. A message that they were read into
is left as it is when they are read into it again, and as many bytes are taken. -/
theorem unpack_steady (accepted : ofTokens tokens = .ok s) (member : d ∈ s.definitions)
    (start : s.admitsAll d.fields v) (other : s.admitsAll d.fields w) (data : List UInt8)
    (offset length : Nat) :
    (s.unpack d.fields v data offset length).1 = (s.unpack d.fields w data offset length).1 ∧
      ∀ n final, s.unpack d.fields v data offset length = (.ok n, final) →
        s.unpack d.fields final data offset length = (.ok n, final) := by
  have lawful := lawful_of_ofTokens accepted
  have readable := lawful.readable (bound_of_ofTokens accepted)
  have distinct := (lawful.bodies d member).ids
  simp only [unpack]
  cases Reader.ofRange data offset length with
  | error e => exact ⟨rfl, fun n final wrong => by cases wrong⟩
  | ok r =>
    obtain ⟨outcome, r', read⟩ := exists_reading readable.grounded
      (fun n (_ : n < r.remaining) => readable.steady n) distinct r
    obtain ⟨slots, first, fixed⟩ := read v start
    obtain ⟨slots', second, -⟩ := read w other
    simp only [readFields, first, second, true_and]
    intro n final unpacked
    rw [Prod.mk.injEq] at unpacked
    obtain ⟨counted, rfl⟩ := unpacked
    cases outcome with
    | error e => cases counted
    | ok u =>
      obtain ⟨-, last, again, same⟩ := fixed rfl
      rw [again, same]
      exact congrArg (·, _) counted

/-- The bytes of `oak` are read into `elm`, which has no colour, and into what they make of it. -/
theorem unpack_steady_oak :
    ofTokens forestTokens = .ok forest ∧ forest.admitsAll treeFields elm ∧
      (forest.unpack treeFields elm oakBytes.toList 0 59).1 =
        (forest.unpack treeFields oak oakBytes.toList 0 59).1 ∧
      forest.unpack treeFields elm oakBytes.toList 0 59 = (.ok 59, oak) ∧
      forest.unpack treeFields oak oakBytes.toList 0 59 = (.ok 59, oak) := by
  have start : forest.admitsAll treeFields elm := by decide
  have size : oakBytes.size = 59 := rfl
  have left : Value.ontoAll oak elm = oak := rfl
  have read := unpack_records (d := ⟨"Tree", ⟨3, 9⟩, .message treeFields⟩) forest_accepted
    (by decide) admitsAll_oak serialize_oak start (List.Perm.refl _)
  rw [Definition.fields, (records_of_serialize admitsAll_oak serialize_oak).1, size, left] at read
  obtain ⟨same, again⟩ := unpack_steady (d := ⟨"Tree", ⟨3, 9⟩, .message treeFields⟩) forest_accepted
    (by decide) start admitsAll_oak oakBytes.toList 0 59
  exact ⟨forest_accepted, start, same, read, again 59 oak read⟩

end

end Schema

end WireSchema
