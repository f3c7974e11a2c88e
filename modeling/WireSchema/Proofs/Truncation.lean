import WireSchema.Proofs.Fuel
import WireSchema.Proofs.RoundTrip

/-!
Messages that were cut off. Reading the first bytes of a message takes in the records that are whole.
Of the one that was cut, an id or less is not noticed; any more of it makes reading fail, and only for
want of bytes, wherever the cut fell.
-/

namespace WireSchema

/-- The records, from the first on, that fit whole into `n` bytes. -/
def wholeRecords : Nat → List (List UInt8) → List (List UInt8)
  | _, [] => []
  | n, r :: rs => if r.length ≤ n then r :: wholeRecords (n - r.length) rs else []

theorem wholeRecords_split {n : Nat} {records : List (List UInt8)}
    (short : n < records.flatten.length) :
    ∃ r after, records = wholeRecords n records ++ r :: after ∧
      (wholeRecords n records).flatten.length ≤ n ∧
      n < (wholeRecords n records).flatten.length + r.length := by
  induction records generalizing n with
  | nil => simp at short
  | cons r rs ih =>
    rw [List.flatten_cons, List.length_append] at short
    rw [wholeRecords]
    split
    · obtain ⟨q, after, split, fits, cut⟩ := ih (n := n - r.length) (by omega)
      rw [List.flatten_cons, List.length_append]
      exact ⟨q, after, congrArg (r :: ·) split, by omega, by omega⟩
    · exact ⟨r, rs, rfl, Nat.zero_le n, show n < 0 + r.length by omega⟩

/-- The first bytes are those of the whole records and a part of the next. -/
theorem take_flatten {n : Nat} {before after : List (List UInt8)} {r : List UInt8}
    (fits : before.flatten.length ≤ n) (cut : n < before.flatten.length + r.length) :
    (before ++ r :: after).flatten.take n = before.flatten ++ r.take (n - before.flatten.length) := by
  rw [List.flatten_append, List.flatten_cons, List.take_append, List.take_of_length_le fits,
    List.take_append_of_le_length (by omega)]

namespace Value

/-- The first `k` values of `new` that are there, and for the other fields the values of `old`. -/
def firstOf : Nat → List Value → List Value → List Value
  | k + 1, v :: vs, w :: ws =>
    if v.isAbsent then w :: firstOf (k + 1) vs ws else v :: firstOf k vs ws
  | _, _, old => old

@[simp] theorem firstOf_zero (new old : List Value) : firstOf 0 new old = old := by
  rw [firstOf]
  simp

/-- A message keeps its number of values. -/
theorem length_firstOf (k : Nat) (new old : List Value) : (firstOf k new old).length = old.length := by
  fun_induction firstOf k new old with
  | case1 k v vs w ws absent ih => simp [ih]
  | case2 k v vs w ws present ih => simp [ih]
  | case3 => rfl

/-- The records of the first values that are there are the first records. -/
theorem present_firstOf (k : Nat) (fields : List Field) (values : List Value) :
    present fields (firstOf k values (values.map fun _ => .absent)) =
      (present fields values).take k := by
  have none (fields : List Field) (values : List Value) :
      present fields (values.map fun _ => .absent) = [] := by
    rw [present, List.filter_eq_nil_iff]
    intro r member
    obtain ⟨v, -, absent⟩ := List.mem_map.mp (List.of_mem_zip member).2
    simp [← absent, isAbsent]
  induction fields generalizing k values with
  | nil => simp [present]
  | cons f fs ih =>
    cases k with
    | zero => rw [firstOf_zero, none, List.take_zero]
    | succ k =>
      cases values with
      | nil => rfl
      | cons v vs =>
        rw [List.map_cons, firstOf]
        split
        · rename_i absent
          rw [present_cons, present_cons, if_pos absent, ← ih]
          rfl
        · rename_i there
          rw [present_cons, if_neg there, present_cons, if_neg there, ih, List.take_succ_cons]

/-- Where values replace the old ones, so do the first of them. -/
theorem ontoAll_firstOf {new old : List Value} (replaced : ontoAll new old = new)
    (sized : new.length = old.length) (k : Nat) :
    ontoAll (firstOf k new (new.map fun _ => .absent)) old = firstOf k new old := by
  have none (new old : List Value) (sized : new.length = old.length) :
      ontoAll (new.map fun _ => .absent) old = old := by
    induction new generalizing old with
    | nil =>
      cases old with
      | nil => rfl
      | cons w ws => cases sized
    | cons v vs ih =>
      cases old with
      | nil => cases sized
      | cons w ws => rw [List.map_cons, ontoAll, ih ws (Nat.succ.inj sized), onto]
  induction new generalizing old k with
  | nil =>
    cases old with
    | nil => cases k <;> rfl
    | cons w ws => cases sized
  | cons v vs ih =>
    cases old with
    | nil => cases sized
    | cons w ws =>
      cases k with
      | zero => rw [firstOf_zero, firstOf_zero, none _ _ sized]
      | succ k =>
        rw [ontoAll, List.cons.injEq] at replaced
        rw [List.map_cons, firstOf, firstOf]
        split
        · rw [ontoAll, ih replaced.2 (Nat.succ.inj sized), onto]
        · rw [ontoAll, ih replaced.2 (Nat.succ.inj sized), replaced.1]

end Value

namespace Schema

section

variable {s : Schema} {fields : List Field} {m v : List Value} {front back : List (Field × Value)}
  {q : Field × Value} {data : List UInt8} {n : Nat} {cut : List UInt8}

/-- What the first records of a message leave, where they replace what was there. -/
theorem values_after_take (distinct : (fields.map Field.id).Nodup) (admitted : s.admitsAll fields m)
    (start : s.admitsAll fields v) (replaced : Value.ontoAll m v = m) (k : Nat) :
    ((Slot.ofValues fields v).map (Slot.after ((present fields m).take k))).map Slot.value =
      Value.firstOf k m v := by
  have sized : m.length = v.length := by
    rw [length_of_admitsAll admitted, length_of_admitsAll start]
  have masked : (Value.firstOf k m (m.map fun _ => .absent)).length = fields.length := by
    rw [Value.length_firstOf, List.length_map, length_of_admitsAll admitted]
  rw [← Value.present_firstOf, values_after distinct masked start,
    Value.ontoAll_firstOf replaced sized]

/-- Reading takes in the records in front of a cut and goes on with what is left of the next. -/
theorem unpack_front (readable : s.Readable) (distinct : (fields.map Field.id).Nodup)
    (admitted : s.admitsAll fields m) (start : s.admitsAll fields v)
    (fit : ∀ n ∈ s.lengths fields m, n ≤ 65535) (split : present fields m = front ++ back)
    (inside : n ≤ data.length) (taken : data.take n = (front.map s.record).flatten ++ cut)
    {outcome : Except DecodeError Unit} {slots : List Slot} {r : Reader}
    (left : s.readRecords (n - front.length) ((Slot.ofValues fields v).map (Slot.after front))
      ⟨cut, (front.map s.record).flatten.length⟩ = (outcome, slots, r)) :
    s.unpack fields v data 0 n = (outcome.map fun _ => r.index, slots.map Slot.value) := by
  have apart : ((front ++ back).map fun r => r.1.id).Nodup :=
    split ▸ (ids_present_sublist fields m).nodup distinct
  rw [List.map_append, List.nodup_append] at apart
  have awaited : ∀ r ∈ front, s.Awaits (Slot.ofValues fields v) r := fun r member =>
    awaits_ofValues admitted start fit r (split ▸ List.mem_append_left _ member)
  have total := congrArg List.length taken
  rw [List.length_take, Nat.min_eq_left inside, List.length_append] at total
  have few := length_le_length_flatten awaited
  have run := readRecords_awaited readable.grounded (fun n _ => readable.fills n)
    (ready_ofValues distinct start) (fun _ => Slot.seen_of_mem_ofValues) apart.1 awaited
    (show (front.map s.record).flatten.length ≤ front.length + (n - front.length) by omega) cut 0
  rw [Nat.zero_add, left, Nat.add_sub_of_le (by omega), ← taken] at run
  exact unpack_of_readRecords inside run

/-- A part of a record that is behind its id runs out of bytes, whatever fuel there is for it. -/
theorem starves_record (readable : s.Readable) {r : Field × Value} (admitted : s.admits r.1 r.2)
    (present : r.2.isAbsent = false) (fit : ∀ n ∈ s.valueLengths r.1.typeName r.2, n ≤ 65535)
    {part missing : List UInt8} (split : (s.recordOf r).body = part ++ missing) (lost : missing ≠ [])
    {fuel : Nat} (enough : part.length ≤ fuel) (index : Nat) :
    ∃ position needed remaining after, (s.skip (s.fillTo fuel) r.1).exec ⟨part, index⟩ =
      (.error (.unexpectedEnd position needed remaining), after) := by
  have room : (s.valueBytes r.1.typeName r.2).length ≤ (s.recordOf r).body.length := by
    rw [recordOf, List.length_append]
    exact Nat.le_add_left _ _
  have takes := takes_recordOf (readable.fills _) readable.grounded admitted present fit room
  have starves := (s.delimited_skip _ r.1).starves takes.skip
  have shorter : part.length ≤ (s.recordOf r).body.length := by
    rw [split, List.length_append]
    exact Nat.le_add_right _ _
  rw [agreeTo_skip (agreeTo_fillTo s enough shorter) r.1 ⟨part, index⟩ (Nat.le_refl _)]
  exact starves part missing split lost index

/-- What is left of a record, if it is more than its id, is the id and a part of the body. -/
theorem exists_part {missing : List UInt8} (whole : s.record q = cut ++ missing)
    (long : 2 < cut.length) :
    ∃ part, part ≠ [] ∧ cut = Bytes.ofNat 2 q.1.id.toNat ++ part ∧
      (s.recordOf q).body = part ++ missing := by
  rw [← bytes_recordOf, Record.bytes] at whole
  obtain ⟨part, rfl, body⟩ | ⟨part, id, -⟩ := List.append_eq_append_iff.mp whole
  · rw [List.length_append, Bytes.length_ofNat] at long
    exact ⟨part, List.ne_nil_of_length_pos (by omega), rfl, body⟩
  · have short := congrArg List.length id
    rw [Bytes.length_ofNat, List.length_append] at short
    omega

/-- The records in front of one leave its slot alone. -/
theorem exists_waiting (distinct : (fields.map Field.id).Nodup) (admitted : s.admitsAll fields m)
    (start : s.admitsAll fields v) (fit : ∀ n ∈ s.lengths fields m, n ≤ 65535)
    (split : present fields m = front ++ q :: back) :
    ∃ old, ⟨q.1, old, false⟩ ∈ (Slot.ofValues fields v).map (Slot.after front) := by
  have member : q ∈ present fields m := by simp [split]
  obtain ⟨old, waiting, -⟩ := (awaits_ofValues admitted start fit q member).slot
  have apart : q.1.id ∉ front.map fun r => r.1.id := by
    have ids := (ids_present_sublist fields m).nodup distinct
    rw [split, List.map_append, List.map_cons, List.nodup_append] at ids
    intro again
    exact ids.2.2 _ again _ List.mem_cons_self rfl
  exact ⟨old, List.mem_map.mpr ⟨_, waiting, Slot.after_of_notMem apart⟩⟩

/-- A cut inside a record, behind its id and something more, makes reading run out of bytes. Where
it does has nothing to do with the message that is read into. -/
theorem unpack_starved (readable : s.Readable) (distinct : (fields.map Field.id).Nodup)
    (admitted : s.admitsAll fields m) (fit : ∀ n ∈ s.lengths fields m, n ≤ 65535)
    (split : present fields m = front ++ q :: back) (inside : n ≤ data.length)
    (taken : data.take n = (front.map s.record).flatten ++ cut) {missing : List UInt8}
    (whole : s.record q = cut ++ missing) (lost : missing ≠ []) (long : 2 < cut.length) :
    ∃ position needed remaining, ∀ v, s.admitsAll fields v →
      (s.unpack fields v data 0 n).1 = .error (.unexpectedEnd position needed remaining) := by
  have awaited := awaits_ofValues admitted admitted fit
  have own := awaited q (by simp [split])
  have few : front.length ≤ (front.map s.record).flatten.length :=
    length_le_length_flatten fun r member => awaited r (split ▸ List.mem_append_left _ member)
  obtain ⟨part, behind, rfl, body⟩ := exists_part whole long
  have total := congrArg List.length taken
  rw [List.length_take, Nat.min_eq_left inside, List.length_append, List.length_append,
    Bytes.length_ofNat] at total
  obtain ⟨fuel, turns⟩ : ∃ fuel, n - front.length = fuel + 1 := ⟨n - front.length - 1, by omega⟩
  obtain ⟨position, needed, remaining, after, failed⟩ := starves_record readable own.admitted
    own.present own.fit body lost (show part.length ≤ fuel by omega)
    ((front.map s.record).flatten.length + 2)
  refine ⟨position, needed, remaining, fun v start => ?_⟩
  obtain ⟨old, waiting⟩ := exists_waiting distinct admitted start fit split
  have ready := (ready_ofValues distinct start).map (Slot.field_after front)
    fun _ => Slot.after_eq_self
  have unread : ((Slot.ofValues fields v).map (Slot.after front)).all Slot.seen = false :=
    List.all_eq_false.mpr ⟨_, waiting, by simp⟩
  have known : q.1 ∈ ((Slot.ofValues fields v).map (Slot.after front)).map Slot.field :=
    List.mem_map.mpr ⟨_, waiting, rfl⟩
  have left := readRecords_id (s := s) fuel unread q.1.id behind (front.map s.record).flatten.length
  rw [readRecord_of_exec_skip ready known failed, ← turns] at left
  rw [unpack_front readable distinct admitted start fit split inside taken left]
  rfl

end

section

variable {tokens : List Token} {s : Schema} {d : Definition} {m : List Value} {b : Array UInt8}
  {n : Nat} {whole : List (List UInt8)}

/-- Reading the first bytes of a message gives the fields of its whole records and leaves the others
at their defaults, if no more than an id is left of the record that was cut. Otherwise it fails, and
only because the bytes end. -/
theorem deserialize_truncated (accepted : ofTokens tokens = .ok s) (member : d ∈ s.definitions)
    (admitted : s.admitsAll d.fields m) (written : s.serialize d.fields m = .ok b)
    (short : n < b.size) (fitting : whole = wholeRecords n (s.records d.fields m)) :
    (s.records d.fields m).flatten = b.toList ∧
      (n - whole.flatten.length ≤ 2 →
        s.deserialize d.name b.toList 0 n =
            .ok (Value.firstOf whole.length m (s.defaultMessage d.name)) ∧
          ∀ v, s.admitsAll d.fields v →
            (s.unpack d.fields v b.toList 0 n).1 = .ok whole.flatten.length) ∧
      (2 < n - whole.flatten.length → ∃ position needed remaining,
        s.deserialize d.name b.toList 0 n = .error (.unexpectedEnd position needed remaining) ∧
          ∀ v, s.admitsAll d.fields v → (s.unpack d.fields v b.toList 0 n).1 =
            .error (.unexpectedEnd position needed remaining)) := by
  have lawful := lawful_of_ofTokens accepted
  have readable := lawful.readable (bound_of_ofTokens accepted)
  have fields := lawful.fieldsOf_of_mem member
  have distinct := (lawful.bodies d member).ids
  have grounded := readable.grounded d.name
  rw [fields] at grounded
  obtain ⟨bytes, fit⟩ := records_of_serialize admitted written
  have long : n < (s.records d.fields m).flatten.length := by rwa [bytes, Array.length_toList]
  obtain ⟨r, after, all, fits, cut⟩ := wholeRecords_split long
  rw [← fitting] at all fits cut
  rw [records_eq_map] at all
  obtain ⟨front, later, split, rfl, tail⟩ := List.map_eq_append_iff.mp all
  obtain ⟨q, back, rfl, rfl, rfl⟩ := List.map_eq_cons_iff.mp tail
  have inside : n ≤ b.toList.length := by
    rw [Array.length_toList]
    omega
  have taken : b.toList.take n = (front.map s.record).flatten ++
      (s.record q).take (n - (front.map s.record).flatten.length) := by
    rw [← bytes, records_eq_map, all, take_flatten fits cut]
  have length : ((s.record q).take (n - (front.map s.record).flatten.length)).length =
      n - (front.map s.record).flatten.length := by
    rw [List.length_take]
    omega
  refine ⟨bytes, ?_, ?_⟩
  · intro few
    have read (v : List Value) (start : s.admitsAll d.fields v) :=
      unpack_front readable distinct admitted start fit split inside taken
        (readRecords_of_short _ _ (by rwa [Reader.remaining, length]))
    have values := values_after_take distinct admitted grounded.1 (grounded.2 m admitted) front.length
    rw [split, List.take_left] at values
    refine ⟨?_, fun v start => by rw [read v start]; rfl⟩
    rw [deserialize, fields, read _ grounded.1, List.length_map, ← values]
    rfl
  · intro more
    obtain ⟨position, needed, remaining, failed⟩ := unpack_starved readable distinct admitted fit split
      inside taken (List.take_append_drop _ _).symm
      (List.ne_nil_of_length_pos (by rw [List.length_drop]; omega)) (by rwa [length])
    refine ⟨position, needed, remaining, ?_, failed⟩
    have fresh := failed _ grounded.1
    rw [deserialize, fields]
    generalize s.unpack d.fields (s.defaultMessage d.name) b.toList 0 n = reply at fresh ⊢
    rcases reply with ⟨e | count, values⟩ <;> cases fresh
    rfl

/-- Behind the id of the leaf, the label and the colour are there; inside the branch, nothing is. -/
theorem deserialize_truncated_oak :
    ofTokens forestTokens = .ok forest ∧ forest.serialize treeFields oak = .ok oakBytes ∧
      forest.deserialize "Tree" oakBytes.toList 0 19 =
        .ok [.scalar (.string "oak"), .enum 4, .message [.scalar (.double 0)], .array []] ∧
      (forest.unpack treeFields elm oakBytes.toList 0 19).1 = .ok 17 ∧
      ∃ position needed remaining,
        forest.deserialize "Tree" oakBytes.toList 0 50 =
          .error (.unexpectedEnd position needed remaining) ∧
        (forest.unpack treeFields elm oakBytes.toList 0 50).1 =
          .error (.unexpectedEnd position needed remaining) := by
  have start : forest.admitsAll treeFields elm := by decide
  have two : [[0, 0, 3, 0, 111, 0, 97, 0, 107, 0], [1, 0, 1, 4, 0, 0, 0]] =
      wholeRecords 19 (forest.records treeFields oak) := by decide +kernel
  have three : [[0, 0, 3, 0, 111, 0, 97, 0, 107, 0], [1, 0, 1, 4, 0, 0, 0],
      [7, 0, 10, 0, 0, 0, 0, 0, 0, 0, 0, 0, 8, 64]] =
      wholeRecords 50 (forest.records treeFields oak) := by decide +kernel
  obtain ⟨-, read, -⟩ := deserialize_truncated (d := ⟨"Tree", ⟨3, 9⟩, .message treeFields⟩)
    forest_accepted (by decide) admitsAll_oak serialize_oak (by decide) two
  obtain ⟨-, -, failed⟩ := deserialize_truncated (d := ⟨"Tree", ⟨3, 9⟩, .message treeFields⟩)
    forest_accepted (by decide) admitsAll_oak serialize_oak (by decide) three
  obtain ⟨position, needed, remaining, fresh, other⟩ := failed (by decide)
  exact ⟨forest_accepted, serialize_oak, (read (by decide)).1, (read (by decide)).2 elm start,
    position, needed, remaining, fresh, other elm start⟩

end

end Schema

end WireSchema
