import WireSchema.Proofs.RoundTrip

/-!
Records that repeat. Of several records of one field the first one counts and the others are passed
over, so reading leaves what the first records of all fields leave. Reading ends with the record that
gives the last field one.
-/

namespace WireSchema

/-- The items whose keys no item before them has. -/
def firstOfEach {α : Type} (key : α → UInt16) : List α → List α
  | [] => []
  | a :: items => a :: (firstOfEach key items).filter fun b => key b != key a

theorem firstOfEach_map {α β : Type} (key : β → UInt16) (g : α → β) (items : List α) :
    firstOfEach key (items.map g) = (firstOfEach (key ∘ g) items).map g := by
  induction items with
  | nil => rfl
  | cons a items ih => simp [firstOfEach, ih, List.filter_map, Function.comp_def]

theorem mem_of_mem_firstOfEach {α : Type} {key : α → UInt16} {items : List α} {a : α}
    (member : a ∈ firstOfEach key items) : a ∈ items := by
  induction items with
  | nil => exact member
  | cons b items ih =>
    simp only [firstOfEach, List.mem_cons, List.mem_filter] at member ⊢
    exact member.imp id fun later => ih later.1

/-- Of each key one item is left. -/
theorem nodup_firstOfEach {α : Type} (key : α → UInt16) (items : List α) :
    ((firstOfEach key items).map key).Nodup := by
  induction items with
  | nil => exact List.nodup_nil
  | cons a items ih =>
    rw [firstOfEach, List.map_cons, List.nodup_cons]
    refine ⟨?_, (List.filter_sublist.map key).nodup ih⟩
    simp

/-- The shortest part of a list, from its start, that has a property, or all of it if none has. -/
theorem exists_shortest {α : Type} (P : List α → Prop) (items : List α) :
    ∃ taken left, items = taken ++ left ∧ (left ≠ [] → P taken) ∧
      ∀ before a after, taken = before ++ a :: after → ¬ P before := by
  induction items generalizing P with
  | nil => exact ⟨[], [], rfl, by simp, by simp⟩
  | cons a items ih =>
    by_cases enough : P []
    · exact ⟨[], a :: items, rfl, fun _ => enough, by simp⟩
    · obtain ⟨taken, left, rfl, reached, short⟩ := ih fun part => P (a :: part)
      refine ⟨a :: taken, left, rfl, reached, ?_⟩
      intro before b after split
      cases before with
      | nil => exact enough
      | cons c before =>
        rw [List.cons_append, List.cons.injEq] at split
        exact split.1 ▸ short before b after split.2

/-- Only the first record of each field counts. -/
theorem Slot.followAll_firstOfEach (rs : List Record) (slot : Slot) :
    slot.followAll (firstOfEach (fun r => r.field.id) rs) = slot.followAll rs := by
  have passed (id : UInt16) (rs : List Record) (slot : Slot) (other : slot.field.id ≠ id) :
      slot.followAll (rs.filter fun r => r.field.id != id) = slot.followAll rs := by
    induction rs generalizing slot with
    | nil => rfl
    | cons r rs ih =>
      by_cases same : r.field.id = id
      · rw [List.filter_cons_of_neg (by simp [same]), ih slot other, Slot.followAll_cons,
          Slot.follow_of_ne (by rwa [same])]
      · rw [List.filter_cons_of_pos (by simp [same]), Slot.followAll_cons, Slot.followAll_cons,
          ih _ (by rwa [Slot.field_follow])]
  induction rs generalizing slot with
  | nil => rfl
  | cons r rs ih =>
    rw [firstOfEach, Slot.followAll_cons, Slot.followAll_cons, ← ih]
    by_cases seen : (slot.follow r).seen
    · rw [Slot.followAll_of_seen seen, Slot.followAll_of_seen seen]
    · apply passed
      rw [Slot.field_follow]
      intro same
      exact seen ((Slot.seen_followAll slot [r]).mpr (by simp [same]))

theorem Read.gives_optional_none {α : Type} (step : Read α) : Gives (optional step) [0] none :=
  (gives_flag false).then (Gives.pure none)

namespace Schema

/-- The bytes of a record of a field: those that writing a value of it gives or, where it is optional,
its id and the byte that says that it has no value. -/
inductive IsRecord (s : Schema) (f : Field) : List UInt8 → Prop
  | written {v : Value} {b : Array UInt8} : s.admits f v → v.isAbsent = false →
      s.serialize [f] [v] = .ok b → IsRecord s f b.toList
  | absent : f.isOptional → IsRecord s f (Bytes.ofNat 2 f.id.toNat ++ [0])

theorem gives_deliver_absent (s : Schema) (fill : Fill) {f : Field} (optional : f.isOptional) :
    Read.Gives (s.deliver fill f) [0] (.value .absent) := by
  have none : Read.Gives (s.readPayload fill f) [0] .absent := by
    rw [readPayload, if_pos optional]
    exact (Read.gives_optional_none _).then (Read.Gives.pure _)
  rw [deliver, if_pos optional]
  split
  · exact (Read.gives_optional_none _).then (Read.Gives.pure _)
  · exact none.map Delivery.value

/-- A record may say that its optional field is absent. -/
theorem takes_absent (s : Schema) (fill : Fill) {f : Field} (optional : f.isOptional) :
    s.Takes fill ⟨f, [0], fun _ => .absent⟩ where
  toTurns := turns_of_gives (gives_deliver_absent s fill optional) fun _ _ => rfl
  filled := List.cons_ne_nil _ _

/-- The bytes of a record are taken whole by its field. -/
theorem IsRecord.exists_takes {s : Schema} (readable : s.Readable) {f : Field} {bs : List UInt8}
    (record : s.IsRecord f bs) :
    ∃ r : Record, r.field = f ∧ r.bytes = bs ∧
      ∀ n, r.body.length ≤ n → s.Takes (s.fillTo n) r := by
  cases record with
  | @written v b admitted present written =>
    have alone : s.admitsAll [f] [v] := admitsAll_cons.mpr ⟨admitted, rfl⟩
    obtain ⟨bytes, fit⟩ := (serialize_eq_ok_iff alone).mp written
    have single : s.records [f] [v] = [s.record (f, v)] := by
      rw [records_eq_map, present_cons, if_neg (by simp [present])]
      rfl
    refine ⟨s.recordOf (f, v), rfl, ?_, ?_⟩
    · rw [bytes, single, bytes_recordOf]
      simp
    · intro n room
      rw [recordOf, List.length_append] at room
      refine takes_recordOf (readable.fills n) readable.grounded admitted present ?_ (by omega)
      intro length member
      exact fit length (by rw [lengths]; exact List.mem_append_left _ member)
  | absent optional =>
    exact ⟨⟨f, [0], fun _ => .absent⟩, rfl, rfl, fun n _ => takes_absent s (s.fillTo n) optional⟩

section

variable {s : Schema} {fields : List Field} {v : List Value}

/-- Every slot has had a record when every field has. -/
theorem all_seen_iff (start : s.admitsAll fields v) (rs : List Record) :
    ((Slot.ofValues fields v).map (Slot.followAll rs)).all Slot.seen ↔
      ∀ f ∈ fields, f.id ∈ rs.map fun r => r.field.id := by
  have each : ∀ slot ∈ Slot.ofValues fields v,
      ((slot.followAll rs).seen ↔ slot.field.id ∈ rs.map fun r => r.field.id) := by
    intro slot member
    rw [Slot.seen_followAll, Slot.seen_of_mem_ofValues member]
    simp
  conv => rhs; rw [← Slot.fields_ofValues start]
  rw [List.all_map, List.all_eq_true, List.forall_mem_map]
  exact forall₂_congr each

theorem length_le_flatten (rs : List Record) :
    rs.length ≤ (rs.map Record.bytes).flatten.length := by
  induction rs with
  | nil => exact Nat.zero_le _
  | cons r rs ih =>
    have long := r.length_bytes
    rw [List.map_cons, List.flatten_cons, List.length_append, List.length_cons]
    omega

/-- Records that are taken whole are read up to the one that gives the last field one, and every field
follows the first of its own. -/
theorem unpack_taken (distinct : (fields.map Field.id).Nodup) (start : s.admitsAll fields v)
    {rs : List Record} (known : ∀ r ∈ rs, r.field ∈ fields)
    (takes : ∀ r ∈ rs, ∀ n, r.body.length ≤ n → s.Takes (s.fillTo n) r) :
    ∃ taken left, rs = taken ++ left ∧
      (left ≠ [] → ∀ f ∈ fields, f.id ∈ taken.map fun r => r.field.id) ∧
      (∀ before r after, taken = before ++ r :: after →
        ∃ f ∈ fields, f.id ∉ before.map fun r => r.field.id) ∧
      s.unpack fields v (rs.map Record.bytes).flatten 0 (rs.map Record.bytes).flatten.length =
        (.ok (taken.map Record.bytes).flatten.length,
          ((Slot.ofValues fields v).map (Slot.followAll rs)).map Slot.value) := by
  -- The loop stops behind the shortest front in which every field has a record, if there is one.
  obtain ⟨taken, left, rfl, reached, short⟩ := exists_shortest
    (fun part => ∀ f ∈ fields, f.id ∈ part.map fun r => r.field.id) rs
  refine ⟨taken, left, rfl, reached, fun before r after split => by
    simpa using short before r after split, ?_⟩
  have done : left = [] ∨
      ((Slot.ofValues fields v).map (Slot.followAll taken)).all Slot.seen := by
    by_cases none : left = []
    · exact Or.inl none
    · exact Or.inr ((all_seen_iff start taken).mpr (reached none))
  have rest : (Slot.ofValues fields v).map (Slot.followAll (taken ++ left)) =
      (Slot.ofValues fields v).map (Slot.followAll taken) := by
    rcases done with rfl | seen
    · rw [List.append_nil]
    · apply List.map_congr_left
      intro slot member
      rw [List.all_map, List.all_eq_true] at seen
      rw [Slot.followAll_append, Slot.followAll_of_seen (seen slot member)]
  rw [List.map_append, List.flatten_append, rest]
  obtain ⟨fuel, total⟩ := Nat.exists_eq_add_of_le (Nat.le_trans (length_le_flatten taken)
    (Nat.le_add_right _ (left.map Record.bytes).flatten.length))
  have run := readRecords_append (ready_ofValues distinct start)
    (fun r member n _ => takes r (List.mem_append_left _ member) n)
    (fun r member => by
      rw [Slot.fields_ofValues start]
      exact known r (List.mem_append_left _ member))
    (fun before r after split => by
      rw [Bool.eq_false_iff, Ne, all_seen_iff start]
      exact short before r after split)
    (show (taken.map Record.bytes).flatten.length ≤ taken.length + fuel by omega)
    (left.map Record.bytes).flatten 0
  have stop (index : Nat) : s.readRecords fuel ((Slot.ofValues fields v).map (Slot.followAll taken))
      ⟨(left.map Record.bytes).flatten, index⟩ =
      (.ok (), (Slot.ofValues fields v).map (Slot.followAll taken),
        ⟨(left.map Record.bytes).flatten, index⟩) := by
    rcases done with rfl | seen
    · exact readRecords_of_short _ _ (Nat.zero_le 2)
    · exact readRecords_of_seen _ seen _
  rw [← total, ← List.length_append, Nat.zero_add, stop] at run
  exact unpack_whole run

/-- Records of different fields are all read. -/
theorem unpack_distinct (distinct : (fields.map Field.id).Nodup) (start : s.admitsAll fields v)
    {rs : List Record} (known : ∀ r ∈ rs, r.field ∈ fields)
    (takes : ∀ r ∈ rs, ∀ n, r.body.length ≤ n → s.Takes (s.fillTo n) r)
    (apart : (rs.map fun r => r.field.id).Nodup) :
    s.unpack fields v (rs.map Record.bytes).flatten 0 (rs.map Record.bytes).flatten.length =
      (.ok (rs.map Record.bytes).flatten.length,
        ((Slot.ofValues fields v).map (Slot.followAll rs)).map Slot.value) := by
  obtain ⟨taken, left, rfl, reached, -, read⟩ := unpack_taken distinct start known takes
  cases left with
  | nil => rwa [List.append_nil] at read ⊢
  | cons r left =>
    -- The field of a record that is left would have had one before.
    have again := reached (List.cons_ne_nil r left) r.field (known r (by simp))
    rw [List.map_append, List.map_cons, List.nodup_append] at apart
    exact absurd rfl (apart.2.2 _ again _ List.mem_cons_self)

end

section

variable {tokens : List Token} {s : Schema} {d : Definition} {v : List Value}

/-- Bytes that are records by the rules are those of some records. -/
theorem exists_records (readable : s.Readable) {fields : List Field}
    {rs : List (Field × List UInt8)}
    (formed : ∀ r ∈ rs, r.1 ∈ fields ∧ s.IsRecord r.1 r.2) :
    ∃ qs : List Record, rs = qs.map (fun r => (r.field, r.bytes)) ∧ (∀ r ∈ qs, r.field ∈ fields) ∧
      ∀ r ∈ qs, ∀ n, r.body.length ≤ n → s.Takes (s.fillTo n) r := by
  induction rs with
  | nil => exact ⟨[], rfl, by simp, by simp⟩
  | cons r rs ih =>
    rw [List.forall_mem_cons] at formed
    obtain ⟨qs, rfl, known, takes⟩ := ih formed.2
    obtain ⟨q, field, bytes, taken⟩ := formed.1.2.exists_takes readable
    refine ⟨q :: qs, ?_, ?_, List.forall_mem_cons.mpr ⟨taken, takes⟩⟩
    · rw [List.map_cons, field, bytes]
    · exact List.forall_mem_cons.mpr ⟨field ▸ formed.1.1, known⟩

/-- Records of a message in any number and order are read as the first ones of all fields are. All
bytes are taken, up to the record that gives the last field one. -/
theorem unpack_first_of_each (accepted : ofTokens tokens = .ok s) (member : d ∈ s.definitions)
    (start : s.admitsAll d.fields v) {rs : List (Field × List UInt8)}
    (formed : ∀ r ∈ rs, r.1 ∈ d.fields ∧ s.IsRecord r.1 r.2) :
    ∃ taken left final, rs = taken ++ left ∧
      (left ≠ [] → ∀ f ∈ d.fields, f.id ∈ taken.map fun r => r.1.id) ∧
      (∀ before r after, taken = before ++ r :: after →
        ∃ f ∈ d.fields, f.id ∉ before.map fun r => r.1.id) ∧
      s.unpack d.fields v (rs.map Prod.snd).flatten 0 (rs.map Prod.snd).flatten.length =
        (.ok (taken.map Prod.snd).flatten.length, final) ∧
      s.unpack d.fields v ((firstOfEach (fun r => r.1.id) rs).map Prod.snd).flatten 0
          ((firstOfEach (fun r => r.1.id) rs).map Prod.snd).flatten.length =
        (.ok ((firstOfEach (fun r => r.1.id) rs).map Prod.snd).flatten.length, final) := by
  have lawful := lawful_of_ofTokens accepted
  have readable := lawful.readable (bound_of_ofTokens accepted)
  have distinct := (lawful.bodies d member).ids
  obtain ⟨qs, rfl, known, takes⟩ := exists_records readable formed
  obtain ⟨taken, left, rfl, reached, short, read⟩ := unpack_taken distinct start known takes
  have firsts := unpack_distinct distinct start
    (fun r inside => known r (mem_of_mem_firstOfEach inside))
    (fun r inside => takes r (mem_of_mem_firstOfEach inside))
    (nodup_firstOfEach (fun r => r.field.id) (taken ++ left))
  have same : (Slot.ofValues d.fields v).map
      (Slot.followAll (firstOfEach (fun r => r.field.id) (taken ++ left))) =
      (Slot.ofValues d.fields v).map (Slot.followAll (taken ++ left)) :=
    List.map_congr_left fun slot _ => Slot.followAll_firstOfEach (taken ++ left) slot
  rw [same] at firsts
  refine ⟨taken.map fun r => (r.field, r.bytes), left.map fun r => (r.field, r.bytes),
    ((Slot.ofValues d.fields v).map (Slot.followAll (taken ++ left))).map Slot.value,
    List.map_append, ?_, ?_, ?_, ?_⟩
  · simpa [Function.comp_def] using reached
  · intro before r after split
    obtain ⟨front, back, rfl, rfl, tail⟩ := List.map_eq_append_iff.mp split
    obtain ⟨q, back, rfl, -, -⟩ := List.map_eq_cons_iff.mp tail
    simpa [Function.comp_def] using short front q back rfl
  · simpa only [List.map_map, Function.comp_def] using read
  · simpa only [firstOfEach_map, List.map_map, Function.comp_def] using firsts

/-- A label, word that there is no colour, another label, a colour, a leaf, no branches, and a label
that comes too late. -/
def strayRecords : List (Field × List UInt8) :=
  treeFields.zip [[0, 0, 1, 0, 97, 0], [1, 0, 0]]
    ++ treeFields.zip [[0, 0, 0, 0], [1, 0, 1, 4, 0, 0, 0],
      [7, 0, 10, 0, 0, 0, 0, 0, 0, 0, 0, 0, 8, 64], [3, 0, 0, 0]]
    ++ treeFields.zip [[0, 0, 0, 0]]

theorem unpack_strayRecords :
    ofTokens forestTokens = .ok forest ∧ forest.admitsAll treeFields elm ∧
      (∀ r ∈ strayRecords, r.1 ∈ treeFields ∧ forest.IsRecord r.1 r.2) ∧
      ∃ final,
        forest.unpack treeFields elm (strayRecords.map Prod.snd).flatten 0 42 = (.ok 38, final) ∧
        forest.unpack treeFields elm
          ((firstOfEach (fun r => r.1.id) strayRecords).map Prod.snd).flatten 0 27 =
          (.ok 27, final) := by
  have start : forest.admitsAll treeFields elm := by decide
  have formed : ∀ r ∈ strayRecords, r.1 ∈ treeFields ∧ forest.IsRecord r.1 r.2 := by
    have written (f : Field) (x : Value) (b : Array UInt8) (known : f ∈ treeFields)
        (admitted : forest.admits f x) (present : x.isAbsent = false)
        (bytes : forest.serialize [f] [x] = .ok b) :
        f ∈ treeFields ∧ forest.IsRecord f b.toList := ⟨known, .written admitted present bytes⟩
    simp only [strayRecords, treeFields, List.zip_cons_cons, List.zip_nil_right, List.cons_append,
      List.nil_append, List.forall_mem_cons]
    refine ⟨?_, ?_, ?_, ?_, ?_, ?_, ?_, by simp⟩
    · exact written _ (.scalar (.string "a")) #[0, 0, 1, 0, 97, 0] (by decide) (by decide) rfl (by cbv)
    · exact ⟨by decide, .absent rfl⟩
    · exact written _ (.scalar (.string "")) #[0, 0, 0, 0] (by decide) (by decide) rfl (by cbv)
    · exact written _ (.enum 4) #[1, 0, 1, 4, 0, 0, 0] (by decide) (by decide) rfl (by cbv)
    · exact written _ (.message [.scalar (.double 0x4008000000000000)])
        #[7, 0, 10, 0, 0, 0, 0, 0, 0, 0, 0, 0, 8, 64] (by decide) (by decide) rfl (by cbv)
    · exact written _ (.array []) #[3, 0, 0, 0] (by decide) (by decide) rfl (by cbv)
    · exact written _ (.scalar (.string "")) #[0, 0, 0, 0] (by decide) (by decide) rfl (by cbv)
  obtain ⟨taken, left, final, -, -, -, all, firsts⟩ := unpack_first_of_each
    (d := ⟨"Tree", ⟨3, 9⟩, .message treeFields⟩) forest_accepted (by decide) start formed
  have early : (forest.unpack treeFields elm (strayRecords.map Prod.snd).flatten 0 42).1 = .ok 38 := by
    decide +kernel
  have consumed := (congrArg Prod.fst all).symm.trans early
  exact ⟨forest_accepted, start, formed, final, all.trans (congrArg (·, final) consumed), firsts⟩

end

end Schema

end WireSchema
