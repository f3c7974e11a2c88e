import WireSchema.Proofs.Acceptance
import WireSchema.Proofs.Recursion

/-!
The report on a text whose grammar is right. Each rule that a definition, a field or an entry breaks
is one breach, told apart by what is wrong and by the indices of what is concerned. The report has
one issue for every breach and no other, in the order of the text; issues of one place stand in the
order in which the passes over the schema find them.
-/

namespace WireSchema

namespace IssueKind

/-- The pass that finds issues of a kind: the grammar, unknown types, names of types, the
definitions one by one, recursion. -/
def pass : IssueKind → Nat
  | .unexpectedToken | .missingTerminator | .malformedNumber | .invalidName => 0
  | .unresolvedType => 1
  | .duplicateTypeName => 2
  | .reservedFieldId | .duplicateFieldId | .duplicateFieldName | .emptyEnum | .duplicateEnumName
  | .duplicateEnumValue => 3
  | .recursiveMessage => 4

/-- Which of the questions about one field or entry finds issues of a kind. -/
def turn : IssueKind → Nat
  | .duplicateFieldId | .duplicateEnumValue => 1
  | .duplicateFieldName => 2
  | _ => 0

end IssueKind

/-- What is wrong, and with which field or entry of which definition. The item is zero where the
definition as a whole is concerned. -/
structure Spot where
  kind : IssueKind
  definition : Nat
  item : Nat
  deriving DecidableEq

/-- The order in which breaches are found. -/
def Spot.Before (a b : Spot) : Prop :=
  a.kind.pass < b.kind.pass ∨ a.kind.pass = b.kind.pass ∧
    (a.definition < b.definition ∨ a.definition = b.definition ∧
      (a.item < b.item ∨ a.item = b.item ∧ a.kind.turn < b.kind.turn))

/-- The item at an index has the key of an item before it, and `first` is the first one with it. -/
def Repeats {α κ : Type} (key : α → κ) (items : List α) (i : Nat) (a first : α) : Prop :=
  items[i]? = some a ∧ ∃ j < i, items[j]? = some first ∧ key first = key a ∧
    ∀ k < j, ∀ b, items[k]? = some b → key b ≠ key a

/-- The rules beyond the grammar, and what is reported where one is broken. Issues of fields stand
at the type of the field, those of entries and definitions at the name. -/
inductive Breach (s : Schema) : Spot → Issue → Prop
  | unresolved {i j : Nat} {d : Definition} {f : Field} (definition : s.definitions[i]? = some d)
      (field : d.fields[j]? = some f) (named : f.type.isNamed)
      (undeclared : ∀ e ∈ s.definitions, e.name ≠ f.typeName) :
      Breach s ⟨.unresolvedType, i, j⟩ ((Cause.unresolvedType f.typeName f.name).issueAt f.place)
  | typeName {i : Nat} {d first : Definition}
      (repeats : Repeats Definition.name s.definitions i d first) :
      Breach s ⟨.duplicateTypeName, i, 0⟩ ((Cause.duplicateTypeName d.name).issueAt d.place)
  | reserved {i j : Nat} {d : Definition} {f : Field} (definition : s.definitions[i]? = some d)
      (field : d.fields[j]? = some f) (id : f.id = 65535) :
      Breach s ⟨.reservedFieldId, i, j⟩ ((Cause.reservedFieldId f.id f.name).issueAt f.place)
  | fieldId {i j : Nat} {d : Definition} {f first : Field} (definition : s.definitions[i]? = some d)
      (repeats : Repeats Field.id d.fields j f first) :
      Breach s ⟨.duplicateFieldId, i, j⟩
        ((Cause.duplicateFieldId f.id f.name first.name d.name).issueAt f.place)
  | fieldName {i j : Nat} {d : Definition} {f first : Field}
      (definition : s.definitions[i]? = some d) (repeats : Repeats Field.name d.fields j f first) :
      Breach s ⟨.duplicateFieldName, i, j⟩
        ((Cause.duplicateFieldName f.name d.name).issueAt f.place)
  | emptyEnum {i : Nat} {d : Definition} (definition : s.definitions[i]? = some d)
      (isEnum : d.isEnum) (empty : d.entries = []) :
      Breach s ⟨.emptyEnum, i, 0⟩ ((Cause.emptyEnum d.name).issueAt d.place)
  | entryName {i j : Nat} {d : Definition} {e first : Entry}
      (definition : s.definitions[i]? = some d) (repeats : Repeats Entry.name d.entries j e first) :
      Breach s ⟨.duplicateEnumName, i, j⟩ ((Cause.duplicateEnumName e.name d.name).issueAt e.place)
  | entryValue {i j : Nat} {d : Definition} {e first : Entry}
      (definition : s.definitions[i]? = some d)
      (repeats : Repeats Entry.value d.entries j e first) :
      Breach s ⟨.duplicateEnumValue, i, j⟩
        ((Cause.duplicateEnumValue e.value e.name first.name).issueAt e.place)
  | recursive {i : Nat} {d : Definition} (definition : s.definitions[i]? = some d)
      (inside : s.Leads d.name d.fields) :
      Breach s ⟨.recursiveMessage, i, 0⟩ ((Cause.recursiveMessage d.name).issueAt d.place)

/-! Lists with indices. -/

section

variable {α β κ : Type}

/-- What is found along a list is found at one of its items, which is known by its index. -/
theorem mem_flatMap_zipIdx {items : List α} {g : α × Nat → List β} {x : β} :
    x ∈ items.zipIdx.flatMap g ↔ ∃ i a, items[i]? = some a ∧ x ∈ g (a, i) := by
  simp only [List.mem_flatMap, Prod.exists, List.mem_zipIdx_iff_getElem?]
  exact exists_comm

theorem flatMap_zipIdx_eq {items : List α} {g : α × Nat → List β} {h : α → List β}
    (same : ∀ a i, g (a, i) = h a) : items.zipIdx.flatMap g = items.flatMap h := by
  have pointwise : g = fun p => h p.1 := funext fun p => same p.1 p.2
  rw [pointwise, ← List.flatMap_map Prod.fst h, List.zipIdx_map_fst]

theorem map_filter_eq_flatMap (items : List α) (test : α → Bool) (g : α → β) :
    (items.filter test).map g = items.flatMap fun a => if test a then [g a] else [] := by
  induction items with
  | nil => rfl
  | cons a items ih =>
    rw [List.filter_cons, List.flatMap_cons, ← ih]
    split <;> rfl

/-- An order on what is found holds along a list if it holds at each item and from each to the later
ones. -/
theorem pairwise_flatMap_zipIdx {R : β → β → Prop} {items : List α} {g : α × Nat → List β}
    (own : ∀ p, (g p).Pairwise R)
    (across : ∀ p q : α × Nat, p.2 < q.2 → ∀ x ∈ g p, ∀ y ∈ g q, R x y) :
    (items.zipIdx.flatMap g).Pairwise R := by
  have ascending : (items.zipIdx.map Prod.snd).Pairwise (· < ·) := by
    rw [List.zipIdx_map_snd]
    exact List.pairwise_lt_range' 1
  rw [List.pairwise_map] at ascending
  exact List.pairwise_flatMap.mpr ⟨fun p _ => own p, ascending.imp fun {p q} => across p q⟩

/-- The first of the items before an index that has the key of the item there. -/
def firstFor [BEq κ] (key : α → κ) (items : List α) (p : α × Nat) : Option α :=
  (items.take p.2).find? fun b => key b == key p.1

/-- The first earlier item with the same key is looked for in what stands in front of the index. -/
theorem firstBefore_eq_map [BEq κ] (key : α → κ) (before items : List α) :
    firstBefore key before items =
      items.zipIdx.map fun p => (before ++ items.take p.2).find? fun b => key b == key p.1 := by
  induction items generalizing before with
  | nil => rfl
  | cons x rest ih =>
    rw [firstBefore, ih, List.zipIdx_cons, List.map_cons, List.zipIdx_succ, List.map_map]
    simp

theorem earlier_eq_map [BEq κ] [LawfulBEq κ] [Hashable κ] (key : α → κ) (items : List α) :
    earlier key items = items.zipIdx.map (firstFor key items) := by
  rw [earlier_eq_firstBefore, firstBefore_eq_map]
  rfl

theorem zip_earlier [BEq κ] [LawfulBEq κ] [Hashable κ] (key : α → κ) (items : List α) :
    items.zip (earlier key items) = items.zipIdx.map fun p => (p.1, firstFor key items p) := by
  rw [earlier_eq_map]
  nth_rewrite 1 [← List.zipIdx_map_fst 0 items]
  exact List.zip_map'

/-- An item has an earlier one with its key exactly if it repeats it. -/
theorem firstFor_eq_some_iff [BEq κ] [LawfulBEq κ] {key : α → κ} {items : List α} {a first : α}
    {i : Nat} (member : items[i]? = some a) :
    firstFor key items (a, i) = some first ↔ Repeats key items i a first := by
  rw [firstFor, List.find?_eq_some_iff_getElem, Repeats]
  constructor
  · rintro ⟨same, j, inside, rfl, others⟩
    have small : j < i := by rw [List.length_take] at inside; omega
    refine ⟨member, j, small, ?_, by simpa using same, fun k before b found equal => ?_⟩
    · rw [← List.getElem?_take_of_lt small, List.getElem?_eq_getElem inside]
    · have other := others k before
      rw [← List.getElem?_take_of_lt (before.trans small),
        List.getElem?_eq_getElem (before.trans inside)] at found
      rw [Option.some.inj found, equal, beq_self_eq_true] at other
      cases other
  · rintro ⟨-, j, small, found, same, others⟩
    rw [← List.getElem?_take_of_lt small, List.getElem?_eq_some_iff] at found
    obtain ⟨inside, found⟩ := found
    refine ⟨by simpa using same, j, inside, found, fun k before => ?_⟩
    have there : items[k]? = some ((items.take i).get ⟨k, before.trans inside⟩) := by
      rw [← List.getElem?_take_of_lt (before.trans small),
        List.getElem?_eq_getElem (before.trans inside)]
      rfl
    simpa using others k before _ there

/-- What sorting by one order leaves of another: it decides between items that the first one does
not tell apart. -/
theorem pairwise_mergeSort_stable {le : α → α → Bool} {R : α → α → Prop}
    (trans : ∀ a b c, le a b → le b c → le a c) (total : ∀ a b, le a b || le b a) {l : List α}
    (ordered : l.Pairwise R) :
    (l.mergeSort le).Pairwise fun a b => le a b ∧ (le b a → R a b) := by
  induction l with
  | nil => simp
  | cons a l ih =>
    obtain ⟨front, back, whole, others, above⟩ := List.mergeSort_cons trans total a l
    obtain ⟨first, ordered⟩ := List.pairwise_cons.mp ordered
    have sorted := List.pairwise_mergeSort trans total (a :: l)
    rw [whole, List.pairwise_append, List.pairwise_cons] at sorted ⊢
    have rest := ih ordered
    rw [others, List.pairwise_append] at rest
    obtain ⟨inFront, inBack, across⟩ := rest
    have later : ∀ b ∈ back, b ∈ l := by
      intro b member
      have sorted : b ∈ l.mergeSort le := by
        rw [others]
        exact List.mem_append_right front member
      exact List.mem_mergeSort.mp sorted
    refine ⟨inFront, ⟨fun b member => ?_, inBack⟩, fun b member c member' => ?_⟩
    · exact ⟨sorted.2.1.1 b member, fun _ => first b (later b member)⟩
    · rcases List.mem_cons.mp member' with rfl | member'
      · have strict : le c b = false := by simpa using above b member
        refine ⟨sorted.2.2 b member c List.mem_cons_self, fun back => ?_⟩
        rw [strict] at back
        cases back
      · exact across b member c member'

end

/-! Breaches in the order of discovery. -/

def marked (spot : Spot) (issues : List Issue) : List (Spot × Issue) := issues.map (spot, ·)

/-- What is marked with a spot is at that spot. -/
theorem mem_marked {spot : Spot} {issues : List Issue} {x : Spot × Issue} :
    x ∈ marked spot issues ↔ x.1 = spot ∧ x.2 ∈ issues := by
  obtain ⟨spot', issue⟩ := x
  simp [marked, eq_comm, and_comm]

@[simp] theorem snd_marked (spot : Spot) (issues : List Issue) :
    (marked spot issues).map Prod.snd = issues := by
  rw [marked, List.map_map]
  exact List.map_id' issues

def fieldFound (i : Nat) (d : Definition) (p : Field × Nat) : List (Spot × Issue) :=
  marked ⟨.reservedFieldId, i, p.2⟩ p.1.reservedIssues ++
    marked ⟨.duplicateFieldId, i, p.2⟩ (p.1.idIssues d.name (firstFor Field.id d.fields p)) ++
    marked ⟨.duplicateFieldName, i, p.2⟩ (p.1.nameIssues d.name (firstFor Field.name d.fields p))

def entryFound (i : Nat) (d : Definition) (p : Entry × Nat) : List (Spot × Issue) :=
  marked ⟨.duplicateEnumName, i, p.2⟩ (p.1.nameIssues d.name (firstFor Entry.name d.entries p)) ++
    marked ⟨.duplicateEnumValue, i, p.2⟩ (p.1.valueIssues (firstFor Entry.value d.entries p))

def emptyIssues (d : Definition) : List Issue :=
  if d.isEnum && d.entries.isEmpty then [(Cause.emptyEnum d.name).issueAt d.place] else []

def bodyFound (p : Definition × Nat) : List (Spot × Issue) :=
  marked ⟨.emptyEnum, p.2, 0⟩ (emptyIssues p.1) ++ p.1.fields.zipIdx.flatMap (fieldFound p.2 p.1) ++
    p.1.entries.zipIdx.flatMap (entryFound p.2 p.1)

namespace Schema

variable (s : Schema)

def unresolvedFound (p : Definition × Nat) : List (Spot × Issue) :=
  p.1.fields.zipIdx.flatMap fun q =>
    marked ⟨.unresolvedType, p.2, q.2⟩ (q.1.unresolvedIssues s)

def typeNameFound (p : Definition × Nat) : List (Spot × Issue) :=
  marked ⟨.duplicateTypeName, p.2, 0⟩
    (if (firstFor Definition.name s.definitions p).isSome then
      [(Cause.duplicateTypeName p.1.name).issueAt p.1.place] else [])

def recursionFound (p : Definition × Nat) : List (Spot × Issue) :=
  marked ⟨.recursiveMessage, p.2, 0⟩
    (if s.holdsItself p.1 then [(Cause.recursiveMessage p.1.name).issueAt p.1.place] else [])

def found : List (Spot × Issue) :=
  s.definitions.zipIdx.flatMap s.unresolvedFound ++ s.definitions.zipIdx.flatMap s.typeNameFound ++
    s.definitions.zipIdx.flatMap bodyFound ++ s.definitions.zipIdx.flatMap s.recursionFound

end Schema

/-! The issues of a schema are those of its breaches. -/

/-- Without their spots, what is found at the fields is the issues of the fields. -/
theorem Definition.snd_fieldFound (i : Nat) (d : Definition) :
    (d.fields.zipIdx.flatMap (fieldFound i d)).map Prod.snd = fieldIssues d.name d.fields := by
  rw [fieldIssues, earlier_eq_map, earlier_eq_map, List.zip_map']
  nth_rewrite 2 [← List.zipIdx_map_fst 0 d.fields]
  rw [List.zip_map', List.flatMap_map, List.map_flatMap]
  simp only [fieldFound, List.map_append, snd_marked]

theorem Definition.snd_entryFound (i : Nat) (d : Definition) :
    (d.entries.zipIdx.flatMap (entryFound i d)).map Prod.snd = entryIssues d.name d.entries := by
  rw [entryIssues, earlier_eq_map, earlier_eq_map, List.zip_map']
  nth_rewrite 2 [← List.zipIdx_map_fst 0 d.entries]
  rw [List.zip_map', List.flatMap_map, List.map_flatMap]
  simp only [entryFound, List.map_append, snd_marked]

/-- Without their spots, what is found in a body is its issues. -/
theorem Definition.snd_bodyFound (d : Definition) (i : Nat) :
    (bodyFound (d, i)).map Prod.snd = d.bodyIssues := by
  rw [bodyFound, List.map_append, List.map_append, snd_marked, snd_fieldFound, snd_entryFound]
  obtain ⟨name, place, body⟩ := d
  cases body with
  | message fields => exact List.append_nil _
  | enum entries =>
    cases entries with
    | nil => rfl
    | cons e rest => rfl

namespace Schema

variable (s : Schema)

/-- Without their spots, what is found in a schema is its unresolved types and then its issues. -/
theorem snd_found : s.found.map Prod.snd = s.unresolvedIssues ++ s.issues := by
  have unresolved : (s.definitions.zipIdx.flatMap s.unresolvedFound).map Prod.snd =
      s.unresolvedIssues := by
    rw [List.map_flatMap]
    refine flatMap_zipIdx_eq fun d i => ?_
    rw [unresolvedFound, List.map_flatMap]
    exact flatMap_zipIdx_eq fun f j => snd_marked _ _
  have typeNames : (s.definitions.zipIdx.flatMap s.typeNameFound).map Prod.snd =
      s.typeNameIssues := by
    rw [typeNameIssues, withEarlier, zip_earlier, List.flatMap_map, List.map_flatMap]
    simp only [typeNameFound, snd_marked]
  have bodies : (s.definitions.zipIdx.flatMap bodyFound).map Prod.snd =
      s.definitions.flatMap Definition.bodyIssues := by
    rw [List.map_flatMap]
    exact flatMap_zipIdx_eq Definition.snd_bodyFound
  have recursion : (s.definitions.zipIdx.flatMap s.recursionFound).map Prod.snd =
      s.recursionIssues := by
    rw [List.map_flatMap, recursionIssues, map_filter_eq_flatMap]
    exact flatMap_zipIdx_eq fun d i => snd_marked _ _
  rw [found, List.map_append, List.map_append, List.map_append, unresolved, typeNames, bodies,
    recursion, issues, List.append_assoc, List.append_assoc, List.append_assoc]

end Schema

/-! Every breach is found. -/

section

variable {s : Schema} {x : Spot × Issue}

/-- A field is unresolved where no definition has the name of its type. -/
theorem Field.mem_unresolvedIssues {f : Field} {issue : Issue} :
    issue ∈ f.unresolvedIssues s ↔
      f.type.isNamed ∧ (∀ e ∈ s.definitions, e.name ≠ f.typeName) ∧
        issue = (Cause.unresolvedType f.typeName f.name).issueAt f.place := by
  have unknown : s.definition? f.typeName = none ↔ ∀ e ∈ s.definitions, e.name ≠ f.typeName := by
    simp [Schema.definition?]
  rw [← unknown, unresolvedIssues]
  cases f.type <;> cases s.definition? f.typeName <;> simp [FieldType.isNamed]

theorem Field.mem_reservedIssues {f : Field} {issue : Issue} :
    issue ∈ f.reservedIssues ↔
      f.id = 65535 ∧ issue = (Cause.reservedFieldId f.id f.name).issueAt f.place := by
  rw [reservedIssues, reservedFieldId]
  split <;> simp_all

theorem Field.mem_idIssues {f : Field} {message : String} {first? : Option Field} {issue : Issue} :
    issue ∈ f.idIssues message first? ↔ ∃ first, first? = some first ∧
      issue = (Cause.duplicateFieldId f.id f.name first.name message).issueAt f.place := by
  cases first? <;> simp [idIssues]

theorem Field.mem_nameIssues {f : Field} {message : String} {first? : Option Field}
    {issue : Issue} : issue ∈ f.nameIssues message first? ↔ ∃ first, first? = some first ∧
      issue = (Cause.duplicateFieldName f.name message).issueAt f.place := by
  cases first? <;> simp [nameIssues]

theorem Entry.mem_nameIssues {e : Entry} {enum : String} {first? : Option Entry} {issue : Issue} :
    issue ∈ e.nameIssues enum first? ↔ ∃ first, first? = some first ∧
      issue = (Cause.duplicateEnumName e.name enum).issueAt e.place := by
  cases first? <;> simp [nameIssues]

theorem Entry.mem_valueIssues {e : Entry} {first? : Option Entry} {issue : Issue} :
    issue ∈ e.valueIssues first? ↔ ∃ first, first? = some first ∧
      issue = (Cause.duplicateEnumValue e.value e.name first.name).issueAt e.place := by
  cases first? <;> simp [valueIssues]

theorem mem_emptyIssues {d : Definition} {issue : Issue} :
    issue ∈ emptyIssues d ↔
      d.isEnum ∧ d.entries = [] ∧ issue = (Cause.emptyEnum d.name).issueAt d.place := by
  rw [emptyIssues]
  split <;> simp_all

theorem mem_bodyFound {d : Definition} {i : Nat} : x ∈ bodyFound (d, i) ↔
    (x.1 = ⟨.emptyEnum, i, 0⟩ ∧ x.2 ∈ emptyIssues d ∨
      ∃ j f, d.fields[j]? = some f ∧ x ∈ fieldFound i d (f, j)) ∨
        ∃ j e, d.entries[j]? = some e ∧ x ∈ entryFound i d (e, j) := by
  rw [bodyFound, List.mem_append, List.mem_append, mem_marked, mem_flatMap_zipIdx,
    mem_flatMap_zipIdx]

/-- A repeated type name is found at every definition that repeats one. -/
theorem Schema.mem_typeNameFound {d : Definition} {i : Nat} (at' : s.definitions[i]? = some d) :
    x ∈ s.typeNameFound (d, i) ↔ x.1 = ⟨.duplicateTypeName, i, 0⟩ ∧
      (∃ first, Repeats Definition.name s.definitions i d first) ∧
        x.2 = (Cause.duplicateTypeName d.name).issueAt d.place := by
  have repeats : (firstFor Definition.name s.definitions (d, i)).isSome ↔
      ∃ first, Repeats Definition.name s.definitions i d first := by
    rw [Option.isSome_iff_exists]
    exact exists_congr fun first => firstFor_eq_some_iff at'
  rw [typeNameFound, mem_marked, ← repeats]
  split <;> simp_all

/-- Recursion is found at every definition that leads back to itself. -/
theorem Schema.mem_recursionFound {d : Definition} {i : Nat} :
    x ∈ s.recursionFound (d, i) ↔ x.1 = ⟨.recursiveMessage, i, 0⟩ ∧ s.Leads d.name d.fields ∧
      x.2 = (Cause.recursiveMessage d.name).issueAt d.place := by
  rw [recursionFound, mem_marked, ← holdsItself_iff_leads]
  split <;> simp_all

/-- What is found in a body is a breach of one of the rules for bodies. -/
theorem breach_of_mem_bodyFound {d : Definition} {i : Nat} (at' : s.definitions[i]? = some d)
    (member : x ∈ bodyFound (d, i)) : Breach s x.1 x.2 := by
  obtain ⟨spot, issue⟩ := x
  rcases mem_bodyFound.mp member with (⟨rfl, member⟩ | ⟨j, f, inside, member⟩) |
    ⟨j, e, inside, member⟩
  · obtain ⟨isEnum, empty, rfl⟩ := mem_emptyIssues.mp member
    exact .emptyEnum at' isEnum empty
  · rw [fieldFound, List.mem_append, List.mem_append] at member
    rcases member with (member | member) | member
    · obtain ⟨rfl, member⟩ := mem_marked.mp member
      obtain ⟨reserved, rfl⟩ := Field.mem_reservedIssues.mp member
      exact .reserved at' inside reserved
    · obtain ⟨rfl, member⟩ := mem_marked.mp member
      obtain ⟨first, earlier, rfl⟩ := Field.mem_idIssues.mp member
      exact .fieldId at' ((firstFor_eq_some_iff inside).mp earlier)
    · obtain ⟨rfl, member⟩ := mem_marked.mp member
      obtain ⟨first, earlier, rfl⟩ := Field.mem_nameIssues.mp member
      exact .fieldName at' ((firstFor_eq_some_iff inside).mp earlier)
  · rw [entryFound, List.mem_append] at member
    rcases member with member | member
    · obtain ⟨rfl, member⟩ := mem_marked.mp member
      obtain ⟨first, earlier, rfl⟩ := Entry.mem_nameIssues.mp member
      exact .entryName at' ((firstFor_eq_some_iff inside).mp earlier)
    · obtain ⟨rfl, member⟩ := mem_marked.mp member
      obtain ⟨first, earlier, rfl⟩ := Entry.mem_valueIssues.mp member
      exact .entryValue at' ((firstFor_eq_some_iff inside).mp earlier)

/-- What is found is a breach. -/
theorem breach_of_mem_found (member : x ∈ s.found) : Breach s x.1 x.2 := by
  obtain ⟨spot, issue⟩ := x
  simp only [Schema.found, List.mem_append, mem_flatMap_zipIdx] at member
  rcases member with ((⟨i, d, at', member⟩ | ⟨i, d, at', member⟩) | ⟨i, d, at', member⟩) |
    ⟨i, d, at', member⟩
  · obtain ⟨j, f, inside, member⟩ := mem_flatMap_zipIdx.mp member
    obtain ⟨rfl, member⟩ := mem_marked.mp member
    obtain ⟨named, undeclared, rfl⟩ := Field.mem_unresolvedIssues.mp member
    exact .unresolved at' inside named undeclared
  · obtain ⟨rfl, ⟨first, repeats⟩, rfl⟩ := (Schema.mem_typeNameFound at').mp member
    exact .typeName repeats
  · exact breach_of_mem_bodyFound at' member
  · obtain ⟨rfl, inside, rfl⟩ := Schema.mem_recursionFound.mp member
    exact .recursive at' inside

/-- Every breach is found. -/
theorem Breach.mem_found {spot : Spot} {issue : Issue} (breach : Breach s spot issue) :
    (spot, issue) ∈ s.found := by
  have inBody : ∀ {i d}, s.definitions[i]? = some d → (spot, issue) ∈ bodyFound (d, i) →
      (spot, issue) ∈ s.found := by
    intro i d at' member
    simp only [Schema.found, List.mem_append, mem_flatMap_zipIdx]
    exact Or.inl (Or.inr ⟨i, d, at', member⟩)
  have atField : ∀ {i d j f}, s.definitions[i]? = some d → d.fields[j]? = some f →
      (spot, issue) ∈ fieldFound i d (f, j) → (spot, issue) ∈ s.found :=
    fun at' inside member => inBody at' (mem_bodyFound.mpr (Or.inl (Or.inr ⟨_, _, inside, member⟩)))
  have atEntry : ∀ {i d j e}, s.definitions[i]? = some d → d.entries[j]? = some e →
      (spot, issue) ∈ entryFound i d (e, j) → (spot, issue) ∈ s.found :=
    fun at' inside member => inBody at' (mem_bodyFound.mpr (Or.inr ⟨_, _, inside, member⟩))
  cases breach with
  | unresolved at' inside named undeclared =>
    simp only [Schema.found, List.mem_append, mem_flatMap_zipIdx]
    refine Or.inl (Or.inl (Or.inl ⟨_, _, at', mem_flatMap_zipIdx.mpr ⟨_, _, inside, ?_⟩⟩))
    exact mem_marked.mpr ⟨rfl, Field.mem_unresolvedIssues.mpr ⟨named, undeclared, rfl⟩⟩
  | typeName repeats =>
    simp only [Schema.found, List.mem_append, mem_flatMap_zipIdx]
    refine Or.inl (Or.inl (Or.inr ⟨_, _, repeats.1, ?_⟩))
    exact (Schema.mem_typeNameFound repeats.1).mpr ⟨rfl, ⟨_, repeats⟩, rfl⟩
  | reserved at' inside reserved =>
    apply atField at' inside
    rw [fieldFound, List.mem_append, List.mem_append]
    exact Or.inl (Or.inl (mem_marked.mpr ⟨rfl, Field.mem_reservedIssues.mpr ⟨reserved, rfl⟩⟩))
  | fieldId at' repeats =>
    have first := (firstFor_eq_some_iff repeats.1).mpr repeats
    apply atField at' repeats.1
    rw [fieldFound, List.mem_append, List.mem_append]
    exact Or.inl (Or.inr (mem_marked.mpr ⟨rfl, Field.mem_idIssues.mpr ⟨_, first, rfl⟩⟩))
  | fieldName at' repeats =>
    have first := (firstFor_eq_some_iff repeats.1).mpr repeats
    apply atField at' repeats.1
    rw [fieldFound, List.mem_append, List.mem_append]
    exact Or.inr (mem_marked.mpr ⟨rfl, Field.mem_nameIssues.mpr ⟨_, first, rfl⟩⟩)
  | emptyEnum at' isEnum empty =>
    apply inBody at'
    exact mem_bodyFound.mpr (Or.inl (Or.inl ⟨rfl, mem_emptyIssues.mpr ⟨isEnum, empty, rfl⟩⟩))
  | entryName at' repeats =>
    have first := (firstFor_eq_some_iff repeats.1).mpr repeats
    apply atEntry at' repeats.1
    rw [entryFound, List.mem_append]
    exact Or.inl (mem_marked.mpr ⟨rfl, Entry.mem_nameIssues.mpr ⟨_, first, rfl⟩⟩)
  | entryValue at' repeats =>
    have first := (firstFor_eq_some_iff repeats.1).mpr repeats
    apply atEntry at' repeats.1
    rw [entryFound, List.mem_append]
    exact Or.inr (mem_marked.mpr ⟨rfl, Entry.mem_valueIssues.mpr ⟨_, first, rfl⟩⟩)
  | recursive at' inside =>
    simp only [Schema.found, List.mem_append, mem_flatMap_zipIdx]
    exact Or.inr ⟨_, _, at', Schema.mem_recursionFound.mpr ⟨rfl, inside, rfl⟩⟩

end

/-! The order of discovery. -/

/-- Breaches in the order in which they are found. -/
def Ordered (l : List (Spot × Issue)) : Prop := l.Pairwise fun x y => x.1.Before y.1

theorem Spot.not_before_self (a : Spot) : ¬ a.Before a := by
  simp [Before]

/-- A rule that is broken at most once at a spot is in order there. -/
theorem ordered_marked (spot : Spot) {issues : List Issue} (single : issues.length ≤ 1) :
    Ordered (marked spot issues) := by
  match issues, single with
  | [], _ => exact .nil
  | [issue], _ => exact List.pairwise_singleton _ _

theorem fst_of_mem_marked {spot : Spot} {issues : List Issue} {x : Spot × Issue}
    (member : x ∈ marked spot issues) : x.1 = spot :=
  (mem_marked.mp member).1

/-- What is found at a field is sited there, in the pass over the bodies. -/
theorem sited_fieldFound {i : Nat} {d : Definition} {p : Field × Nat} {x : Spot × Issue}
    (member : x ∈ fieldFound i d p) :
    x.1.kind.pass = 3 ∧ x.1.definition = i ∧ x.1.item = p.2 := by
  rw [fieldFound, List.mem_append, List.mem_append] at member
  rcases member with (member | member) | member <;>
    simp [fst_of_mem_marked member, IssueKind.pass]

/-- At one field, the rules are reported in their order. -/
theorem ordered_fieldFound (i : Nat) (d : Definition) (p : Field × Nat) :
    Ordered (fieldFound i d p) := by
  have reserved : p.1.reservedIssues.length ≤ 1 := by
    rw [Field.reservedIssues]; split <;> simp
  have ids : (p.1.idIssues d.name (firstFor Field.id d.fields p)).length ≤ 1 := by
    cases firstFor Field.id d.fields p <;> simp [Field.idIssues]
  have names : (p.1.nameIssues d.name (firstFor Field.name d.fields p)).length ≤ 1 := by
    cases firstFor Field.name d.fields p <;> simp [Field.nameIssues]
  rw [fieldFound, Ordered, List.pairwise_append, List.pairwise_append]
  refine ⟨⟨ordered_marked _ reserved, ordered_marked _ ids, ?_⟩, ordered_marked _ names, ?_⟩
  · intro x member y member'
    rw [fst_of_mem_marked member, fst_of_mem_marked member']
    simp [Spot.Before, IssueKind.pass, IssueKind.turn]
  · intro x member y member'
    rw [fst_of_mem_marked member']
    rcases List.mem_append.mp member with member | member <;> rw [fst_of_mem_marked member] <;>
      simp [Spot.Before, IssueKind.pass, IssueKind.turn]

theorem sited_entryFound {i : Nat} {d : Definition} {p : Entry × Nat} {x : Spot × Issue}
    (member : x ∈ entryFound i d p) :
    x.1.kind.pass = 3 ∧ x.1.definition = i ∧ x.1.item = p.2 := by
  rw [entryFound, List.mem_append] at member
  rcases member with member | member <;> simp [fst_of_mem_marked member, IssueKind.pass]

/-- At one entry, the rules are reported in their order. -/
theorem ordered_entryFound (i : Nat) (d : Definition) (p : Entry × Nat) :
    Ordered (entryFound i d p) := by
  have names : (p.1.nameIssues d.name (firstFor Entry.name d.entries p)).length ≤ 1 := by
    cases firstFor Entry.name d.entries p <;> simp [Entry.nameIssues]
  have values : (p.1.valueIssues (firstFor Entry.value d.entries p)).length ≤ 1 := by
    cases firstFor Entry.value d.entries p <;> simp [Entry.valueIssues]
  rw [entryFound, Ordered, List.pairwise_append]
  refine ⟨ordered_marked _ names, ordered_marked _ values, fun x member y member' => ?_⟩
  rw [fst_of_mem_marked member, fst_of_mem_marked member']
  simp [Spot.Before, IssueKind.pass, IssueKind.turn]

/-- Items of one definition are looked at one after the other. -/
theorem ordered_items {α : Type} (items : List α) {g : α × Nat → List (Spot × Issue)} {n i : Nat}
    (sited : ∀ q, ∀ x ∈ g q, x.1.kind.pass = n ∧ x.1.definition = i ∧ x.1.item = q.2)
    (own : ∀ q, Ordered (g q)) : Ordered (items.zipIdx.flatMap g) := by
  refine pairwise_flatMap_zipIdx own fun p q before x member y member' => ?_
  obtain ⟨pass, definition, item⟩ := sited p x member
  obtain ⟨pass', definition', item'⟩ := sited q y member'
  rw [Spot.Before]
  omega

/-- A pass looks at the definitions one after the other. -/
theorem ordered_pass (definitions : List Definition) {g : Definition × Nat → List (Spot × Issue)}
    {n : Nat} (sited : ∀ p, ∀ x ∈ g p, x.1.kind.pass = n ∧ x.1.definition = p.2)
    (own : ∀ p, Ordered (g p)) : Ordered (definitions.zipIdx.flatMap g) := by
  refine pairwise_flatMap_zipIdx own fun p q before x member y member' => ?_
  obtain ⟨pass, definition⟩ := sited p x member
  obtain ⟨pass', definition'⟩ := sited q y member'
  rw [Spot.Before]
  omega

/-- What is found in a body is sited in its definition. -/
theorem sited_bodyFound (p : Definition × Nat) :
    ∀ x ∈ bodyFound p, x.1.kind.pass = 3 ∧ x.1.definition = p.2 := by
  intro x member
  rcases mem_bodyFound.mp member with (⟨same, -⟩ | ⟨j, f, -, member⟩) | ⟨j, e, -, member⟩
  · simp [same, IssueKind.pass]
  · exact ⟨(sited_fieldFound member).1, (sited_fieldFound member).2.1⟩
  · exact ⟨(sited_entryFound member).1, (sited_entryFound member).2.1⟩

/-- Of the three parts of a body, at most one is not empty. -/
theorem ordered_bodyFound (p : Definition × Nat) : Ordered (bodyFound p) := by
  have fields := ordered_items p.1.fields (fun q x => sited_fieldFound)
    (ordered_fieldFound p.2 p.1)
  have entries := ordered_items p.1.entries (fun q x => sited_entryFound)
    (ordered_entryFound p.2 p.1)
  obtain ⟨⟨name, place, body⟩, i⟩ := p
  cases body with
  | message fs =>
    rw [bodyFound]
    exact (List.append_nil _).symm ▸ fields
  | enum es =>
    cases es with
    | nil => exact List.pairwise_singleton _ _
    | cons e rest => exact entries

namespace Schema

variable (s : Schema)

theorem sited_unresolvedFound (p : Definition × Nat) :
    ∀ x ∈ s.unresolvedFound p, x.1.kind.pass = 1 ∧ x.1.definition = p.2 := by
  intro x member
  obtain ⟨j, f, -, member⟩ := mem_flatMap_zipIdx.mp member
  simp [fst_of_mem_marked member, IssueKind.pass]

theorem ordered_unresolvedFound (p : Definition × Nat) : Ordered (s.unresolvedFound p) := by
  refine ordered_items _ (n := 1) (i := p.2) (fun q x member => ?_) fun q => ordered_marked _ ?_
  · simp [fst_of_mem_marked member, IssueKind.pass]
  · rw [Field.unresolvedIssues]
    split
    · simp
    · split <;> simp

theorem sited_typeNameFound (p : Definition × Nat) :
    ∀ x ∈ s.typeNameFound p, x.1.kind.pass = 2 ∧ x.1.definition = p.2 := by
  intro x member
  simp [fst_of_mem_marked member, IssueKind.pass]

theorem sited_recursionFound (p : Definition × Nat) :
    ∀ x ∈ s.recursionFound p, x.1.kind.pass = 4 ∧ x.1.definition = p.2 := by
  intro x member
  simp [fst_of_mem_marked member, IssueKind.pass]

/-- A pass ends before the next one begins. -/
theorem ordered_found : Ordered s.found := by
  have unresolved := ordered_pass s.definitions s.sited_unresolvedFound
    s.ordered_unresolvedFound
  have names := ordered_pass s.definitions s.sited_typeNameFound
    fun p => ordered_marked _ (by split <;> simp)
  have bodies := ordered_pass s.definitions sited_bodyFound ordered_bodyFound
  have recursion := ordered_pass s.definitions s.sited_recursionFound
    fun p => ordered_marked _ (by split <;> simp)
  have passOf : ∀ {g : Definition × Nat → List (Spot × Issue)} {n : Nat},
      (∀ p, ∀ x ∈ g p, x.1.kind.pass = n ∧ x.1.definition = p.2) →
        ∀ x ∈ s.definitions.zipIdx.flatMap g, x.1.kind.pass = n := by
    intro g n sited x member
    obtain ⟨i, d, -, member⟩ := mem_flatMap_zipIdx.mp member
    exact (sited _ x member).1
  have first := passOf s.sited_unresolvedFound
  have second := passOf s.sited_typeNameFound
  have third := passOf sited_bodyFound
  have fourth := passOf s.sited_recursionFound
  rw [found, Ordered, List.pairwise_append, List.pairwise_append, List.pairwise_append]
  refine ⟨⟨⟨unresolved, names, fun x member y member' => ?_⟩, bodies,
    fun x member y member' => ?_⟩, recursion, fun x member y member' => ?_⟩
  · exact Or.inl (by rw [first x member, second y member']; decide)
  · left
    rcases List.mem_append.mp member with member | member
    · rw [first x member, third y member']; decide
    · rw [second x member, third y member']; decide
  · left
    rcases List.mem_append.mp member with member | member
    · rcases List.mem_append.mp member with member | member
      · rw [first x member, fourth y member']; decide
      · rw [second x member, fourth y member']; decide
    · rw [third x member, fourth y member']; decide

end Schema

/-! Binding the types. -/

/-- Binding changes no more than a named type into another one. -/
theorem Field.resolve_eq (s : Schema) (f : Field) : ∃ type : FieldType,
    f.resolve s = { f with type := type } ∧ type.isNamed = f.type.isNamed := by
  rcases Grammar.retypes_resolve s f with same | ⟨type, named, named', changed⟩
  · exact ⟨f.type, same, rfl⟩
  · exact ⟨type, changed, named'.trans named.symm⟩

theorem Field.unresolvedIssues_eq (s : Schema) (f : Field) :
    f.unresolvedIssues s =
      if f.type.isNamed && (s.definition? f.typeName).isNone then
        [(Cause.unresolvedType f.typeName f.name).issueAt f.place] else [] := by
  rw [unresolvedIssues]
  cases f.type <;> cases s.definition? f.typeName <;> rfl

namespace Schema

variable (s : Schema)

/-- A field of a named type is what the first definition of that name is. -/
def Follows : Prop :=
  ∀ d ∈ s.definitions, ∀ f ∈ d.fields, f.type.isNamed →
    ∀ e, s.definition? f.typeName = some e → f.type = e.kind

/-- After binding, every field is of the kind of the definition that its type names. -/
theorem follows_resolve : s.resolve.Follows := by
  rw [resolve_eq]
  intro d' memberD f' memberF named e' known
  obtain ⟨d, -, rfl⟩ := List.mem_map.mp memberD
  rw [Definition.fields_mapFields] at memberF
  obtain ⟨f, -, rfl⟩ := List.mem_map.mp memberF
  obtain ⟨type, changed, kept⟩ := f.resolve_eq s
  rw [changed] at named known
  rw [definition?_mapFields, Option.map_eq_some_iff] at known
  obtain ⟨e, known, rfl⟩ := known
  rw [Definition.kind_mapFields, Field.resolve_of_named (kept.symm.trans named) known]

/-- Binding resolves no name that is not defined. -/
theorem unresolvedIssues_resolve : s.resolve.unresolvedIssues = s.unresolvedIssues := by
  have each : ∀ f : Field,
      (f.resolve s).unresolvedIssues (s.mapFields (Field.resolve s)) = f.unresolvedIssues s := by
    intro f
    obtain ⟨type, changed, kept⟩ := f.resolve_eq s
    rw [changed, Field.unresolvedIssues_eq, Field.unresolvedIssues_eq, definition?_mapFields,
      Option.isNone_map, kept]
  rw [resolve_eq, unresolvedIssues, unresolvedIssues, mapFields, List.flatMap_map]
  congr
  funext d
  rw [Definition.fields_mapFields, List.flatMap_map]
  exact congrArg (d.fields.flatMap ·) (funext each)

end Schema

/-! The report. -/

/-- Earlier in the text or, at one place, found earlier. -/
def Precedes (a b : Spot × Issue) : Prop :=
  a.2.place.line < b.2.place.line ∨ a.2.place.line = b.2.place.line ∧
    (a.2.place.column < b.2.place.column ∨ a.2.place.column = b.2.place.column ∧ a.1.Before b.1)

def placeLe (a b : Spot × Issue) : Bool := a.2.place.le b.2.place

theorem placeLe_trans (a b c : Spot × Issue) (first : placeLe a b) (second : placeLe b c) :
    placeLe a c := by
  simp only [placeLe, Place.le, Bool.or_eq_true, Bool.and_eq_true, decide_eq_true_eq,
    beq_iff_eq] at first second ⊢
  omega

/-- Any two places can be compared. -/
theorem placeLe_total (a b : Spot × Issue) : placeLe a b || placeLe b a := by
  simp only [placeLe, Place.le, Bool.or_eq_true, Bool.and_eq_true, decide_eq_true_eq, beq_iff_eq]
  omega

/-- What is sorted by place and keeps its order at equal places is in the order of reports. -/
theorem precedes_of_placeLe {a b : Spot × Issue} (le : placeLe a b)
    (ties : placeLe b a → a.1.Before b.1) : Precedes a b := by
  simp only [placeLe, Place.le, Bool.or_eq_true, Bool.and_eq_true, decide_eq_true_eq,
    beq_iff_eq] at le ties
  rw [Precedes]
  by_cases same : a.2.place.line = b.2.place.line ∧ a.2.place.column = b.2.place.column
  · exact Or.inr ⟨same.1, Or.inr ⟨same.2, ties (by omega)⟩⟩
  · omega

namespace Schema

open Grammar

def reported (s : Schema) : List (Spot × Issue) := s.found.mergeSort placeLe

/-- Without their spots, the breaches in the order of reports are the report. -/
theorem snd_reported (s : Schema) :
    s.reported.map Prod.snd = (Report.ofIssues (s.unresolvedIssues ++ s.issues)).issues := by
  rw [reported, Report.ofIssues, ← snd_found]
  exact List.map_mergeSort fun _ _ _ _ => rfl

/-- Nothing is reported exactly if nothing is wrong. -/
theorem reported_eq_nil_iff (s : Schema) :
    s.reported = [] ↔ s.unresolvedIssues ++ s.issues = [] := by
  rw [← snd_found, List.map_eq_nil_iff, ← List.length_eq_zero_iff, reported, List.length_mergeSort,
    List.length_eq_zero_iff]

/-- Reported is exactly what breaks a rule. -/
theorem mem_reported {s : Schema} {spot : Spot} {issue : Issue} :
    (spot, issue) ∈ s.reported ↔ Breach s spot issue := by
  rw [reported, List.mem_mergeSort]
  exact ⟨breach_of_mem_found, Breach.mem_found⟩

theorem precedes_reported (s : Schema) : s.reported.Pairwise Precedes :=
  (pairwise_mergeSort_stable placeLe_trans placeLe_total s.ordered_found).imp
    fun ⟨le, ties⟩ => precedes_of_placeLe le ties

/-- No spot is reported twice. -/
theorem nodup_reported (s : Schema) : (s.reported.map Prod.fst).Nodup := by
  have distinct : (s.found.map Prod.fst).Nodup := by
    rw [List.Nodup, List.pairwise_map]
    refine s.ordered_found.imp fun {x y} before same => ?_
    rw [same] at before
    exact y.1.not_before_self before
  exact ((List.mergeSort_perm s.found placeLe).map Prod.fst).nodup_iff.mpr distinct

/-- Where tokens are read without an issue of grammar, they spell a schema whose named types follow
their definitions. The report has one issue for each breach of a rule and nothing else, in the order
of the text and at one place in the order of discovery. The schema is accepted where there is no
breach. -/
theorem ofTokens_reports {tokens : List Token} {draft : Schema}
    (read : Parser.document tokens = (draft, [])) :
    DocumentText (tokens.takeWhile fun t => t.kind ≠ .finish) draft.resolve ∧
    draft.resolve.Follows ∧
    ∃ breaches : List (Spot × Issue),
      (∀ spot issue, (spot, issue) ∈ breaches ↔ Breach draft.resolve spot issue) ∧
      (breaches.map Prod.fst).Nodup ∧ breaches.Pairwise Precedes ∧
      ofTokens tokens =
        if breaches = [] then .ok draft.resolve else .error ⟨breaches.map Prod.snd⟩ := by
  have derived := Parser.exists_of_document (congrArg Prod.snd read)
  rw [read] at derived
  refine ⟨derived.retype (retypes_resolve draft), draft.follows_resolve, draft.resolve.reported,
    fun _ _ => mem_reported, draft.resolve.nodup_reported, draft.resolve.precedes_reported, ?_⟩
  have issues : draft.issuesOf [] = draft.resolve.unresolvedIssues ++ draft.resolve.issues := by
    rw [issuesOf, List.nil_append, unresolvedIssues_resolve]
  rw [ofTokens, read]
  dsimp only
  rw [issues, snd_reported]
  simp only [List.isEmpty_iff, reported_eq_nil_iff]

/-- A message that holds itself, with an unknown type and a reserved id given twice; its name is
that of an enum without entries, too. -/
def tangleTokens : List Token :=
  [⟨.message, "message", 0, ⟨1, 1⟩⟩, ⟨.identifier, "M", 8, ⟨1, 9⟩⟩,
    ⟨.openBrace, "\x7b", 9, ⟨1, 10⟩⟩, ⟨.identifier, "X", 10, ⟨1, 11⟩⟩,
    ⟨.identifier, "a", 12, ⟨1, 13⟩⟩, ⟨.equals, "=", 13, ⟨1, 14⟩⟩, ⟨.number, "65535", 14, ⟨1, 15⟩⟩,
    ⟨.semicolon, ";", 19, ⟨1, 20⟩⟩, ⟨.identifier, "M", 20, ⟨1, 21⟩⟩,
    ⟨.identifier, "a", 22, ⟨1, 23⟩⟩, ⟨.equals, "=", 23, ⟨1, 24⟩⟩, ⟨.number, "65535", 24, ⟨1, 25⟩⟩,
    ⟨.semicolon, ";", 29, ⟨1, 30⟩⟩, ⟨.closeBrace, "\x7d", 30, ⟨1, 31⟩⟩,
    ⟨.enum, "enum", 31, ⟨1, 32⟩⟩, ⟨.identifier, "M", 36, ⟨1, 37⟩⟩,
    ⟨.openBrace, "\x7b", 37, ⟨1, 38⟩⟩, ⟨.closeBrace, "\x7d", 38, ⟨1, 39⟩⟩,
    ⟨.finish, "", 39, ⟨1, 40⟩⟩]

def tangle : Schema where
  defines := []
  definitions :=
    [⟨"M", ⟨1, 9⟩, .message
      [⟨.message, "X", "a", 65535, false, false, ⟨1, 11⟩⟩,
        ⟨.message, "M", "a", 65535, false, false, ⟨1, 21⟩⟩]⟩, ⟨"M", ⟨1, 37⟩, .enum []⟩]

theorem tangle_read : Parser.document tangleTokens = (tangle, []) := by decide +kernel

theorem ofTokens_reports_tangle :
    ∃ breaches : List (Spot × Issue),
      ofTokens tangleTokens = .error ⟨breaches.map Prod.snd⟩ ∧ breaches.Pairwise Precedes ∧
      (⟨.recursiveMessage, 0, 0⟩, (Cause.recursiveMessage "M").issueAt ⟨1, 9⟩) ∈ breaches ∧
      (⟨.unresolvedType, 0, 0⟩, (Cause.unresolvedType "X" "a").issueAt ⟨1, 11⟩) ∈ breaches ∧
      (⟨.duplicateFieldId, 0, 1⟩,
        (Cause.duplicateFieldId 65535 "a" "a" "M").issueAt ⟨1, 21⟩) ∈ breaches := by
  obtain ⟨-, -, breaches, complete, -, ordered, reported⟩ := ofTokens_reports tangle_read
  have bound : tangle.resolve = tangle := by decide +kernel
  rw [bound] at complete reported
  have recursion := (complete _ _).mpr
    (.recursive (i := 0) rfl (.here (List.mem_cons_of_mem _ List.mem_cons_self) rfl rfl rfl))
  have unresolved := (complete _ _).mpr
    (.unresolved (i := 0) (j := 0) rfl rfl rfl (by decide))
  have repeated := (complete _ _).mpr
    (.fieldId (i := 0) (j := 1) rfl ⟨rfl, 0, Nat.zero_lt_one, rfl, rfl, nofun⟩)
  rw [if_neg (List.ne_nil_of_mem recursion)] at reported
  exact ⟨breaches, reported, ordered, recursion, unresolved, repeated⟩

end Schema

end WireSchema
