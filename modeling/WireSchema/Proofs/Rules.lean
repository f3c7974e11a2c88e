import Mathlib.Data.List.Nodup
import WireSchema.Proofs.Binding
import WireSchema.Proofs.Containment
import WireSchema.Schema.Parse

/-!
The rules of a schema as plain statements, and the list of issues compared with them: no issue is
found exactly when every rule holds.
-/

namespace WireSchema

open Relation

section

variable {α κ : Type} [BEq κ]

/-- For each item the first one with the same key among `before` and the items in front of it. -/
def firstBefore (key : α → κ) (before : List α) : List α → List (Option α)
  | [] => []
  | x :: rest => before.find? (fun y => key y == key x) :: firstBefore key (before ++ [x]) rest

theorem length_firstBefore (key : α → κ) (before items : List α) :
    (firstBefore key before items).length = items.length := by
  induction items generalizing before with
  | nil => rfl
  | cons x rest ih => rw [firstBefore, List.length_cons, ih, List.length_cons]

variable [LawfulBEq κ]

theorem firstBefore_none_iff (key : α → κ) (before items : List α) :
    (∀ o ∈ firstBefore key before items, o = none) ↔
      (items.map key).Nodup ∧ ∀ x ∈ items, ∀ y ∈ before, key y ≠ key x := by
  induction items generalizing before with
  | nil => simp [firstBefore]
  | cons x rest ih =>
    rw [firstBefore, List.forall_mem_cons, ih, List.find?_eq_none, List.map_cons, List.nodup_cons,
      List.forall_mem_cons]
    simp only [beq_iff_eq, List.mem_append, List.mem_singleton, List.mem_map]
    constructor
    · rintro ⟨first, distinct, others⟩
      refine ⟨⟨?_, distinct⟩, first, fun y later z member => others y later z (Or.inl member)⟩
      rintro ⟨y, later, same⟩
      exact others y later x (Or.inr rfl) same.symm
    · rintro ⟨⟨alone, distinct⟩, first, others⟩
      refine ⟨first, distinct, fun y later z member => ?_⟩
      rcases member with member | rfl
      · exact others y later z member
      · intro same
        exact alone ⟨y, later, same.symm⟩

variable [Hashable κ]

/-- The table of first items answers as a search through the items so far. -/
theorem toList_earlierFrom (key : α → κ) (items before : List α) (seen : Std.HashMap κ α)
    (acc : Array (Option α)) (table : ∀ k, seen[k]? = before.find? fun y => key y == k) :
    (earlierFrom key seen items acc).toList = acc.toList ++ firstBefore key before items := by
  induction items generalizing before seen acc with
  | nil => simp [earlierFrom, firstBefore]
  | cons x rest ih =>
    rw [earlierFrom]
    cases found : seen[key x]? with
    | some first =>
      have same := table (key x)
      rw [found] at same
      have grown : ∀ k, seen[k]? = (before ++ [x]).find? fun y => key y == k := by
        intro k
        rw [List.find?_append, ← table k]
        by_cases equal : key x = k
        · subst equal
          simp [found]
        · simp [equal]
      simp only
      rw [ih (before ++ [x]) seen _ grown, firstBefore, ← same]
      simp
    | none =>
      have same := table (key x)
      rw [found] at same
      have grown : ∀ k, (seen.insert (key x) x)[k]? = (before ++ [x]).find? fun y => key y == k := by
        intro k
        rw [Std.HashMap.getElem?_insert, List.find?_append, ← table k]
        by_cases equal : key x = k
        · subst equal
          simp [found]
        · simp [equal]
      simp only
      rw [ih (before ++ [x]) _ _ grown, firstBefore, ← same]
      simp

/-- The map in which first items are kept gives what a search would. -/
theorem earlier_eq_firstBefore (key : α → κ) (items : List α) :
    earlier key items = firstBefore key [] items := by
  rw [earlier, toList_earlierFrom key items [] ∅ #[] (by simp)]
  rfl

theorem length_earlier (key : α → κ) (items : List α) :
    (earlier key items).length = items.length := by
  rw [earlier_eq_firstBefore, length_firstBefore]

/-- No item repeats a key exactly when the keys are distinct. -/
theorem earlier_none_iff (key : α → κ) (items : List α) :
    (∀ o ∈ earlier key items, o = none) ↔ (items.map key).Nodup := by
  rw [earlier_eq_firstBefore, firstBefore_none_iff]
  simp

end

/-- A condition on each part of aligned lists. -/
theorem forall_mem_zip {α β : Type} {P : α → Prop} {Q : β → Prop} {xs : List α} {ys : List β}
    (aligned : xs.length = ys.length) :
    (∀ p ∈ xs.zip ys, P p.1 ∧ Q p.2) ↔ (∀ x ∈ xs, P x) ∧ ∀ y ∈ ys, Q y := by
  induction xs generalizing ys with
  | nil =>
    cases ys with
    | nil => simp
    | cons y ys => cases aligned
  | cons x xs ih =>
    cases ys with
    | nil => cases aligned
    | cons y ys =>
      rw [List.zip_cons_cons, List.forall_mem_cons, List.forall_mem_cons, List.forall_mem_cons,
        ih (by simpa using aligned)]
      exact and_and_and_comm

theorem forall_mem_zip_right {α β : Type} {Q : β → Prop} {xs : List α} {ys : List β}
    (aligned : xs.length = ys.length) : (∀ p ∈ xs.zip ys, Q p.2) ↔ ∀ y ∈ ys, Q y := by
  simpa using forall_mem_zip (P := fun _ => True) (Q := Q) aligned

/-- The rules inside one definition. -/
structure Definition.Lawful (d : Definition) : Prop where
  ids : (d.fields.map Field.id).Nodup
  names : (d.fields.map Field.name).Nodup
  unreserved : ∀ f ∈ d.fields, f.id ≠ 65535
  inhabited : d.isEnum → d.entries ≠ []
  entryNames : (d.entries.map Entry.name).Nodup
  entryValues : (d.entries.map Entry.value).Nodup

/-- The rules of a schema. No message holds itself inside, at any depth. -/
structure Schema.Lawful (s : Schema) : Prop where
  names : (s.definitions.map Definition.name).Nodup
  bodies : ∀ d ∈ s.definitions, d.Lawful
  finite : ∀ d ∈ s.definitions, ¬ TransGen s.Holds d.name d.name

namespace Field

theorem reservedIssues_eq_nil_iff (f : Field) : f.reservedIssues = [] ↔ f.id ≠ 65535 := by
  rw [reservedIssues, reservedFieldId]
  split <;> simp_all

theorem idIssues_eq_nil_iff (message : String) (f : Field) (first : Option Field) :
    f.idIssues message first = [] ↔ first = none := by
  cases first <;> simp [idIssues]

theorem nameIssues_eq_nil_iff (message : String) (f : Field) (first : Option Field) :
    f.nameIssues message first = [] ↔ first = none := by
  cases first <;> simp [nameIssues]

end Field

namespace Entry

theorem nameIssues_eq_nil_iff (enum : String) (e : Entry) (first : Option Entry) :
    e.nameIssues enum first = [] ↔ first = none := by
  cases first <;> simp [nameIssues]

theorem valueIssues_eq_nil_iff (e : Entry) (first : Option Entry) :
    e.valueIssues first = [] ↔ first = none := by
  cases first <;> simp [valueIssues]

end Entry

namespace Definition

/-- Fields have no issues if no id is reserved and none of their ids and names is repeated. -/
theorem fieldIssues_eq_nil_iff (message : String) (fields : List Field) :
    fieldIssues message fields = [] ↔
      (∀ f ∈ fields, f.id ≠ 65535) ∧ (fields.map Field.id).Nodup ∧
        (fields.map Field.name).Nodup := by
  have aligned : (earlier Field.id fields).length = (earlier Field.name fields).length := by
    rw [length_earlier, length_earlier]
  have aligned' : fields.length =
      ((earlier Field.id fields).zip (earlier Field.name fields)).length := by
    rw [List.length_zip, ← aligned, Nat.min_self, length_earlier]
  rw [fieldIssues, List.flatMap_eq_nil_iff, ← earlier_none_iff, ← earlier_none_iff,
    ← forall_mem_zip aligned, ← forall_mem_zip aligned']
  simp only [List.append_eq_nil_iff, Field.reservedIssues_eq_nil_iff, Field.idIssues_eq_nil_iff,
    Field.nameIssues_eq_nil_iff, and_assoc]

/-- Entries have no issues if none of their names and values is repeated. -/
theorem entryIssues_eq_nil_iff (enum : String) (entries : List Entry) :
    entryIssues enum entries = [] ↔
      (entries.map Entry.name).Nodup ∧ (entries.map Entry.value).Nodup := by
  have aligned : (earlier Entry.name entries).length = (earlier Entry.value entries).length := by
    rw [length_earlier, length_earlier]
  have aligned' : entries.length =
      ((earlier Entry.name entries).zip (earlier Entry.value entries)).length := by
    rw [List.length_zip, ← aligned, Nat.min_self, length_earlier]
  rw [entryIssues, List.flatMap_eq_nil_iff, ← earlier_none_iff, ← earlier_none_iff,
    ← forall_mem_zip aligned, ← forall_mem_zip_right aligned']
  simp only [List.append_eq_nil_iff, Entry.nameIssues_eq_nil_iff, Entry.valueIssues_eq_nil_iff]

theorem bodyIssues_eq_nil_iff (d : Definition) : d.bodyIssues = [] ↔ d.Lawful := by
  obtain ⟨name, place, body⟩ := d
  cases body with
  | message fields =>
    rw [bodyIssues, fieldIssues_eq_nil_iff]
    constructor
    · rintro ⟨unreserved, ids, names⟩
      exact ⟨ids, names, unreserved, nofun, .nil, .nil⟩
    · intro lawful
      exact ⟨lawful.unreserved, lawful.ids, lawful.names⟩
  | enum entries =>
    cases entries with
    | nil =>
      refine ⟨fun found => ?_, fun lawful => absurd rfl (lawful.inhabited rfl)⟩
      simp [bodyIssues] at found
    | cons e rest =>
      rw [show bodyIssues ⟨name, place, .enum (e :: rest)⟩ = entryIssues name (e :: rest) from rfl,
        entryIssues_eq_nil_iff]
      constructor
      · rintro ⟨names, values⟩
        exact ⟨.nil, .nil, nofun, fun _ => List.cons_ne_nil e rest, names, values⟩
      · intro lawful
        exact ⟨lawful.entryNames, lawful.entryValues⟩

end Definition

namespace Schema

/-- Type names have no issues if none is repeated. -/
theorem typeNameIssues_eq_nil_iff (s : Schema) :
    s.typeNameIssues = [] ↔ (s.definitions.map Definition.name).Nodup := by
  rw [typeNameIssues, withEarlier, List.flatMap_eq_nil_iff, ← earlier_none_iff,
    ← forall_mem_zip_right (length_earlier Definition.name s.definitions).symm]
  simp

/-- With distinct names every definition is found under its name. -/
theorem definition?_of_mem {s : Schema} (distinct : (s.definitions.map Definition.name).Nodup)
    {d : Definition} (member : d ∈ s.definitions) : s.definition? d.name = some d := by
  obtain ⟨found, search⟩ : ∃ found, s.definition? d.name = some found := by
    rw [← Option.isSome_iff_exists, definition?, List.find?_isSome]
    exact ⟨d, member, beq_self_eq_true _⟩
  have same : found.name = d.name := by simpa using List.find?_some search
  rw [search, List.inj_on_of_nodup_map distinct (List.mem_of_find?_eq_some search) member same]

/-- Where names are distinct, no recursion is reported exactly if no definition holds itself. -/
theorem recursionIssues_eq_nil_iff {s : Schema}
    (distinct : (s.definitions.map Definition.name).Nodup) :
    s.recursionIssues = [] ↔ ∀ d ∈ s.definitions, ¬ TransGen s.Holds d.name d.name := by
  rw [recursionIssues, List.map_eq_nil_iff, List.filter_eq_nil_iff]
  refine forall₂_congr fun d member => ?_
  rw [holdsItself_iff_transGen (definition?_of_mem distinct member)]

/-- A schema has no issue exactly when it meets every rule. -/
theorem issues_eq_nil_iff (s : Schema) : s.issues = [] ↔ s.Lawful := by
  rw [issues, List.append_eq_nil_iff, List.append_eq_nil_iff, typeNameIssues_eq_nil_iff,
    List.flatMap_eq_nil_iff]
  simp only [Definition.bodyIssues_eq_nil_iff]
  constructor
  · rintro ⟨⟨names, bodies⟩, recursion⟩
    exact ⟨names, bodies, (recursionIssues_eq_nil_iff names).1 recursion⟩
  · intro lawful
    exact ⟨⟨lawful.names, lawful.bodies⟩, (recursionIssues_eq_nil_iff lawful.names).2 lawful.finite⟩

/-- A schema has no issues if it is read without any, its names resolve and the rules hold. -/
theorem issuesOf_eq_nil_iff (s : Schema) (grammar : List Issue) :
    s.issuesOf grammar = [] ↔ grammar = [] ∧ s.unresolvedIssues = [] ∧ s.resolve.Lawful := by
  rw [issuesOf.eq_def, List.append_eq_nil_iff, List.append_eq_nil_iff, issues_eq_nil_iff, and_assoc]

/-- Tokens are accepted where their draft has no issue of grammar, knows every type and resolves to a
lawful schema. -/
theorem ofTokens_eq_ok_iff_draft {tokens : List Token} {s : Schema} :
    ofTokens tokens = .ok s ↔
      (Parser.document tokens).2 = [] ∧ (Parser.document tokens).1.unresolvedIssues = [] ∧
        (Parser.document tokens).1.resolve = s ∧ s.Lawful := by
  rw [ofTokens]
  obtain ⟨draft, grammar⟩ := Parser.document tokens
  have clean := issuesOf_eq_nil_iff draft grammar
  dsimp only
  constructor
  · intro accepted
    split at accepted
    next found =>
      cases accepted
      have ⟨grammar, known, lawful⟩ := clean.mp (List.isEmpty_iff.mp found)
      exact ⟨grammar, known, rfl, lawful⟩
    next => cases accepted
  · rintro ⟨grammar, known, rfl, lawful⟩
    exact if_pos (List.isEmpty_iff.mpr (clean.mpr ⟨grammar, known, lawful⟩))

theorem lawful_of_ofTokens {tokens : List Token} {s : Schema} (accepted : ofTokens tokens = .ok s) :
    s.Lawful :=
  (ofTokens_eq_ok_iff_draft.mp accepted).2.2.2

theorem bound_of_ofTokens {tokens : List Token} {s : Schema} (accepted : ofTokens tokens = .ok s) :
    s.Bound := by
  obtain ⟨-, known, rfl, -⟩ := ofTokens_eq_ok_iff_draft.mp accepted
  exact bound_resolve known

end Schema

end WireSchema
