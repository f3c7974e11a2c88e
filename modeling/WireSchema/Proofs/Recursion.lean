import Mathlib.Logic.ExistsUnique
import WireSchema.Proofs.RoundTrip

/-!
Messages that hold themselves inside. The check reports exactly those from whose fields a path leads
back to their name. In an accepted schema there is none, so containment is well-founded: no chain of
messages is longer than the list of definitions, and the defaults of messages, each made of the
defaults of its fields, exist and are determined by that.
-/

namespace WireSchema

open Relation

namespace Schema

/-- A path from these fields to a message named `target`. Each step goes through a field that holds
a message and is no array; after the first step it is a field of the first definition of the name
that was reached. -/
inductive Leads (s : Schema) (target : String) : List Field → Prop
  | here {fields : List Field} {f : Field} (member : f ∈ fields) (single : f.isArray = false)
      (held : f.type = .message) (named : f.typeName = target) : Leads s target fields
  | inside {fields : List Field} {f : Field} {e : Definition} (member : f ∈ fields)
      (single : f.isArray = false) (held : f.type = .message)
      (found : s.definition? f.typeName = some e) (path : Leads s target e.fields) :
      Leads s target fields

variable {s : Schema}

/-- Paths through fields are paths through the names of messages. -/
theorem leads_iff {target : String} {d : Definition} :
    s.Leads target d.fields ↔ ∃ b ∈ d.inlineTypes, ReflTransGen s.Holds b target := by
  constructor
  · intro path
    generalize fields : d.fields = start at path
    induction path generalizing d with
    | @here _ f member single held named =>
      subst fields
      exact ⟨target, d.mem_inlineTypes.mpr ⟨f, member, single, held, named⟩, .refl⟩
    | @inside _ f e member single held found _ ih =>
      subst fields
      obtain ⟨b, inside, path⟩ := ih rfl
      exact ⟨f.typeName, d.mem_inlineTypes.mpr ⟨f, member, single, held, rfl⟩,
        path.head (holds_iff.mpr ⟨e, found, inside⟩)⟩
  · rintro ⟨b, inside, path⟩
    induction path using ReflTransGen.head_induction_on generalizing d with
    | refl =>
      obtain ⟨f, member, single, held, named⟩ := d.mem_inlineTypes.mp inside
      exact .here member single held named
    | head step _ ih =>
      obtain ⟨f, member, single, held, rfl⟩ := d.mem_inlineTypes.mp inside
      obtain ⟨e, found, further⟩ := holds_iff.mp step
      exact .inside member single held found (ih further)

/-- The search decides whether a definition leads back to its own name. -/
theorem holdsItself_iff_leads (s : Schema) (d : Definition) :
    s.holdsItself d = true ↔ s.Leads d.name d.fields := by
  rw [holdsItself_iff, leads_iff]

instance (s : Schema) (d : Definition) : Decidable (s.Leads d.name d.fields) :=
  decidable_of_iff _ (s.holdsItself_iff_leads d)

theorem filter_leads (s : Schema) :
    (s.definitions.filter fun d => s.Leads d.name d.fields) =
      s.definitions.filter s.holdsItself := by
  apply List.filter_congr
  intro d _
  rw [Bool.eq_iff_iff, decide_eq_true_iff, holdsItself_iff_leads]

/-! Only the search for recursion gives issues of its kind. -/

theorem kind_of_mem_typeNameIssues {i : Issue} (member : i ∈ s.typeNameIssues) :
    i.kind = .duplicateTypeName := by
  obtain ⟨⟨d, first⟩, -, found⟩ := List.mem_flatMap.mp member
  dsimp only at found
  split at found
  · rw [List.mem_singleton.mp found]
    rfl
  · cases found

/-- The issues of a field concern its id or its name. -/
theorem kind_of_mem_fieldIssues {message : String} {fields : List Field} {i : Issue}
    (member : i ∈ Definition.fieldIssues message fields) :
    i.kind = .reservedFieldId ∨ i.kind = .duplicateFieldId ∨ i.kind = .duplicateFieldName := by
  obtain ⟨⟨f, sameId, sameName⟩, -, found⟩ := List.mem_flatMap.mp member
  simp only [List.mem_append] at found
  rcases found with (found | found) | found
  · rw [Field.reservedIssues] at found
    split at found
    · rw [List.mem_singleton.mp found]
      exact Or.inl rfl
    · cases found
  · cases sameId with
    | none => cases found
    | some first =>
      rw [List.mem_singleton.mp found]
      exact Or.inr (Or.inl rfl)
  · cases sameName with
    | none => cases found
    | some first =>
      rw [List.mem_singleton.mp found]
      exact Or.inr (Or.inr rfl)

theorem kind_of_mem_entryIssues {enum : String} {entries : List Entry} {i : Issue}
    (member : i ∈ Definition.entryIssues enum entries) :
    i.kind = .duplicateEnumName ∨ i.kind = .duplicateEnumValue := by
  obtain ⟨⟨e, sameName, sameValue⟩, -, found⟩ := List.mem_flatMap.mp member
  rcases List.mem_append.mp found with found | found
  · cases sameName with
    | none => cases found
    | some first =>
      rw [List.mem_singleton.mp found]
      exact Or.inl rfl
  · cases sameValue with
    | none => cases found
    | some first =>
      rw [List.mem_singleton.mp found]
      exact Or.inr rfl

/-- No issue of a body is one of recursion. -/
theorem kind_of_mem_bodyIssues {d : Definition} {i : Issue} (member : i ∈ d.bodyIssues) :
    i.kind ≠ .recursiveMessage := by
  rw [Definition.bodyIssues] at member
  split at member
  · rcases kind_of_mem_fieldIssues member with kind | kind | kind <;> simp [kind]
  · rw [List.mem_singleton.mp member]
    simp [Cause.issueAt, Cause.kind]
  · rcases kind_of_mem_entryIssues member with kind | kind <;> simp [kind]

/-- The recursion issues of a schema, among all of its issues. -/
theorem filter_issues_recursiveMessage (s : Schema) :
    s.issues.filter (fun i => i.kind = .recursiveMessage) = s.recursionIssues := by
  have names : s.typeNameIssues.filter (fun i => i.kind = .recursiveMessage) = [] := by
    rw [List.filter_eq_nil_iff]
    intro i member
    simp [kind_of_mem_typeNameIssues member]
  have bodies : (s.definitions.flatMap Definition.bodyIssues).filter
      (fun i => i.kind = .recursiveMessage) = [] := by
    rw [List.filter_eq_nil_iff]
    intro i member
    obtain ⟨d, -, found⟩ := List.mem_flatMap.mp member
    simp [kind_of_mem_bodyIssues found]
  have recursion : s.recursionIssues.filter (fun i => i.kind = .recursiveMessage) =
      s.recursionIssues := by
    rw [List.filter_eq_self]
    intro i member
    obtain ⟨d, -, rfl⟩ := List.mem_map.mp member
    rfl
  rw [issues, List.filter_append, List.filter_append, names, bodies, recursion]
  rfl

/-! Chains of messages that hold one another. -/

/-- Every chain from `a` ends after at most this many definitions. -/
def Within (s : Schema) : Nat → String → Prop
  | 0, a => s.definition? a = none
  | n + 1, a => ∀ b, s.Holds a b → s.Within n b

/-- A name without a definition holds nothing. -/
theorem not_holds_of_undefined {a b : String} (undefined : s.definition? a = none) :
    ¬ s.Holds a b := by
  rintro ⟨d, found, -⟩
  cases undefined.symm.trans found

/-- Where no name leads back to itself, a chain passes each definition at most once: `definitions`
are those that are still ahead of `a`. -/
theorem within_of_acyclic (acyclic : ∀ a, ¬ TransGen s.Holds a a) (n : Nat)
    (definitions : List Definition) (a : String) (room : definitions.length ≤ n)
    (ahead : ∀ b, ReflTransGen s.Holds a b → ∀ d, s.definition? b = some d →
      definitions.find? (fun d => d.name == b) = some d) : s.Within n a := by
  induction n generalizing definitions a with
  | zero =>
    have none : definitions = [] := List.length_eq_zero_iff.mp (Nat.le_zero.mp room)
    subst none
    change s.definition? a = none
    cases found : s.definition? a with
    | none => rfl
    | some d => cases ahead a .refl d found
  | succ n ih =>
    intro b step
    have ⟨d, found, _⟩ := step
    have fewer := length_othersThan_lt (ahead a .refl d found)
    apply ih (othersThan a definitions) b (by omega)
    intro c path e known
    have other : c ≠ a := by
      rintro rfl
      exact acyclic c (TransGen.head' step path)
    rw [find?_othersThan other]
    exact ahead c (path.head step) e known

theorem Lawful.within (lawful : s.Lawful) (a : String) : s.Within s.definitions.length a :=
  within_of_acyclic lawful.acyclic _ s.definitions a (Nat.le_refl _) fun _ _ _ found => found

/-- What is held within so many levels cannot go on for ever. -/
theorem Within.acc {n : Nat} {a : String} (within : s.Within n a) :
    Acc (fun inner outer => s.Holds outer inner) a := by
  induction n generalizing a with
  | zero => exact ⟨_, fun b step => absurd step (not_holds_of_undefined within)⟩
  | succ n ih => exact ⟨_, fun b step => ih (within b step)⟩

/-! Defaults. -/

/-- The default of a field needs no default but that of the message held inside it. -/
theorem defaultValueWith_congr {g h : String → List Value} {f : Field}
    (same : f.isInline → g f.typeName = h f.typeName) :
    s.defaultValueWith g f = s.defaultValueWith h f := by
  rw [defaultValueWith, defaultValueWith]
  cases optional : f.isOptional with
  | true => rfl
  | false =>
    cases array : f.isArray with
    | true => rfl
    | false =>
      cases type : f.type with
      | primitive p => rfl
      | enum => rfl
      | message =>
        have held : f.isInline = true := by simp [Field.isInline, array, type]
        simp [same held]

/-- The default of a message depends on those of the messages it holds, and on no others. -/
theorem map_defaultValueWith_congr {g h : String → List Value} {a : String}
    (same : ∀ b, s.Holds a b → g b = h b) :
    (s.fieldsOf a).map (s.defaultValueWith g) = (s.fieldsOf a).map (s.defaultValueWith h) := by
  apply List.map_congr_left
  intro f member
  exact defaultValueWith_congr fun held => same f.typeName (holds_of_isInline member held)

/-- A depth that all chains fit into is as good as the next one. -/
theorem Within.defaultMessageTo_succ {n : Nat} {a : String} (within : s.Within n a) :
    s.defaultMessageTo (n + 1) a = s.defaultMessageTo n a := by
  induction n generalizing a with
  | zero =>
    have undefined : s.definition? a = none := within
    rw [defaultMessageTo, defaultMessageTo, fieldsOf, undefined]
    rfl
  | succ n ih =>
    rw [defaultMessageTo, defaultMessageTo]
    exact map_defaultValueWith_congr fun b step => ih (within b step)

/-- The default of a message is made of the defaults of its fields. -/
theorem Lawful.defaultMessage_unfold (lawful : s.Lawful) (a : String) :
    s.defaultMessage a = (s.fieldsOf a).map (s.defaultValueWith s.defaultMessage) := by
  rw [defaultMessage, ← (lawful.within a).defaultMessageTo_succ, defaultMessageTo]
  rfl

/-- Nothing else is made of the defaults of its fields. -/
theorem Lawful.eq_defaultMessage (lawful : s.Lawful) {g : String → List Value}
    (made : ∀ a, g a = (s.fieldsOf a).map (s.defaultValueWith g)) : g = s.defaultMessage := by
  funext a
  induction (lawful.within a).acc with
  | intro a _ ih =>
    rw [made, lawful.defaultMessage_unfold]
    exact map_defaultValueWith_congr ih

/-- Recursion is reported once for every definition whose fields lead back to its name, in the order
of the definitions, and for no other. In an accepted schema containment is well-founded, and there
is exactly one way to give each message a default that is made of the defaults of its fields; it is
a message of its type. -/
theorem recursion_reported_exactly (s : Schema) :
    s.issues.filter (fun i => i.kind = .recursiveMessage) =
      (s.definitions.filter fun d => s.Leads d.name d.fields).map
        (fun d => (Cause.recursiveMessage d.name).issueAt d.place) ∧
    ∀ tokens, ofTokens tokens = .ok s →
      WellFounded (fun inner outer => s.Holds outer inner) ∧
      (∃! default : String → List Value,
        ∀ name, default name = (s.fieldsOf name).map (s.defaultValueWith default)) ∧
      ∀ name, s.defaultMessage name = (s.fieldsOf name).map (s.defaultValueWith s.defaultMessage) ∧
        s.admitsAll (s.fieldsOf name) (s.defaultMessage name) := by
  constructor
  · rw [filter_issues_recursiveMessage, recursionIssues, filter_leads]
  · intro tokens accepted
    have lawful := lawful_of_ofTokens accepted
    have grounded := lawful.grounded (bound_of_ofTokens accepted)
    refine ⟨⟨fun a => (lawful.within a).acc⟩, ⟨s.defaultMessage, ?_, ?_⟩, fun name => ?_⟩
    · exact lawful.defaultMessage_unfold
    · exact fun g made => lawful.eq_defaultMessage made
    · exact ⟨lawful.defaultMessage_unfold name, (grounded name).1⟩

end Schema

def knotField (typeName : String) (id : UInt16) (isOptional isArray : Bool) : Field :=
  ⟨.message, typeName, "x", id, isOptional, isArray, ⟨1, 1⟩⟩

/-- Two ways lead from `A` to `D`, and on to a cycle that does not meet `A`. Nothing defines
`Ghost`, the array in `C` holds nothing inside, and `A` is defined a second time. -/
def knot : Schema where
  defines := []
  definitions :=
    [⟨"A", ⟨1, 9⟩, .message [knotField "B" 0 false false, knotField "C" 1 false false]⟩,
      ⟨"B", ⟨2, 9⟩, .message [knotField "D" 0 false false]⟩,
      ⟨"C", ⟨3, 9⟩, .message
        [knotField "Ghost" 0 false false, knotField "C" 1 false true, knotField "D" 2 true false]⟩,
      ⟨"D", ⟨4, 9⟩, .message [knotField "E" 0 true false]⟩,
      ⟨"E", ⟨5, 9⟩, .message [knotField "D" 0 false false]⟩,
      ⟨"A", ⟨6, 9⟩, .message [knotField "B" 0 false false, knotField "A" 1 true false]⟩]

theorem filter_holdsItself_knot :
    knot.definitions.filter knot.holdsItself = knot.definitions.drop 3 := by cbv

namespace Schema

theorem recursion_reported_knot :
    (knot.issues.filter fun i => i.kind = .recursiveMessage).map Issue.place =
      [⟨4, 9⟩, ⟨5, 9⟩, ⟨6, 9⟩] ∧
    ofTokens forestTokens = .ok forest ∧
      WellFounded (fun inner outer => forest.Holds outer inner) ∧
      forest.defaultMessage "Tree" =
        (forest.fieldsOf "Tree").map (forest.defaultValueWith forest.defaultMessage) ∧
      forest.admitsAll (forest.fieldsOf "Tree") (forest.defaultMessage "Tree") := by
  obtain ⟨finite, -, defaults⟩ :=
    (recursion_reported_exactly forest).2 forestTokens forest_accepted
  refine ⟨?_, forest_accepted, finite, defaults "Tree"⟩
  rw [(recursion_reported_exactly knot).1, filter_leads, filter_holdsItself_knot]
  rfl

end Schema

end WireSchema
