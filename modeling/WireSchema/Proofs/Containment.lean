import Mathlib.Logic.Relation
import WireSchema.Schema.Check

/-!
The search for containment, compared with paths. It finds its target exactly when a path of messages
held inside one another leads there, on any list of definitions: names may be repeated, unknown or
on cycles that do not meet the target.
-/

namespace WireSchema

open Relation

/-- The first of these definitions with the name `a` holds a message `b` inside it: it has a field
for such a message that is no array. -/
def HoldsIn (definitions : List Definition) (a b : String) : Prop :=
  ∃ d, definitions.find? (fun d => d.name == a) = some d ∧
    ∃ f ∈ d.fields, f.isArray = false ∧ f.type = .message ∧ f.typeName = b

/-- The messages held inside are those of the fields that are messages and no arrays. -/
theorem Definition.mem_inlineTypes {d : Definition} {b : String} :
    b ∈ d.inlineTypes ↔ ∃ f ∈ d.fields, f.isArray = false ∧ f.type = .message ∧ f.typeName = b := by
  simp [inlineTypes, Field.isInline, and_assoc]

/-- Paths may be cut so that they leave `x` at most at their start. -/
theorem reflTransGen_leaving {α : Type} {r : α → α → Prop} {a b : α} (x : α)
    (path : ReflTransGen r a b) (other : x ≠ b) :
    ReflTransGen (fun c d => c ≠ x ∧ r c d) a b ∨
      ∃ c, r x c ∧ ReflTransGen (fun c d => c ≠ x ∧ r c d) c b := by
  induction path using ReflTransGen.head_induction_on with
  | refl => exact Or.inl ReflTransGen.refl
  | @head c d step _ ih =>
    rcases ih with avoiding | through
    · by_cases same : c = x
      · subst same
        exact Or.inr ⟨d, step, avoiding⟩
      · exact Or.inl (avoiding.head ⟨same, step⟩)
    · exact Or.inr through

/-- Taking a name out does not change what other names stand for. -/
theorem find?_othersThan {a name : String} (other : a ≠ name) (definitions : List Definition) :
    (othersThan name definitions).find? (fun d => d.name == a) =
      definitions.find? fun d => d.name == a := by
  rw [othersThan, List.find?_filter]
  congr 1
  funext d
  by_cases same : d.name = a
  · simp [same, other]
  · simp [same]

theorem find?_othersThan_self (name : String) (definitions : List Definition) :
    (othersThan name definitions).find? (fun d => d.name == name) = none := by
  rw [othersThan, List.find?_filter, List.find?_eq_none]
  intro d _
  simp

/-- Taking a name out removes the steps that leave it. -/
theorem holdsIn_othersThan (name : String) (definitions : List Definition) :
    HoldsIn (othersThan name definitions) = fun a b => a ≠ name ∧ HoldsIn definitions a b := by
  funext a b
  by_cases same : a = name
  · subst same
    simp [HoldsIn, find?_othersThan_self]
  · simp [HoldsIn, find?_othersThan same, same]

/-- The search is exact: it answers yes where one of the pending names leads to the target. -/
theorem reachesInline_iff (target : String) (unvisited : List Definition)
    (pending : List String) :
    reachesInline target unvisited pending = true ↔
      ∃ name ∈ pending, ReflTransGen (HoldsIn unvisited) name target := by
  fun_induction reachesInline target unvisited pending with
  | case1 => simp
  | case2 unvisited name rest same =>
    have equal : name = target := by simpa using same
    subst equal
    simp only [true_iff]
    exact ⟨name, List.mem_cons_self, ReflTransGen.refl⟩
  | case3 unvisited name rest other missing ih =>
    have stuck : ∀ b, ¬ HoldsIn unvisited name b := by
      rintro b ⟨d, found, -⟩
      rw [missing] at found
      cases found
    rw [ih]
    constructor
    · rintro ⟨a, member, path⟩
      exact ⟨a, List.mem_cons_of_mem _ member, path⟩
    · rintro ⟨a, member, path⟩
      cases member with
      | tail _ member => exact ⟨a, member, path⟩
      | head =>
        rcases path.cases_head with same | ⟨b, step, -⟩
        · exact absurd same (by simpa using other)
        · exact absurd step (stuck b)
  | case4 unvisited name rest other d found ih =>
    have differs : name ≠ target := by simpa using other
    rw [ih, holdsIn_othersThan]
    constructor
    · rintro ⟨a, member, path⟩
      have wider : ReflTransGen (HoldsIn unvisited) a target :=
        ReflTransGen.mono (fun _ _ step => step.2) _ _ path
      rcases List.mem_append.mp member with inside | later
      · exact ⟨name, List.mem_cons_self, wider.head ⟨d, found, d.mem_inlineTypes.mp inside⟩⟩
      · exact ⟨a, List.mem_cons_of_mem _ later, wider⟩
    · rintro ⟨a, member, path⟩
      -- The search may forget `name`: what follows its last visit starts at a message held inside it.
      rcases reflTransGen_leaving name path differs with avoiding | ⟨b, ⟨e, found', inside⟩, avoiding⟩
      · cases member with
        | tail _ later => exact ⟨a, List.mem_append_right _ later, avoiding⟩
        | head =>
          rcases avoiding.cases_head with same | ⟨b, step, -⟩
          · exact absurd same differs
          · exact absurd rfl step.1
      · rw [found] at found'
        cases found'
        exact ⟨b, List.mem_append_left _ (d.mem_inlineTypes.mpr inside), avoiding⟩

namespace Schema

/-- The message `a` of this schema holds a message `b` inside it. -/
def Holds (s : Schema) : String → String → Prop := HoldsIn s.definitions

/-- One message holds another inside it exactly if that one is among its messages held inside. -/
theorem holds_iff {s : Schema} {a b : String} :
    s.Holds a b ↔ ∃ d, s.definition? a = some d ∧ b ∈ d.inlineTypes := by
  simp only [Definition.mem_inlineTypes]
  rfl

/-- A definition is found to hold itself where a path leads from one of its fields to its name. -/
theorem holdsItself_iff (s : Schema) (d : Definition) :
    s.holdsItself d = true ↔ ∃ b ∈ d.inlineTypes, ReflTransGen s.Holds b d.name :=
  reachesInline_iff d.name s.definitions d.inlineTypes

/-- The definition that its name stands for holds itself where a path leads from the name back to
it. -/
theorem holdsItself_iff_transGen {s : Schema} {d : Definition}
    (first : s.definition? d.name = some d) :
    s.holdsItself d = true ↔ TransGen s.Holds d.name d.name := by
  rw [holdsItself_iff, TransGen.head'_iff]
  constructor
  · rintro ⟨b, inside, path⟩
    exact ⟨b, holds_iff.mpr ⟨d, first, inside⟩, path⟩
  · rintro ⟨b, step, path⟩
    obtain ⟨e, found, inside⟩ := holds_iff.mp step
    cases first.symm.trans found
    exact ⟨b, inside, path⟩

end Schema

end WireSchema
