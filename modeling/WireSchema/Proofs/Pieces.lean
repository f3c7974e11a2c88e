import Mathlib.Data.List.TakeWhile

/-!
Where a run ends, what trimming leaves, and the pieces between separators. Each is said about the
list itself: a run ends where the test fails first, what is trimmed off passes the test and what is
left neither begins nor ends with a member that does, and the pieces are free of the separator and
give the list back when it is put between them.
-/

namespace WireSchema

variable {α : Type} {test : α → Bool} {a : α} {l after whole part : List α}

/-! Runs. -/

/-- A list whose first member, if there is one, fails the test. -/
def Ends (test : α → Bool) (l : List α) : Prop := ∀ a ∈ l.head?, test a = false

theorem ends_nil : Ends test [] := nofun

theorem ends_cons : Ends test (a :: l) ↔ test a = false := by
  simp [Ends]

theorem ends_dropWhile (test : α → Bool) (l : List α) : Ends test (l.dropWhile test) := by
  intro a first
  have stopped := List.head?_dropWhile_not test l
  rw [Option.mem_def.mp first] at stopped
  exact stopped

theorem drop_takeWhile_length (test : α → Bool) (l : List α) :
    l.drop (l.takeWhile test).length = l.dropWhile test := by
  induction l with
  | nil => rfl
  | cons a l ih =>
    rw [List.takeWhile_cons, List.dropWhile_cons]
    split
    · exact ih
    · rfl

/-- What follows a run does not make it longer. -/
theorem takeWhile_append_ends (ends : Ends test after) (l : List α) :
    (l ++ after).takeWhile test = l.takeWhile test := by
  induction l with
  | nil =>
    cases after with
    | nil => rfl
    | cons a after => rw [List.nil_append, List.takeWhile_cons, ends_cons.mp ends]; rfl
  | cons a l ih => rw [List.cons_append, List.takeWhile_cons, List.takeWhile_cons, ih]

/-- What follows a run stays when the run is dropped. -/
theorem dropWhile_append_ends (ends : Ends test after) (l : List α) :
    (l ++ after).dropWhile test = l.dropWhile test ++ after := by
  induction l with
  | nil =>
    cases after with
    | nil => rfl
    | cons a after => rw [List.nil_append, List.dropWhile_cons, ends_cons.mp ends]; rfl
  | cons a l ih =>
    rw [List.cons_append, List.dropWhile_cons, List.dropWhile_cons, ih]
    split <;> rfl

theorem dropWhile_eq_of_ends (pass : ∀ a ∈ l, test a = true) (ends : Ends test after) :
    (l ++ after).dropWhile test = after := by
  rw [dropWhile_append_ends ends, List.dropWhile_eq_nil_iff.mpr pass, List.nil_append]

/-! Trimming. -/

/-- `part` is what is left of `whole` without the members at both of its ends that pass the test. -/
structure Trims (test : α → Bool) (whole part : List α) : Prop where
  cut : ∃ front back, whole = front ++ (part ++ back) ∧ (∀ a ∈ front, test a = true) ∧
    ∀ a ∈ back, test a = true
  first : ∀ a ∈ part.head?, test a = false
  last : ∀ a ∈ part.getLast?, test a = false

/-- Trimming has one result. -/
theorem Trims.eq (trims : Trims test whole part) :
    part = ((whole.dropWhile test).reverse.dropWhile test).reverse := by
  obtain ⟨⟨front, back, rfl, before, behind⟩, first, last⟩ := trims
  cases part with
  | nil =>
    have gone : (front ++ ([] ++ back)).dropWhile test = [] :=
      List.dropWhile_eq_nil_iff.mpr (List.forall_mem_append.mpr ⟨before, behind⟩)
    rw [gone]
    rfl
  | cons a part =>
    have starts : Ends test (a :: part ++ back) := ends_cons.mpr (first a rfl)
    have stops : Ends test (a :: part).reverse := by
      rw [Ends, List.head?_reverse]
      exact last
    rw [dropWhile_eq_of_ends before starts, List.reverse_append,
      dropWhile_eq_of_ends (fun b member => behind b (List.mem_reverse.mp member)) stops,
      List.reverse_reverse]

/-- Dropping the run in front, and then the one in front of the reverse, trims a list. -/
theorem trims_dropWhile (test : α → Bool) (whole : List α) :
    Trims test whole ((whole.dropWhile test).reverse.dropWhile test).reverse := by
  have split : whole.dropWhile test =
      ((whole.dropWhile test).reverse.dropWhile test).reverse ++
        ((whole.dropWhile test).reverse.takeWhile test).reverse := by
    rw [← List.reverse_append, List.takeWhile_append_dropWhile, List.reverse_reverse]
  constructor
  · refine ⟨whole.takeWhile test, ((whole.dropWhile test).reverse.takeWhile test).reverse, ?_,
      fun a => List.mem_takeWhile_imp, ?_⟩
    · rw [← split, List.takeWhile_append_dropWhile]
    · exact fun a member => List.mem_takeWhile_imp (List.mem_reverse.mp member)
  · intro a first
    apply ends_dropWhile test whole a
    rw [split, List.head?_append, Option.mem_def.mp first]
    rfl
  · intro a last
    rw [List.getLast?_reverse] at last
    exact ends_dropWhile test _ a last

/-- What is trimmed is the whole without what passes at its ends. -/
theorem trims_iff : Trims test whole part ↔
    part = ((whole.dropWhile test).reverse.dropWhile test).reverse := by
  constructor
  · exact Trims.eq
  · rintro rfl
    exact trims_dropWhile test whole

/-! Pieces. -/

section

variable [BEq α] [LawfulBEq α] {separator : α} {pieces : List (List α)} {piece : List α}

/-- The pieces of a list between the separators in it. There is one more than there are
separators. -/
structure Separates (separator : α) (whole : List α) (pieces : List (List α)) : Prop where
  nonempty : pieces ≠ []
  free : ∀ piece ∈ pieces, separator ∉ piece
  joined : [separator].intercalate pieces = whole

/-- No piece has a separator in it, and all of it comes from the list. -/
theorem mem_splitOn (member : piece ∈ l.splitOn separator) : separator ∉ piece ∧ piece ⊆ l := by
  induction l generalizing piece with
  | nil =>
    rw [List.splitOn_nil, List.mem_singleton] at member
    simp [member]
  | cons b l ih =>
    obtain ⟨first, rest, whole⟩ := List.exists_cons_of_ne_nil (List.splitOn_ne_nil separator l)
    rw [whole] at ih
    rw [List.splitOn_cons_eq_if_modifyHead, whole] at member
    by_cases here : b = separator
    · rw [if_pos (by simpa using here)] at member
      rcases List.mem_cons.mp member with rfl | member
      · simp
      · exact ⟨(ih member).1, List.subset_cons_of_subset b (ih member).2⟩
    · rw [if_neg (by simpa using here)] at member
      rcases List.mem_cons.mp member with rfl | member
      · obtain ⟨free, inside⟩ := ih List.mem_cons_self
        exact ⟨by simp [free, Ne.symm here], List.cons_subset_cons b inside⟩
      · obtain ⟨free, inside⟩ := ih (List.mem_cons_of_mem first member)
        exact ⟨free, List.subset_cons_of_subset b inside⟩

/-- A list is separated in one way. -/
theorem separates_iff : Separates separator whole pieces ↔ pieces = whole.splitOn separator := by
  constructor
  · rintro ⟨nonempty, free, rfl⟩
    exact (List.splitOn_intercalate separator free nonempty).symm
  · rintro rfl
    exact ⟨List.splitOn_ne_nil separator whole, fun piece member => (mem_splitOn member).1,
      List.intercalate_splitOn separator⟩

end

end WireSchema
