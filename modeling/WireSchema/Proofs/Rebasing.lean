import Mathlib.Data.List.Infix
import WireSchema.Proofs.Wrapping

/-!
Writing in place. Steps that keep above the depth where they start, and end there, give the same
text whether they run on a listing or on an empty one that is then appended to it. Both ways write
the same rows. They differ in the depths that empty lines remember, which no text shows, and in
where a dedent is held up, which these steps never come to.
-/

namespace WireSchema.Code

/-! The depth of steps. -/

inductive Move where
  | up | down
  deriving DecidableEq

open Move

mutual

/-- How a step moves the depth. What it appends moves on a listing of its own. -/
def Step.moves : Step → List Move
  | .line _ => []
  | .blank => []
  | .indent => [up]
  | .dedent => [down]
  | .enter _ => [up]
  | .leave => [down]
  | .leaveWith _ => [down]
  | .reenter _ => [down, up]
  | .block _ body => [up] ++ Step.movesAll body ++ [down]
  | .append _ => []

def Step.movesAll : List Step → List Move
  | [] => []
  | s :: steps => s.moves ++ Step.movesAll steps

end

def Stays (moves : List Move) : Prop :=
  ∀ front, front <+: moves → front.count down ≤ front.count up

instance (moves : List Move) : Decidable (Stays moves) :=
  decidable_of_iff (∀ front ∈ moves.inits, front.count down ≤ front.count up)
    (by simp only [Stays, List.mem_inits])

theorem Stays.front {moves later : List Move} (stays : Stays (moves ++ later)) : Stays moves :=
  fun front inside => stays front (inside.trans (List.prefix_append moves later))

/-- Steps that never go below the depth where they start, and end there. -/
structure Level (steps : List Step) : Prop where
  above : Stays (Step.movesAll steps)
  back : (Step.movesAll steps).count down = (Step.movesAll steps).count up

instance (steps : List Step) : Decidable (Level steps) :=
  decidable_of_iff (Stays (Step.movesAll steps) ∧
      (Step.movesAll steps).count down = (Step.movesAll steps).count up)
    ⟨fun ⟨above, back⟩ => ⟨above, back⟩, fun level => ⟨level.above, level.back⟩⟩

/-! Both ways of writing, side by side. -/

/-- An operation that keeps the depth and adds rows, moved to that depth. -/
structure AddsRows (added : List (List Char)) (write : Listing → Listing) : Prop where
  depth : ∀ l, (write l).depth = l.depth
  rows : ∀ l, (write l).rows = l.rows ++ added.map (indentLine (4 * l.depth))

theorem addsRows_addLine (text : String) :
    AddsRows ((pieces text).map String.toList) (Listing.addLine · text) :=
  ⟨fun _ => rfl, fun l => l.rows_addLine text⟩

theorem addsRows_addBlank : AddsRows [[]] Listing.addBlank := by
  refine ⟨fun _ => rfl, fun l => ?_⟩
  simp [Listing.rows, Listing.addBlank, Line.chars, indentLine]

theorem addsRows_append (other : Listing) : AddsRows other.rows (Listing.append · other) :=
  ⟨fun l => l.depth_append other, fun l => l.rows_append other⟩

/-- Two listings after the same moves, one that began as `base` and one that began empty. The first
has the rows of the second behind those of `base`. -/
structure Alongside (base : Listing) (moves : List Move) (inner l : Listing) : Prop where
  /-- No dedent has been held up at zero. -/
  climbed : inner.depth + moves.count down = moves.count up
  depth : l.depth = base.depth + inner.depth
  rows : l.rows = base.rows ++ inner.rows.map (indentLine (4 * base.depth))

namespace Alongside

variable {base inner l : Listing} {moves : List Move}

theorem start (base : Listing) : Alongside base [] .empty base :=
  ⟨rfl, rfl, (List.append_nil base.rows).symm⟩

/-- Rows that both listings get keep them alongside. -/
theorem addRows {added : List (List Char)} {write : Listing → Listing} (adds : AddsRows added write)
    (along : Alongside base moves inner l) : Alongside base moves (write inner) (write l) := by
  obtain ⟨climbed, depth, rows⟩ := along
  have both : indentLine (4 * base.depth) ∘ indentLine (4 * inner.depth) =
      indentLine (4 * l.depth) := by
    funext line
    rw [Function.comp_apply, indentLine_indentLine, depth, Nat.mul_add]
  refine ⟨by rw [adds.depth, climbed], by rw [adds.depth, adds.depth, depth], ?_⟩
  rw [adds.rows, adds.rows, List.map_append, List.map_map, both, rows, List.append_assoc]

theorem line (along : Alongside base moves inner l) (text : String) :
    Alongside base moves (inner.addLine text) (l.addLine text) :=
  along.addRows (addsRows_addLine text)

theorem indent (along : Alongside base moves inner l) :
    Alongside base (moves ++ [up]) inner.indent l.indent := by
  obtain ⟨climbed, depth, rows⟩ := along
  have downs : (moves ++ [up]).count down = moves.count down := by simp
  have ups : (moves ++ [up]).count up = moves.count up + 1 := by simp
  have deeper : inner.indent.depth = inner.depth + 1 := rfl
  exact ⟨by omega, congrArg (· + 1) depth, rows⟩

/-- Moving left keeps them alongside as long as the inner listing does not leave its edge. -/
theorem dedent (along : Alongside base moves inner l) (stays : Stays (moves ++ [down])) :
    Alongside base (moves ++ [down]) inner.dedent l.dedent := by
  obtain ⟨climbed, depth, rows⟩ := along
  have downs : (moves ++ [down]).count down = moves.count down + 1 := by simp
  have ups : (moves ++ [down]).count up = moves.count up := by simp
  have above := stays _ (List.prefix_refl _)
  -- the listing that began empty has depth left, so neither dedent is held up
  have back : inner.dedent.depth + 1 = inner.depth := Nat.sub_add_cancel (by omega)
  have outer : l.dedent.depth = l.depth - 1 := rfl
  exact ⟨by omega, by omega, rows⟩

end Alongside

mutual

/-- A step does the same to both, as long as it stays above the start. -/
theorem Step.alongside_run : (s : Step) → {base inner l : Listing} → {moves : List Move} →
    Alongside base moves inner l → Stays (moves ++ s.moves) →
    Alongside base (moves ++ s.moves) (s.run inner) (s.run l)
  | .line text, _, _, _, _, along, _ => by
    rw [Step.run, Step.run, Step.moves, List.append_nil]
    exact along.line text
  | .blank, _, _, _, _, along, _ => by
    rw [Step.run, Step.run, Step.moves, List.append_nil]
    exact along.addRows addsRows_addBlank
  | .indent, _, _, _, _, along, _ => by
    rw [Step.run, Step.run, Step.moves]
    exact along.indent
  | .dedent, _, _, _, _, along, stays => by
    rw [Step.moves] at stays ⊢
    rw [Step.run, Step.run]
    exact along.dedent stays
  | .enter header, _, _, _, _, along, _ => by
    rw [Step.run, Step.run, Step.moves]
    exact (along.line _).indent
  | .leave, _, _, _, _, along, stays => by
    rw [Step.moves] at stays ⊢
    rw [Step.run, Step.run]
    exact (along.dedent stays).line _
  | .leaveWith text, _, _, _, _, along, stays => by
    rw [Step.moves] at stays ⊢
    rw [Step.run, Step.run]
    exact (along.dedent stays).line text
  | .reenter header, _, _, _, moves, along, stays => by
    rw [Step.moves, List.append_cons] at stays ⊢
    rw [Step.run, Step.run]
    exact ((along.dedent stays.front).line _).indent
  | .block header body, _, _, _, moves, along, stays => by
    rw [Step.moves, ← List.append_assoc, ← List.append_assoc] at stays ⊢
    have inside := Step.alongside_runAll body (along.line (opened header)).indent stays.front
    rw [Step.run, Step.run]
    exact (inside.dedent stays).line _
  | .append body, _, _, _, _, along, _ => by
    rw [Step.run, Step.run, Step.moves, List.append_nil]
    exact along.addRows (addsRows_append (Step.runAll body .empty))

/-- Steps that stay keep the listings alongside, one after the other. -/
theorem Step.alongside_runAll : (steps : List Step) → {base inner l : Listing} →
    {moves : List Move} → Alongside base moves inner l → Stays (moves ++ Step.movesAll steps) →
    Alongside base (moves ++ Step.movesAll steps) (Step.runAll steps inner) (Step.runAll steps l)
  | [], _, _, _, _, along, _ => by
    rw [Step.runAll, Step.runAll, Step.movesAll, List.append_nil]
    exact along
  | s :: steps, _, _, _, _, along, stays => by
    rw [Step.movesAll, ← List.append_assoc] at stays ⊢
    rw [Step.runAll, Step.runAll]
    exact Step.alongside_runAll steps (Step.alongside_run s along stays.front) stays

end

/-- Level steps may be written on a listing or appended to it. -/
theorem runAll_inPlace (w : Listing) {steps : List Step} (level : Level steps) :
    (Step.runAll steps w).depth = (w.append (Listing.ofSteps steps)).depth ∧
      (Step.runAll steps w).render = (w.append (Listing.ofSteps steps)).render := by
  have along : Alongside w (Step.movesAll steps) (Listing.ofSteps steps) (Step.runAll steps w) :=
    Step.alongside_runAll steps (.start w) level.above
  have back : (Listing.ofSteps steps).depth = 0 := by
    have climbed := along.climbed
    rw [level.back] at climbed
    omega
  constructor
  · rw [along.depth, back, Listing.depth_append, Nat.add_zero]
  · apply String.toList_inj.mp
    rw [Listing.toList_render, Listing.toList_render, along.rows, Listing.rows_append]

/-- A block that goes below its own depth but not below the start, around a part that is held up at
zero on a listing of its own. -/
def crossing : List Step :=
  [ .line "x  \n\ny", .indent, .indent, .reenter "else",
    .block "if p" [.dedent, .line "  ", .append [.dedent, .enter "", .line "z"]], .dedent ]

theorem runAll_inPlace_crossing :
    Level crossing ∧
      (Step.runAll crossing (Listing.empty.enter "mod a")).depth =
        ((Listing.empty.enter "mod a").append (Listing.ofSteps crossing)).depth ∧
      (Step.runAll crossing (Listing.empty.enter "mod a")).render =
        ((Listing.empty.enter "mod a").append (Listing.ofSteps crossing)).render := by
  have level : Level crossing := by decide
  exact ⟨level, runAll_inPlace _ level⟩

end WireSchema.Code
