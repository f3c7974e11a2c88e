import WireSchema.Proofs.Delimited
import WireSchema.Proofs.RoundTrip

/-!
Values of records by themselves. The read loop of a message goes on as long as bytes are left, so
what it makes of them depends on where they end. The value of a record does not: a nested message is
read from its frame, and the frame has a length. So the bytes that a value was read from give it
again wherever they stand, with anything behind them, and without the last of them there is nothing
but an end of the data.
-/

namespace WireSchema

def Reader.advance (r : Reader) (n : Nat) : Reader := ⟨r.rest.drop n, r.index + n⟩

/-- Where reading succeeds, the bytes that it takes decide what it gives and where it ends, and it
runs out of bytes if some of them are missing. -/
def SelfDelimiting {α : Type} (read : Reader → Except DecodeError α × Reader) : Prop :=
  ∀ r a r', read r = (.ok a, r') →
    ∃ k, k ≤ r.remaining ∧ r' = r.advance k ∧
      (∀ q : Reader, q.rest.take k = r.rest.take k → read q = (.ok a, q.advance k)) ∧
      ∀ q : Reader, q.rest <+: r.rest → q.remaining < k →
        ∃ position needed remaining,
          (read q).1 = .error (.unexpectedEnd position needed remaining)

theorem Read.Delimited.selfDelimiting {α : Type} {step : Read α} (delimited : step.Delimited) :
    SelfDelimiting step.exec := by
  intro r a r' read
  obtain ⟨bs, whole, gives, starves⟩ := delimited r a r' read
  have front : r.rest.take bs.length = bs := by rw [whole, List.take_left]
  have again (q : Reader) (same : q.rest.take bs.length = bs) :
      step.exec q = (.ok a, q.advance bs.length) := by
    have split : q.rest = bs ++ q.rest.drop bs.length := by
      conv_lhs => rw [← List.take_append_drop bs.length q.rest, same]
    have here := gives (q.rest.drop bs.length) q.index
    rwa [← split] at here
  refine ⟨bs.length, ?_, ?_, fun q same => again q (same.trans front), fun q start less => ?_⟩
  · rw [Reader.remaining, whole, List.length_append]
    omega
  · have here := again r front
    rw [read, Prod.mk.injEq] at here
    exact here.2
  · -- What is left of the bytes is a part of them, and something is missing.
    have part : q.rest <+: bs := by
      refine List.prefix_of_prefix_length_le start ?_ (Nat.le_of_lt less)
      exact ⟨r'.rest, whole.symm⟩
    obtain ⟨missing, split⟩ := part
    have lost : missing ≠ [] := by
      rintro rfl
      rw [List.append_nil] at split
      rw [Reader.remaining, split] at less
      exact Nat.lt_irrefl _ less
    obtain ⟨position, needed, remaining, after, failed⟩ := starves _ missing split.symm lost q.index
    exact ⟨position, needed, remaining, congrArg Prod.fst failed⟩

namespace Schema

/-- Filling a field, as the reading of its new value. -/
def refill (s : Schema) (fill : Fill) (f : Field) (old : Value) (r : Reader) :
    Except DecodeError Value × Reader :=
  let (outcome, new, r) := s.populate fill f old r
  (outcome.map fun _ => new, r)

/-- As a step: what the record brings is read, and then the value takes it in. -/
def acceptDelivery (s : Schema) (fill : Fill) (f : Field) (old : Value) : Read Value := do
  match s.accept fill f old (← s.deliver fill f) with
  | (.ok (), new) => return new
  | (.error e, _) => throw e

section

variable {s : Schema} {fill : Fill} {f : Field} {old : Value}

theorem delimited_acceptDelivery : (s.acceptDelivery fill f old).Delimited := by
  apply (s.delimited_deliver fill f).bind
  intro d
  split
  · exact Read.delimited_pure _
  · exact Read.delimited_throw _

theorem exec_acceptDelivery (admitted : s.admits f old) :
    (s.acceptDelivery fill f old).exec = s.refill fill f old := by
  funext r
  rw [acceptDelivery, refill, populate_eq_deliver admitted, Read.exec_bind]
  rcases (s.deliver fill f).exec r with ⟨e | d, after⟩
  · rfl
  · dsimp only
    rcases s.accept fill f old d with ⟨e | u, new⟩ <;> rfl

end

/-- However a field is read, its value delimits itself: when it is read as a new value, when it is
read into the value that is there, and when it is passed over. That holds for every type of field
and for every way in which nested messages take in their frames. -/
theorem payload_selfDelimiting (s : Schema) (fill : Fill) (f : Field) :
    SelfDelimiting (s.readPayload fill f).exec ∧
      (∀ old, s.admits f old → SelfDelimiting (s.refill fill f old)) ∧
      SelfDelimiting (s.skip fill f).exec := by
  refine ⟨(s.delimited_readPayload fill f).selfDelimiting, fun old admitted => ?_,
    (s.delimited_skip fill f).selfDelimiting⟩
  rw [← exec_acceptDelivery admitted]
  exact delimited_acceptDelivery.selfDelimiting

def leafField : Field := ⟨.message, "Leaf", "leaf", 7, false, false, ⟨6, 3⟩⟩

/-- The leaf is read into that of the elm, from the middle of a message, from other data, and not
from the first eleven of its twelve bytes. -/
theorem payload_selfDelimiting_leaf :
    forest.admits leafField (.message [.scalar (.double 1)]) ∧
      forest.refill forest.fill leafField (.message [.scalar (.double 1)])
          ⟨oakBytes.toList.drop 19, 19⟩ =
        (.ok (.message [.scalar (.double 0x4008000000000000)]), ⟨oakBytes.toList.drop 31, 31⟩) ∧
      forest.refill forest.fill leafField (.message [.scalar (.double 1)])
          ⟨[10, 0, 0, 0, 0, 0, 0, 0, 0, 0, 8, 64, 255, 255], 3⟩ =
        (.ok (.message [.scalar (.double 0x4008000000000000)]), ⟨[255, 255], 15⟩) ∧
      ∃ position needed remaining,
        (forest.refill forest.fill leafField (.message [.scalar (.double 1)])
          ⟨[10, 0, 0, 0, 0, 0, 0, 0, 0, 0, 8], 3⟩).1 =
            .error (.unexpectedEnd position needed remaining) := by
  have admitted : forest.admits leafField (.message [.scalar (.double 1)]) := by decide
  have read : forest.refill forest.fill leafField (.message [.scalar (.double 1)])
      ⟨oakBytes.toList.drop 19, 19⟩ =
        (.ok (.message [.scalar (.double 0x4008000000000000)]), ⟨oakBytes.toList.drop 31, 31⟩) :=
    rfl
  obtain ⟨k, -, ends, again, starved⟩ :=
    (payload_selfDelimiting forest forest.fill leafField).2.1 _ admitted _ _ _ read
  obtain rfl : k = 12 := by
    have index := congrArg Reader.index ends
    change 31 = 19 + k at index
    omega
  exact ⟨admitted, read, again ⟨_, 3⟩ rfl, starved ⟨_, 3⟩ (by decide) (by decide)⟩

end Schema

end WireSchema
