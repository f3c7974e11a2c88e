import WireSchema.Proofs.Lexemes

/-!
Lexing as a relation between a text and its tokens: at each point stands the token that the rules
find there, and at the end the token of the end. The lexer succeeds exactly where there are such
tokens, and returns them.
-/

namespace WireSchema.Token

open Text Rule

variable {k : Kind} {cs w word rest : List Char} {offset : Nat} {place : Place}
  {tokens : List Token}

theorem literal_le (word cs : List Char) : literal word cs ≤ cs.length := by
  by_cases found : literal word cs = 0
  · omega
  · obtain ⟨starts, length⟩ := literal_ne_zero found
    rw [length]
    exact starts.length_le

theorem keyword_le (word cs : List Char) : keyword word cs ≤ cs.length := by
  by_cases found : keyword word cs = 0
  · omega
  · obtain ⟨starts, -, length⟩ := keyword_ne_zero found
    rw [length]
    exact starts.length_le

theorem comment_le (cs : List Char) : comment cs ≤ cs.length := by
  by_cases found : comment cs = 0
  · omega
  · obtain ⟨body, rfl⟩ := comment_ne_zero found
    have line := (List.takeWhile_prefix (· != '\n') (l := body)).length_le
    rw [comment_slashes, List.length_cons, List.length_cons]
    omega

theorem quoted_le (cs : List Char) : quoted cs ≤ cs.length := by
  by_cases found : quoted cs = 0
  · omega
  · obtain ⟨body, rest, rfl, unquoted⟩ := quoted_ne_zero found
    rw [quoted_append unquoted]
    simp only [List.length_cons, List.length_append]
    omega

theorem number_le (cs : List Char) : number cs ≤ cs.length := by
  have digits := unsignedNumber_le (cs.drop (signLength cs))
  rw [List.length_drop] at digits
  rw [number]
  split <;> omega

theorem identifier_le (cs : List Char) : identifier cs ≤ cs.length := by
  cases cs with
  | nil => exact Nat.le_refl _
  | cons c cs =>
    have tail := nameTail_le cs
    rw [identifier, List.length_cons]
    split <;> omega

/-- No lexeme is longer than the text. -/
theorem Kind.length_le (k : Kind) (cs : List Char) : k.length cs ≤ cs.length := by
  cases k with
  | blank => exact (List.takeWhile_prefix _).length_le
  | comment => exact comment_le cs
  | number => exact number_le cs
  | quoted => exact quoted_le cs
  | identifier => exact identifier_le cs
  | message | enum | primitive _ => exact keyword_le _ cs
  | finish => exact Nat.zero_le _
  | _ => exact literal_le _ cs

theorem lexeme?_le {n : Nat} (found : lexeme? cs = some (k, n)) : n ≤ cs.length := by
  rw [← (length_of_lexeme? found).1]
  exact k.length_le cs

/-- The tokens of a text that begins at an offset and a place. -/
inductive Lexed : Nat → Place → List Char → List Token → Prop
  | finish {offset : Nat} {place : Place} : Lexed offset place [] [⟨.finish, "", offset, place⟩]
  | token {offset : Nat} {place : Place} {w rest : List Char} {k : Kind} {tokens : List Token}
      (found : lexeme? (w ++ rest) = some (k, w.length))
      (later : Lexed (offset + utf8Length w) (place.advance w) rest tokens) :
      Lexed offset place (w ++ rest) (⟨k, String.ofList w, offset, place⟩ :: tokens)

/-- A lexeme has a first character, and its kind is one that this opens. -/
theorem exists_cons_of_lexeme? (found : lexeme? (w ++ rest) = some (k, w.length)) :
    ∃ c u, w = c :: u ∧ k.front = some (front c) := by
  obtain ⟨length, positive⟩ := length_of_lexeme? found
  cases w with
  | nil => exact absurd rfl positive
  | cons c u => exact ⟨c, u, rfl, front_of_length (length ▸ positive)⟩

/-- The lexer takes one token and goes on behind it. -/
theorem lexFrom_token (found : lexeme? (w ++ rest) = some (k, w.length)) (offset : Nat)
    (place : Place) (acc : Array Token) :
    lexFrom offset place (w ++ rest) acc =
      lexFrom (offset + utf8Length w) (place.advance w) rest
        (acc.push ⟨k, String.ofList w, offset, place⟩) := by
  obtain ⟨c, u, rfl, -⟩ := exists_cons_of_lexeme? found
  rw [List.cons_append] at found ⊢
  rw [lexFrom]
  split
  next none => rw [found] at none; cases none
  next some =>
    rw [found] at some
    cases some
    simp only [← List.cons_append, List.take_left, List.drop_left]

/-- Tokens that follow the rules are the ones that the lexer gives. -/
theorem Lexed.lexFrom_eq (lexed : Lexed offset place cs tokens) (acc : Array Token) :
    lexFrom offset place cs acc = .ok (acc ++ tokens) := by
  induction lexed generalizing acc with
  | finish => rw [lexFrom]; simp
  | token found _ ih => rw [lexFrom_token found, ih]; simp

/-- The lexer gives only tokens that follow the rules. -/
theorem lexed_of_lexFrom {acc all : Array Token} (lexes : lexFrom offset place cs acc = .ok all) :
    ∃ tokens, Lexed offset place cs tokens ∧ all = acc ++ tokens := by
  fun_induction lexFrom offset place cs acc with
  | case1 offset place acc =>
    cases lexes
    exact ⟨_, .finish, by simp⟩
  | case2 => cases lexes
  | case3 offset place acc c rest kind n found lexeme ih =>
    obtain ⟨tokens, lexed, rfl⟩ := ih lexes
    have short : lexeme.length = n := List.length_take_of_le (lexeme?_le found)
    have split : lexeme ++ (c :: rest).drop n = c :: rest := List.take_append_drop n (c :: rest)
    have token := Lexed.token (w := lexeme) (by rw [split, short]; exact found) lexed
    rw [split] at token
    exact ⟨_, token, by simp⟩

/-- The lexer returns the tokens of a text, wherever it has any. -/
theorem lex_eq_ok_iff {text : String} :
    lex text = .ok tokens ↔ Lexed 0 Place.start text.toList tokens := by
  rw [lex]
  constructor
  · intro lexes
    cases all : lexFrom 0 Place.start text.toList #[] with
    | error e => rw [all] at lexes; cases lexes
    | ok found =>
      obtain ⟨tokens', lexed, rfl⟩ := lexed_of_lexFrom all
      rw [all] at lexes
      cases lexes
      simpa using lexed
  · intro lexed
    rw [lexed.lexFrom_eq #[]]
    simp [Except.map]

def checkLexed (offset : Nat) (place : Place) (cs : List Char) : List Token → Bool
  | [] => false
  | t :: tokens =>
    match lexeme? cs with
    | none => cs.isEmpty && tokens.isEmpty && t = ⟨.finish, "", offset, place⟩
    | some (k, n) =>
      t = ⟨k, String.ofList (cs.take n), offset, place⟩ &&
        checkLexed (offset + utf8Length (cs.take n)) (place.advance (cs.take n)) (cs.drop n) tokens

/-- Whether tokens follow the rules can be computed. -/
theorem checkLexed_iff :
    checkLexed offset place cs tokens = true ↔ Lexed offset place cs tokens := by
  constructor
  · intro checked
    induction tokens generalizing offset place cs with
    | nil => cases checked
    | cons t tokens ih =>
      rw [checkLexed] at checked
      split at checked
      next =>
        simp only [Bool.and_eq_true, List.isEmpty_iff, decide_eq_true_eq] at checked
        obtain ⟨⟨rfl, rfl⟩, rfl⟩ := checked
        exact .finish
      next k n found =>
        simp only [Bool.and_eq_true, decide_eq_true_eq] at checked
        obtain ⟨rfl, checked⟩ := checked
        have short : (cs.take n).length = n := List.length_take_of_le (lexeme?_le found)
        have token := Lexed.token (w := cs.take n)
          (by rw [List.take_append_drop, short]; exact found)
          (ih checked)
        rwa [List.take_append_drop] at token
  · intro lexed
    induction lexed with
    | finish =>
      have nothing : lexeme? [] = none := by decide
      simp [checkLexed, nothing]
    | token found _ ih => simp [checkLexed, found, ih]

instance : Decidable (Lexed offset place cs tokens) := decidable_of_iff _ checkLexed_iff

/-- Every token but the last has a shape of its kind. -/
theorem Lexed.shape (lexed : Lexed offset place cs tokens) {t : Token} (member : t ∈ tokens) :
    t.kind = .finish ∨ ∃ rest, lexeme? (t.text.toList ++ rest) = some (t.kind, t.text.length) := by
  induction lexed with
  | finish =>
    rw [List.mem_singleton.mp member]
    exact Or.inl rfl
  | token found _ ih =>
    rcases List.mem_cons.mp member with rfl | member
    · exact Or.inr ⟨_, by simpa using found⟩
    · exact ih member

end WireSchema.Token
