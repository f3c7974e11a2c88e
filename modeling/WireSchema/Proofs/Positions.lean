import Mathlib.Data.List.Induction
import WireSchema.Proofs.Lexing

/-!
Where tokens stand. The tokens of a text in a row are the text, and each of them stands behind the
texts of those before it: its offset counts their bytes, its line their newlines, and its column the
characters behind the last newline. An error stands in the same way behind what could be read.
-/

namespace WireSchema.Token

open Text Rule

variable {k : Kind} {cs w front rest : List Char} {offset : Nat} {place : Place}
  {tokens : List Token}

/-! Offsets and places. -/

theorem utf8Length_append (cs ds : List Char) :
    utf8Length (cs ++ ds) = utf8Length cs + utf8Length ds := by
  have shift : ∀ (n : Nat) (ds : List Char),
      ds.foldl (fun n c => n + c.utf8Size) n = n + utf8Length ds := by
    intro n ds
    induction ds generalizing n with
    | nil => rfl
    | cons d ds ih =>
      rw [utf8Length, List.foldl_cons, List.foldl_cons, ih, ih (0 + _)]
      omega
  rw [utf8Length, List.foldl_append, shift]
  rfl

/-- The length of characters is the number of bytes of their text. -/
theorem utf8Length_eq (cs : List Char) : utf8Length cs = (String.ofList cs).utf8ByteSize := by
  induction cs with
  | nil => rfl
  | cons c cs ih =>
    rw [← List.singleton_append, utf8Length_append, ih, String.ofList_append,
      String.utf8ByteSize_append]
    simp [utf8Length]

/-- The offset and the place behind a text. The column counts the characters of its last line, which
begins behind the last newline or, where there is none, with the text. -/
structure EndsAt (before : String) (offset : Nat) (place : Place) : Prop where
  bytes : offset = before.utf8ByteSize
  line : place.line = 1 + before.toList.count '\n'
  column : ∃ lines last, before.toList = lines ++ last ∧ (lines = [] ∨ lines.getLast? = some '\n') ∧
    '\n' ∉ last ∧ place.column = 1 + last.length

/-- The place is counted on token by token; this is what it comes to. -/
theorem endsAt_advance (cs : List Char) :
    EndsAt (String.ofList cs) (utf8Length cs) (Place.start.advance cs) := by
  refine ⟨utf8Length_eq cs, ?_, ?_⟩
  all_goals rw [String.toList_ofList]
  · induction cs using List.reverseRecOn with
    | nil => rfl
    | append_singleton cs c ih =>
      rw [Place.advance_append, List.count_append, ← Nat.add_assoc, ← ih]
      by_cases newline : c = '\n' <;> simp [Place.advance, Place.next, newline]
  · induction cs using List.reverseRecOn with
    | nil => exact ⟨[], [], rfl, Or.inl rfl, List.not_mem_nil, rfl⟩
    | append_singleton cs c ih =>
      obtain ⟨lines, last, rfl, starts, inLine, column⟩ := ih
      by_cases newline : c = '\n'
      · refine ⟨lines ++ last ++ [c], [], by simp, Or.inr (by simp [newline]), List.not_mem_nil, ?_⟩
        rw [Place.advance_append, newline]
        rfl
      · refine ⟨lines, last ++ [c], by simp, starts, ?_, ?_⟩
        · simpa [inLine] using Ne.symm newline
        · rw [Place.advance_append]
          simp [Place.advance, Place.next, newline] at column ⊢
          omega

/-! Tokens in a row. -/

def textOf (tokens : List Token) : String := String.join (tokens.map Token.text)

@[simp] theorem textOf_nil : textOf [] = "" := rfl

@[simp] theorem textOf_cons (t : Token) (tokens : List Token) :
    textOf (t :: tokens) = t.text ++ textOf tokens := String.join_cons

/-- The texts of the tokens make up the text that was lexed. -/
theorem Lexed.textOf_eq (lexed : Lexed offset place cs tokens) :
    textOf tokens = String.ofList cs := by
  induction lexed with
  | finish => rfl
  | token _ _ ih => rw [textOf_cons, ih, String.ofList_append]

/-- A token stands behind the texts of those before it. -/
theorem Lexed.stands (lexed : Lexed offset place cs tokens) {before after : List Token} {t : Token}
    (split : tokens = before ++ t :: after) :
    t.offset = offset + utf8Length (textOf before).toList ∧
      t.place = place.advance (textOf before).toList := by
  induction lexed generalizing before with
  | finish =>
    cases before with
    | nil =>
      cases split
      exact ⟨rfl, rfl⟩
    | cons u before => simp at split
  | token _ _ ih =>
    cases before with
    | nil =>
      cases split
      exact ⟨rfl, rfl⟩
    | cons u before =>
      obtain ⟨rfl, later⟩ := List.cons.inj split
      obtain ⟨bytes, stands⟩ := ih later
      simp only [textOf_cons, String.toList_append, String.toList_ofList, utf8Length_append,
        Place.advance_append]
      exact ⟨by omega, stands⟩

/-- Only the last token is empty, and it is the end of the text. -/
theorem Lexed.exists_last (lexed : Lexed offset place cs tokens) :
    ∃ (body : List Token) (last : Token), tokens = body ++ [last] ∧ last.kind = .finish ∧
      last.text = "" ∧ ∀ t ∈ body, t.kind ≠ .finish ∧ t.text ≠ "" := by
  induction lexed with
  | finish => exact ⟨[], _, rfl, rfl, rfl, nofun⟩
  | @token offset place w rest k tokens found _ ih =>
    obtain ⟨body, last, rfl, ends, empty, others⟩ := ih
    refine ⟨_ :: body, last, rfl, ends, empty, List.forall_mem_cons.mpr ⟨⟨?_, ?_⟩, others⟩⟩
    · rintro rfl
      exact (length_of_lexeme? found).2 (length_of_lexeme? found).1.symm
    · obtain ⟨c, u, rfl, -⟩ := exists_cons_of_lexeme? found
      simp [← String.toList_inj]

/-! Errors. -/

/-- A text that the rules divide into tokens where `rest` follows it. -/
inductive UpTo (rest : List Char) : List Char → Prop
  | here : UpTo rest []
  | past {w front : List Char} {k : Kind}
      (found : lexeme? (w ++ (front ++ rest)) = some (k, w.length)) (later : UpTo rest front) :
      UpTo rest (w ++ front)

def errorAt (offset : Nat) (place : Place) (rest : List Char) : LexError :=
  ⟨offset, place, quote (String.ofList (LexError.excerpt rest))⟩

/-- The lexer fails behind the tokens that it has read, where no lexeme is found. -/
theorem exists_of_lexFrom_eq_error {acc : Array Token} {e : LexError}
    (fails : lexFrom offset place cs acc = .error e) :
    ∃ front rest, cs = front ++ rest ∧ UpTo rest front ∧ rest ≠ [] ∧ lexeme? rest = none ∧
      e = errorAt (offset + utf8Length front) (place.advance front) rest := by
  fun_induction lexFrom offset place cs acc with
  | case1 => cases fails
  | case2 offset place acc c rest unread =>
    cases fails
    exact ⟨[], c :: rest, rfl, .here, List.cons_ne_nil c rest, unread, rfl⟩
  | case3 offset place acc c rest kind n found lexeme ih =>
    obtain ⟨front, after, split, upTo, left, unread, rfl⟩ := ih fails
    have short : lexeme.length = n := List.length_take_of_le (lexeme?_le found)
    have whole : c :: rest = lexeme ++ (front ++ after) := by
      rw [← split]
      exact (List.take_append_drop n (c :: rest)).symm
    have first : lexeme? (lexeme ++ (front ++ after)) = some (kind, lexeme.length) := by
      rw [← whole, short]
      exact found
    refine ⟨lexeme ++ front, after, ?_, .past first upTo, left, unread, ?_⟩
    · rw [whole, List.append_assoc]
    · rw [utf8Length_append, Place.advance_append, Nat.add_assoc]

/-- Where no lexeme is found, the lexer fails and shows the rest. -/
theorem UpTo.lexFrom_eq_error (upTo : UpTo rest front) (left : rest ≠ [])
    (unread : lexeme? rest = none) (offset : Nat) (place : Place) (acc : Array Token) :
    lexFrom offset place (front ++ rest) acc =
      .error (errorAt (offset + utf8Length front) (place.advance front) rest) := by
  induction upTo generalizing offset place acc with
  | here =>
    obtain ⟨c, cs, rfl⟩ := List.exists_cons_of_ne_nil left
    rw [List.nil_append, lexFrom]
    split
    next => rfl
    next found =>
      rw [unread] at found
      cases found
  | past found _ ih =>
    rw [List.append_assoc, lexFrom_token found, ih, utf8Length_append, Place.advance_append,
      Nat.add_assoc]

/-- The lexer fails exactly where no token starts behind those it has read. -/
theorem lex_eq_error_iff {text : String} {e : LexError} :
    lex text = .error e ↔
      ∃ front rest, text.toList = front ++ rest ∧ UpTo rest front ∧ rest ≠ [] ∧
        lexeme? rest = none ∧ e = errorAt (utf8Length front) (Place.start.advance front) rest := by
  have failed : lex text = .error e ↔ lexFrom 0 Place.start text.toList #[] = .error e := by
    rw [lex]
    cases lexFrom 0 Place.start text.toList #[] <;> simp [Except.map]
  rw [failed]
  constructor
  · intro fails
    obtain ⟨front, rest, split, upTo, left, unread, same⟩ := exists_of_lexFrom_eq_error fails
    rw [Nat.zero_add] at same
    exact ⟨front, rest, split, upTo, left, unread, same⟩
  · rintro ⟨front, rest, split, upTo, left, unread, rfl⟩
    rw [split, upTo.lexFrom_eq_error left unread, Nat.zero_add]

/-- A blank always starts a token, so what an error shows is not empty. -/
theorem excerpt_ne_nil (left : rest ≠ []) (unread : lexeme? rest = none) :
    LexError.excerpt rest ≠ [] := by
  obtain ⟨c, cs, rfl⟩ := List.exists_cons_of_ne_nil left
  have visible : isBlank c = false := by
    by_contra blank
    rw [lexeme?_blank (by simpa [isGap] using Or.inl blank)] at unread
    cases unread
  simp [LexError.excerpt, visible]

/-- Where a text has tokens, they are the text: only the last one is empty, the end of the text, and
each stands where the texts before it end. Where it has none, the error stands behind the tokens
that were read, at a rest at which no token starts, and quotes one to sixteen characters of it. -/
theorem lex_lossless (text : String) :
    (∀ tokens, lex text = .ok tokens →
      textOf tokens = text ∧
      (∃ (body : List Token) (last : Token), tokens = body ++ [last] ∧ last.kind = .finish ∧
        last.text = "" ∧ ∀ t ∈ body, t.kind ≠ .finish ∧ t.text ≠ "") ∧
      ∀ before t after, tokens = before ++ t :: after →
        EndsAt (textOf before) t.offset t.place) ∧
    ∀ e, lex text = .error e →
      ∃ before rest shown : String, text = before ++ rest ∧ EndsAt before e.offset e.place ∧
        UpTo rest.toList before.toList ∧ rest ≠ "" ∧ lexeme? rest.toList = none ∧
        e.text = quote shown ∧ shown ≠ "" ∧ shown.toList <+: rest.toList ∧ shown.length ≤ 16 := by
  constructor
  · intro tokens lexes
    have lexed := lex_eq_ok_iff.mp lexes
    refine ⟨by simpa using lexed.textOf_eq, lexed.exists_last, fun before t after split => ?_⟩
    obtain ⟨bytes, stands⟩ := lexed.stands split
    rw [bytes, stands, Nat.zero_add]
    simpa using endsAt_advance (textOf before).toList
  · intro e fails
    obtain ⟨front, rest, split, upTo, left, unread, rfl⟩ := lex_eq_error_iff.mp fails
    have shown : LexError.excerpt rest <+: rest :=
      (List.take_prefix 16 _).trans (List.takeWhile_prefix _)
    refine ⟨String.ofList front, String.ofList rest, String.ofList (LexError.excerpt rest), ?_,
      endsAt_advance front, ?_, ?_, ?_, rfl, ?_, ?_, ?_⟩
    · rw [← String.ofList_append, ← split, String.ofList_toList]
    · simpa using upTo
    · simpa [← String.toList_inj] using left
    · simpa using unread
    · simpa [← String.toList_inj] using excerpt_ne_nil left unread
    · simpa using shown
    · rw [String.length_ofList]
      exact List.length_take_le 16 _

/-- A comment that ends with a carriage return, and a quoted text over two lines. -/
def accentText : String := "//é\r\n#k=\"ü\nz\";"

def accentTokens : List Token :=
  [⟨.comment, "//é\r", 0, ⟨1, 1⟩⟩, ⟨.blank, "\n", 5, ⟨1, 5⟩⟩, ⟨.hash, "#", 6, ⟨2, 1⟩⟩,
    ⟨.identifier, "k", 7, ⟨2, 2⟩⟩, ⟨.equals, "=", 8, ⟨2, 3⟩⟩, ⟨.quoted, "\"ü\nz\"", 9, ⟨2, 4⟩⟩,
    ⟨.semicolon, ";", 15, ⟨3, 3⟩⟩, ⟨.finish, "", 16, ⟨3, 4⟩⟩]

theorem accent_lexed : lex accentText = .ok accentTokens := lex_eq_ok_iff.mpr (by decide +kernel)

/-- No token starts with the sign behind a quoted text over two lines. -/
theorem sign_failed : lex "\"é\n\" @ü b" = .error ⟨6, ⟨2, 3⟩, "\"@ü\""⟩ := by
  have upTo : UpTo "@ü b".toList ("\"é\n\"".toList ++ (" ".toList ++ [])) :=
    .past (k := .quoted) (by decide +kernel) (.past (k := .blank) (by decide +kernel) .here)
  exact lex_eq_error_iff.mpr ⟨_, _, by decide +kernel, upTo, by decide, by decide +kernel, rfl⟩

theorem lex_lossless_accent :
    textOf accentTokens = accentText ∧ EndsAt "//é\r\n#k=\"ü\nz\"" 15 ⟨3, 3⟩ ∧
    ∃ before rest shown : String, "\"é\n\" @ü b" = before ++ rest ∧ EndsAt before 6 ⟨2, 3⟩ ∧
      "\"@ü\"" = quote shown ∧ shown ≠ "" ∧ shown.toList <+: rest.toList ∧ shown.length ≤ 16 := by
  obtain ⟨whole, -, places⟩ := (lex_lossless accentText).1 accentTokens accent_lexed
  obtain ⟨before, rest, shown, split, stands, -, -, -, quoted⟩ := (lex_lossless _).2 _ sign_failed
  exact ⟨whole, places (accentTokens.take 6) _ _ rfl, before, rest, shown, split, stands, quoted⟩

end WireSchema.Token
