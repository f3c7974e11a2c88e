import Mathlib.Data.List.Chain
import WireSchema.Proofs.Acceptance
import WireSchema.Proofs.Lexing
import WireSchema.Proofs.Places

/-!
Space between tokens. Blanks and comments that end with their line may be put before any token of an
accepted text and at its end: the text stays accepted, as the same schema apart from places, and
becomes the same code. This rests on the grammar. A keyword in front of a digit of another script is
a name, and space between the two would make it a keyword; but a number only ever stands behind an
equals sign.
-/

namespace WireSchema.Token

open Text Rule

variable {k : Kind} {c : Char} {cs w rest gap body : List Char} {tokens : List Token}
  {words : List (Kind × String)}

/-- Blanks, and comments with the end of their line. -/
inductive Space : List Char → Prop
  | nil : Space []
  | blank {c : Char} {gap : List Char} (blank : isBlank c ∨ c = '\x00') (later : Space gap) :
      Space (c :: gap)
  | comment {body gap : List Char} (inLine : '\n' ∉ body) (later : Space gap) :
      Space ('/' :: '/' :: (body ++ '\n' :: gap))

/-- A text with the given tokens and some space before each of them. -/
inductive Spaced : List Token → List Char → Prop
  | nil : Spaced [] []
  | cons {t : Token} {tokens : List Token} {gap cs : List Char} (space : Space gap)
      (later : Spaced tokens cs) : Spaced (t :: tokens) (gap ++ (t.text.toList ++ cs))

/-- What the tokens of a text mean, blanks and comments left out. -/
inductive Spells : List Char → List (Kind × String) → Prop
  | finish : Spells [] [(.finish, "")]
  | skip {w rest : List Char} {k : Kind} {words : List (Kind × String)}
      (found : lexeme? (w ++ rest) = some (k, w.length)) (trivia : k.isTrivia = true)
      (later : Spells rest words) : Spells (w ++ rest) words
  | word {w rest : List Char} {k : Kind} {words : List (Kind × String)}
      (found : lexeme? (w ++ rest) = some (k, w.length)) (meaningful : k.isTrivia = false)
      (later : Spells rest words) : Spells (w ++ rest) ((k, String.ofList w) :: words)

theorem significant_cons (t : Token) (tokens : List Token) : significant (t :: tokens) =
    if t.kind.isTrivia then significant tokens else t :: significant tokens := by
  rw [significant, List.filter_cons]
  cases t.kind.isTrivia <;> rfl

/-- A text that spells words has tokens that mean them. -/
theorem Spells.exists_lexed (spells : Spells cs words) (offset : Nat) (place : Place) :
    ∃ tokens, Lexed offset place cs tokens ∧ (significant tokens).map meaning = words := by
  induction spells generalizing offset place with
  | finish => exact ⟨_, .finish, rfl⟩
  | skip found trivia _ ih =>
    obtain ⟨tokens, lexed, means⟩ := ih _ _
    exact ⟨_, .token found lexed, by rwa [significant_cons, if_pos trivia]⟩
  | word found meaningful _ ih =>
    obtain ⟨tokens, lexed, means⟩ := ih _ _
    refine ⟨_, .token found lexed, ?_⟩
    rw [significant_cons, if_neg (by rw [meaningful]; nofun), List.map_cons, means]
    rfl

/-! Blanks and comments spell nothing. -/

/-- A comment is taken to the end of its line and no further. -/
theorem lexeme?_comment (inLine : '\n' ∉ body) (ends : Ends (· != '\n') cs) :
    lexeme? ('/' :: '/' :: (body ++ cs)) = some (.comment, ('/' :: '/' :: body).length) := by
  have line : (body ++ cs).takeWhile (· != '\n') = body := by
    rw [takeWhile_append_ends ends, List.takeWhile_eq_self_iff]
    intro c member
    rw [bne_iff_ne]
    rintro rfl
    exact inLine member
  have slash : front '/' = .mark '/' := by decide
  rw [lexeme?_of_front (by rw [slash]; nofun), slash]
  have length : Kind.comment.length ('/' :: '/' :: (body ++ cs)) = ('/' :: '/' :: body).length := by
    rw [Kind.length, comment_slashes, line, List.length_cons, List.length_cons, Nat.add_comm]
  rw [Front.kind, Kind.lexeme?, length]
  rfl

/-- All blanks in front of a text are one token. -/
theorem Spells.dropWhile (spells : Spells cs words) : Spells (cs.dropWhile isGap) words := by
  cases cs with
  | nil => exact spells
  | cons c cs =>
    by_cases gap : isGap c = true
    · have blank := lexeme?_blank gap cs
      rw [← drop_takeWhile_length]
      generalize c :: cs = whole at blank spells ⊢
      cases spells with
      | finish => cases blank
      | skip found trivia later =>
        rw [found, Option.some_inj, Prod.mk.injEq] at blank
        rwa [← blank.2, List.drop_left]
      | word found meaningful later =>
        rw [found, Option.some_inj, Prod.mk.injEq] at blank
        rw [blank.1] at meaningful
        cases meaningful
    · rwa [List.dropWhile_cons, if_neg gap]

theorem Spells.blank (gap : isGap c = true) (spells : Spells cs words) :
    Spells (c :: cs) words := by
  have found := lexeme?_blank gap cs
  rw [← List.takeWhile_append_dropWhile (p := isGap) (l := c :: cs)] at found ⊢
  rw [takeWhile_append_ends (ends_dropWhile isGap _), List.takeWhile_idem] at found
  refine .skip found rfl ?_
  rw [List.dropWhile_cons, if_pos gap]
  exact spells.dropWhile

theorem Spells.blanks (spells : Spells cs words) (gaps : ∀ c ∈ w, isGap c = true) :
    Spells (w ++ cs) words := by
  induction w with
  | nil => exact spells
  | cons c w ih =>
    obtain ⟨gap, gaps⟩ := List.forall_mem_cons.mp gaps
    exact (ih gaps).blank gap

theorem Spells.comment (inLine : '\n' ∉ body) (ends : Ends (· != '\n') cs)
    (spells : Spells cs words) : Spells ('/' :: '/' :: (body ++ cs)) words :=
  .skip (w := '/' :: '/' :: body) (lexeme?_comment inLine ends) rfl spells

theorem Spells.newline (spells : Spells cs words) : Spells ('\n' :: cs) words :=
  spells.blank (by decide)

theorem ends_newline (cs : List Char) : Ends (· != '\n') ('\n' :: cs) := ends_cons.mpr rfl

/-- Space in front of a text spells nothing. -/
theorem Space.spells (space : Space gap) (spells : Spells cs words) : Spells (gap ++ cs) words := by
  induction space with
  | nil => exact spells
  | blank blank _ ih => exact ih.blank (by simpa [isGap] using blank)
  | comment inLine _ ih =>
    simpa using Spells.comment inLine (ends_newline _) ih.newline

/-- A comment takes in what is put behind it up to the first end of a line, and no more. -/
theorem Space.spells_comment (space : Space gap) (inLine : '\n' ∉ body)
    (ends : Ends (· != '\n') cs) (spells : Spells cs words) :
    Spells ('/' :: '/' :: (body ++ (gap ++ cs))) words := by
  induction space generalizing body with
  | nil => exact spells.comment inLine ends
  | @blank c gap blank later ih =>
    by_cases last : c = '\n'
    · subst last
      exact Spells.comment inLine (ends_newline _) (later.spells spells).newline
    · have longer : '\n' ∉ body ++ [c] := by simp [inLine, Ne.symm last]
      simpa using ih longer
  | @comment body' gap inLine' later ih =>
    have longer : '\n' ∉ body ++ '/' :: '/' :: body' := by simp [inLine, inLine']
    simpa using Spells.comment longer (ends_newline _) (later.spells spells).newline

theorem Space.head (space : Space gap) (some : gap ≠ []) : ∃ c ∈ gap.head?, isBreak c = true := by
  cases space with
  | nil => exact absurd rfl some
  | blank blank _ => exact ⟨_, rfl, isBreak_of_isGap (by simpa [isGap] using blank)⟩
  | comment _ _ => exact ⟨_, rfl, by decide⟩

/-! Whole texts. -/

def Apart (t u : Token) : Prop := u.kind = .number → t.kind = .equals

variable {offset : Nat} {place : Place}

/-- Without space before it, a token leaves the first character where it is. -/
theorem Lexed.head?_eq {t : Token} (lexed : Lexed offset place cs (t :: tokens)) {cs' : List Char}
    (spaced : Spaced tokens cs') : (t.text.toList ++ cs').head? = cs.head? := by
  cases lexed with
  | finish =>
    cases spaced
    rfl
  | token found _ =>
    obtain ⟨c, u, rfl, -⟩ := exists_cons_of_lexeme? found
    simp

/-- The text that is spaced anew goes on as the old one did, or breaks. -/
theorem Lexed.follows (lexed : Lexed offset place cs tokens) {cs' : List Char}
    (spaced : Spaced tokens cs') : Follows cs cs' := by
  cases spaced with
  | nil => cases lexed
  | @cons t tokens gap cs' space later =>
    by_cases bare : gap = []
    · subst bare
      exact Or.inl (lexed.head?_eq later)
    · obtain ⟨c, first, breaks⟩ := space.head bare
      refine Or.inr ⟨c, ?_, breaks⟩
      rw [List.head?_append, Option.mem_def.mp first]
      rfl

/-- What directly follows a token other than an equals sign opens no number. -/
theorem Lexed.opens {t : Token} (lexed : Lexed offset place cs tokens)
    (apart : (t :: significant tokens).IsChain Apart) (other : t.kind ≠ .equals) :
    ∀ c ∈ cs.head?, front c ≠ .number ∧ ∃ k : Kind, k.front = some (front c) := by
  intro c first
  cases lexed with
  | finish => cases first
  | @token _ _ w rest k tokens found later =>
    obtain ⟨c, u, rfl, opens⟩ := exists_cons_of_lexeme? found
    cases first
    refine ⟨fun digit => other ?_, k, opens⟩
    have number : k = .number := by
      rw [← Front.kind_of_front opens (by rw [digit]; nofun), digit]
      rfl
    rw [significant_cons, number] at apart
    exact (List.isChain_cons_cons.mp apart).1 rfl

theorem isGap_of_blank (found : lexeme? (w ++ rest) = some (.blank, w.length)) :
    ∀ c ∈ w, isGap c = true := by
  have length : ((w ++ rest).takeWhile isGap).length = w.length := (length_of_lexeme? found).1
  have whole := List.prefix_iff_eq_take.mp (List.takeWhile_prefix isGap (l := w ++ rest))
  rw [length, List.take_left] at whole
  rw [← whole]
  exact fun c member => List.mem_takeWhile_imp member

theorem exists_of_comment (found : lexeme? (w ++ rest) = some (.comment, w.length)) :
    ∃ body, w = '/' :: '/' :: body ∧ '\n' ∉ body ∧ Ends (· != '\n') rest := by
  obtain ⟨length, positive⟩ := length_of_lexeme? found
  have read : comment (w ++ rest) = w.length := length
  obtain ⟨line, whole⟩ := comment_ne_zero (read ▸ positive)
  rw [whole, comment_slashes] at read
  have split : w ++ rest =
      '/' :: '/' :: line.takeWhile (· != '\n') ++ line.dropWhile (· != '\n') := by
    rw [whole, List.cons_append, List.cons_append, List.takeWhile_append_dropWhile]
  obtain ⟨rfl, rfl⟩ := List.append_inj split (by simp only [List.length_cons]; omega)
  refine ⟨_, rfl, ?_, ends_dropWhile _ line⟩
  intro member
  simpa using List.mem_takeWhile_imp member

/-- The tokens of a spaced text mean what those of the text itself mean. -/
theorem Lexed.spells_spaced (lexed : Lexed offset place cs tokens)
    (apart : (significant tokens).IsChain Apart) {cs' : List Char} (spaced : Spaced tokens cs') :
    Spells cs' ((significant tokens).map meaning) := by
  induction lexed generalizing cs' with
  | finish =>
    obtain ⟨⟩ | ⟨space, ⟨⟩⟩ := spaced
    exact space.spells .finish
  | @token offset place w rest k tokens found later ih =>
    obtain ⟨⟩ | ⟨space, spaced⟩ := spaced
    apply space.spells
    rw [significant_cons] at apart ⊢
    rw [String.toList_ofList]
    cases trivia : k.isTrivia with
    | false =>
      simp only [trivia, Bool.false_eq_true, if_false] at apart ⊢
      have swapped := lexeme?_swap found trivia (later.opens apart) (later.follows spaced)
      exact .word swapped trivia (ih apart.tail spaced)
    | true =>
      simp only [trivia, if_true] at apart ⊢
      cases k with
      | blank => exact (ih apart spaced).blanks (isGap_of_blank found)
      | comment =>
        -- what follows the comment begins with the end of its line, or is nothing
        obtain ⟨body, rfl, inLine, ends⟩ := exists_of_comment found
        cases spaced with
        | nil => cases later
        | @cons u tokens gap cs' space spaced =>
          have ends' : Ends (· != '\n') (u.text.toList ++ cs') := by
            rwa [Ends, later.head?_eq spaced]
          exact space.spells_comment inLine ends' (ih apart (.cons .nil spaced))
      | _ => cases trivia

/-- The end of the text is the last token, and there is only one. -/
theorem Lexed.finish_last (lexed : Lexed offset place cs tokens) :
    ∃ front last, tokens = front ++ [last] ∧ last.kind = .finish ∧ Grammar.Unfinished front := by
  induction lexed with
  | finish => exact ⟨[], _, rfl, rfl, Grammar.unfinished_nil⟩
  | @token offset place w rest k tokens found later ih =>
    obtain ⟨front, last, rfl, ends, unfinished⟩ := ih
    refine ⟨_ :: front, last, rfl, ends, Grammar.unfinished_cons.mpr ⟨?_, unfinished⟩⟩
    rintro rfl
    exact (length_of_lexeme? found).2 (length_of_lexeme? found).1.symm

end WireSchema.Token

namespace WireSchema.Grammar

open Token

variable {tokens rest : List Token}

/-- Whatever stands in front of the tokens, each number among them stands behind an equals sign. -/
def Led (tokens : List Token) : Prop := ∀ t, (t :: tokens).IsChain Apart

theorem led_nil : Led [] := fun t => .singleton t

theorem Led.cons {t : Token} {kind : Token.Kind} (later : Led tokens) (first : t.kind = kind)
    (other : kind ≠ .number) : Led (t :: tokens) :=
  fun _ => .cons_cons (fun number => absurd (first.symm.trans number) other) (later t)

theorem Led.append (first : Led tokens) (later : Led rest) : Led (tokens ++ rest) := by
  intro t
  have chain := first t
  clear first
  induction tokens generalizing t with
  | nil => exact later t
  | cons u tokens ih =>
    obtain ⟨apart, chain⟩ := List.isChain_cons_cons.mp chain
    exact .cons_cons apart (ih u chain)

theorem Led.given {equals v : Token} (later : Led tokens) (set : equals.kind = .equals) :
    Led (equals :: v :: tokens) :=
  fun _ => .cons_cons (fun number => by cases set.symm.trans number)
    (.cons_cons (fun _ => set) (later v))

theorem Marks.led {isOptional isArray : Bool} (text : Marks tokens isOptional isArray) :
    Led tokens := by
  cases text with
  | none => exact led_nil
  | optional question => exact led_nil.cons question nofun
  | array brackets => exact led_nil.cons brackets nofun
  | optionalArray question brackets => exact (led_nil.cons brackets nofun).cons question nofun
  | arrayOptional brackets question => exact (led_nil.cons question nofun).cons brackets nofun

theorem Assigned.led {α : Type} {read : List Char → Option α} {auto : α → Prop} {a : α}
    (text : Assigned read auto tokens a) : Led tokens := by
  cases text with
  | auto => exact led_nil
  | given equals => exact led_nil.given equals

theorem FieldText.led {index : Nat} {f : Field} (text : FieldText index tokens f) : Led tokens := by
  obtain ⟨typed, marked, named, -, numbered, closed⟩ := text
  have last := numbered.led.append (led_nil.cons closed nofun)
  have modified := marked.led.append (last.cons named nofun)
  cases typed with
  | primitive kind => exact modified.cons kind nofun
  | named kind => exact modified.cons kind nofun

theorem EntryText.led {index : Nat} {e : Entry} (text : EntryText index tokens e) : Led tokens := by
  obtain ⟨named, -, numbered, closed⟩ := text
  exact (numbered.led.append (led_nil.cons closed nofun)).cons named nofun

/-- Every number among items stands behind an equals sign. -/
theorem Items.led {α : Type} {item : Nat → List Token → α → Prop}
    (each : ∀ {index tokens a}, item index tokens a → Led tokens) {index : Nat} {items : List α}
    (text : Items item index tokens items) : Led tokens := by
  induction text with
  | nil => exact led_nil
  | cons head _ ih => exact (each head).append ih

theorem DefinitionText.led {d : Definition} (text : DefinitionText tokens d) : Led tokens := by
  cases text with
  | message text =>
    obtain ⟨starts, named, -, opened, contents, closed⟩ := text
    have inside := (contents.led FieldText.led).append (led_nil.cons closed nofun)
    exact ((inside.cons opened nofun).cons named nofun).cons starts nofun
  | enum text =>
    obtain ⟨starts, named, -, opened, contents, closed⟩ := text
    have inside := (contents.led EntryText.led).append (led_nil.cons closed nofun)
    exact ((inside.cons opened nofun).cons named nofun).cons starts nofun

theorem DefineText.led {d : Define} (text : DefineText tokens d) : Led tokens := by
  cases text with
  | plain starts named set given closed =>
    have last := led_nil.cons closed nofun
    exact ((last.given set).cons named nofun).cons starts nofun
  | spelled starts spelling named set given closed =>
    have last := led_nil.cons closed nofun
    exact (((last.given set).cons named nofun).cons spelling.1 nofun).cons starts nofun

/-- Every number of a document stands behind an equals sign. -/
theorem DocumentText.led {s : Schema} (text : DocumentText tokens s) : Led tokens := by
  induction text with
  | nil => exact led_nil
  | define head _ ih => exact head.led.append ih
  | definition head _ ih => exact head.led.append ih

end WireSchema.Grammar

namespace WireSchema.Schema

open Token Grammar

/-- In an accepted text every number stands behind an equals sign. -/
theorem apart_of_ofTokens {offset : Nat} {place : Place} {cs : List Char} {tokens : List Token}
    {s : Schema} (lexed : Lexed offset place cs tokens)
    (accepted : ofTokens (significant tokens) = .ok s) : (significant tokens).IsChain Apart := by
  obtain ⟨front, last, rfl, ends, unfinished⟩ := lexed.finish_last
  have split : significant (front ++ [last]) = significant front ++ [last] := by
    simp [significant, ends, Token.Kind.isTrivia]
  have before : ∀ t ∈ significant front, decide (t.kind ≠ .finish) = true :=
    fun t member => decide_eq_true (unfinished t (List.mem_of_mem_filter member))
  have derived := derived_of_ofTokens accepted
  rw [split, List.takeWhile_append_of_pos before] at derived
  have led := derived.led.append (led_nil.cons ends nofun)
  rw [split]
  simpa [ends] using (led last).tail

/-- Tokens that mean the same as accepted ones are accepted, as the same schema apart from
places. -/
theorem exists_ofTokens_of_meaning {tokens tokens' : List Token} {s : Schema}
    (accepted : ofTokens tokens = .ok s) (same : tokens'.map meaning = tokens.map meaning) :
    ∃ s', ofTokens tokens' = .ok s' ∧ s'.unplaced = s.unplaced := by
  have front : (tokens'.takeWhile fun t => t.kind ≠ .finish).map meaning =
      (tokens.takeWhile fun t => t.kind ≠ .finish).map meaning := by
    have commutes : ∀ tokens : List Token,
        (tokens.takeWhile fun t => t.kind ≠ .finish).map meaning =
          (tokens.map meaning).takeWhile fun word => word.1 ≠ .finish := by
      intro tokens
      rw [List.takeWhile_map]
      rfl
    rw [commutes, commutes, same]
  obtain ⟨s', derived, unplaced⟩ := (derived_of_ofTokens accepted).move front
  refine ⟨s', ofTokens_of_derived derived ?_ ?_, unplaced⟩
  · rw [← bound_unplaced, unplaced, bound_unplaced]
    exact bound_of_ofTokens accepted
  · rw [← lawful_unplaced, unplaced, lawful_unplaced]
    exact lawful_of_ofTokens accepted

/-- Space before any tokens of an accepted text changes no more than places: the text is accepted as
the same schema, and becomes the same code or fails alike. -/
theorem parse_spaced {text text' : String} {tokens : List Token} {s : Schema}
    (lexes : lex text = .ok tokens) (parses : parse text = .ok s)
    (spaced : Spaced tokens text'.toList) :
    (∃ s', parse text' = .ok s' ∧ s'.unplaced = s.unplaced) ∧
      ∀ name, compile name text' = compile name text := by
  have lexed := lex_eq_ok_iff.mp lexes
  obtain ⟨tokens₀, lexes₀, accepted⟩ := parse_eq_ok_iff.mp parses
  cases lexes.symm.trans lexes₀
  have spells := lexed.spells_spaced (apart_of_ofTokens lexed accepted) spaced
  obtain ⟨tokens', lexed', means⟩ := spells.exists_lexed 0 Place.start
  obtain ⟨s', accepted', unplaced⟩ := exists_ofTokens_of_meaning accepted means
  have parses' : parse text' = .ok s' :=
    parse_eq_ok_iff.mpr ⟨tokens', lex_eq_ok_iff.mpr lexed', accepted'⟩
  refine ⟨⟨s', parses', unplaced⟩, fun name => ?_⟩
  have code : Code.document Code.Facet.all s' (some name) =
      Code.document Code.Facet.all s (some name) := by
    rw [← Code.document_unplaced, unplaced, Code.document_unplaced]
  rw [compile, compile, parses, parses']
  simp only [code]

def hueText : String := "enum Hue\x7bred=4;\x7d//b"

def hueTokens : List Token :=
  [⟨.enum, "enum", 0, ⟨1, 1⟩⟩, ⟨.blank, " ", 4, ⟨1, 5⟩⟩, ⟨.identifier, "Hue", 5, ⟨1, 6⟩⟩,
    ⟨.openBrace, "\x7b", 8, ⟨1, 9⟩⟩, ⟨.identifier, "red", 9, ⟨1, 10⟩⟩,
    ⟨.equals, "=", 12, ⟨1, 13⟩⟩, ⟨.number, "4", 13, ⟨1, 14⟩⟩, ⟨.semicolon, ";", 14, ⟨1, 15⟩⟩,
    ⟨.closeBrace, "\x7d", 15, ⟨1, 16⟩⟩, ⟨.comment, "//b", 16, ⟨1, 17⟩⟩,
    ⟨.finish, "", 19, ⟨1, 20⟩⟩]

def hueSchema : Schema := ⟨[], [⟨"Hue", ⟨1, 6⟩, .enum [⟨"red", 4, ⟨1, 10⟩⟩]⟩]⟩

theorem hue_lexed : lex hueText = .ok hueTokens := lex_eq_ok_iff.mpr (by decide +kernel)

theorem hue_parsed : parse hueText = .ok hueSchema := by
  refine parse_eq_ok_iff.mpr ⟨hueTokens, hue_lexed, ofTokens_eq_ok_iff_draft.mpr ?_⟩
  exact ⟨by decide +kernel, by decide +kernel, by decide +kernel,
    hueSchema.issues_eq_nil_iff.mp (by cbv)⟩

/-- A comment in front, space on both sides of the equals sign and between the name and the brace,
and behind the last comment what becomes part of it. -/
def hueSpaced : String := "//a\nenum Hue\t\x7bred = 4;\x7d//b //c\n"

theorem hue_spaced : Spaced hueTokens hueSpaced.toList := by
  have front : Space ['/', '/', 'a', '\n'] := .comment (show '\n' ∉ ['a'] by decide) .nil
  have tab : Space ['\t'] := .blank (Or.inl (by decide)) .nil
  have blank : Space [' '] := .blank (Or.inl (by decide)) .nil
  have back : Space [' ', '/', '/', 'c', '\n'] :=
    .blank (Or.inl (by decide)) (.comment (show '\n' ∉ ['c'] by decide) .nil)
  have built : Spaced hueTokens _ :=
    .cons front (.cons .nil (.cons .nil (.cons tab (.cons .nil (.cons blank (.cons blank (.cons .nil
      (.cons .nil (.cons .nil (.cons back .nil))))))))))
  exact built

theorem parse_spaced_hue :
    lex hueText = .ok hueTokens ∧ parse hueText = .ok hueSchema ∧
      Spaced hueTokens hueSpaced.toList ∧
      (∃ s', parse hueSpaced = .ok s' ∧ s'.unplaced = hueSchema.unplaced) ∧
      compile "hue" hueSpaced = compile "hue" hueText := by
  obtain ⟨parses, compiles⟩ := parse_spaced hue_lexed hue_parsed hue_spaced
  exact ⟨hue_lexed, hue_parsed, hue_spaced, parses, compiles "hue"⟩

end WireSchema.Schema
