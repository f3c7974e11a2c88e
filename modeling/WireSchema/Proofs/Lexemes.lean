import WireSchema.Proofs.Pieces
import WireSchema.Token.Lexer

/-!
Lexemes. The first character of a text decides which rules can find a token there, and only keywords
and names compete with each other. No token can be made longer by what follows it, and what follows
decides nothing beyond its first character.
-/

namespace WireSchema

namespace Text

/-- What a check of the 128 characters of ASCII settles. -/
theorem forall_ascii {P : Char → Prop} (each : ∀ n < 128, P (Char.ofNat n)) {c : Char}
    (ascii : c.toNat < 128) : P c := by
  rw [← Char.ofNat_toNat c]
  exact each c.toNat ascii

theorem Span.mem_of_covers {spans : List Span} {n : Nat} (covered : covers spans n = true) :
    ∃ s ∈ spans, s.first ≤ n ∧ n ≤ s.last := by
  induction spans with
  | nil => cases covered
  | cons s rest ih =>
    rw [covers_cons] at covered
    split at covered
    · cases covered
    · rcases Bool.or_eq_true_iff.mp covered with inside | later
      · simp only [contains, Bool.and_eq_true, decide_eq_true_eq] at inside
        exact ⟨s, List.mem_cons_self, inside.1⟩
      · obtain ⟨s', member, bounds⟩ := ih later
        exact ⟨s', List.mem_cons_of_mem s member, bounds⟩

/-- What a check of the blank characters settles. -/
theorem forall_blank {P : Char → Prop}
    (each : ∀ s ∈ blankSpans, ∀ k < s.last + 1 - s.first, P (Char.ofNat (s.first + k))) {c : Char}
    (blank : isBlank c = true) : P c := by
  obtain ⟨s, member, low, high⟩ := Span.mem_of_covers blank
  have found := each s member (c.toNat - s.first) (by omega)
  rwa [Nat.add_sub_cancel' low, Char.ofNat_toNat] at found

end Text

namespace Token

open Text Rule

variable {k : Kind} {c : Char} {cs w word rest rest' : List Char}

/-! Characters. -/

def isGap (c : Char) : Bool := isBlank c || c == '\x00'

theorem toNat_lt_of_isNamePart (part : isNamePart c = true) : c.toNat < 128 := by
  have upTo : ∀ {last : UInt32}, last.toNat < 128 → c.val ≤ last → c.toNat < 128 :=
    fun ascii high => Nat.lt_of_le_of_lt (UInt32.le_iff_toNat_le.mp high) ascii
  rcases Bool.or_eq_true_iff.mp part with alphanumeric | underscore
  · rcases Bool.or_eq_true_iff.mp alphanumeric with letter | digit
    · rcases Bool.or_eq_true_iff.mp letter with capital | small
      · exact upTo (by decide) (of_decide_eq_true capital).2
      · exact upTo (by decide) (of_decide_eq_true (Bool.and_eq_true_iff.mp small).2)
    · exact upTo (by decide) (of_decide_eq_true (Bool.and_eq_true_iff.mp digit).2)
  · rw [beq_iff_eq.mp underscore]
    decide

theorem isNamePart_of_isNameStart (start : isNameStart c = true) : isNamePart c = true := by
  rcases Bool.or_eq_true_iff.mp start with letter | underscore
  · simp [isNamePart, Char.isAlphanum, letter]
  · simp [isNamePart, underscore]

/-- A character that ends every word and every number before it. -/
def isBreak (c : Char) : Bool := !isNamePart c && !isWordChar c && !isDigit c && c != '.'

theorem isBreak_of_isGap (gap : isGap c = true) : isBreak c = true := by
  rcases Bool.or_eq_true_iff.mp gap with blank | null
  · exact forall_blank (P := fun c => isBreak c = true) (by decide +kernel) blank
  · rw [beq_iff_eq.mp null]
    decide

/-- A break is what can neither go on a word nor a number. -/
theorem isBreak_iff : isBreak c = true ↔
    isNamePart c = false ∧ isWordChar c = false ∧ isDigit c = false ∧ c ≠ '.' := by
  simp [isBreak, and_assoc]

/-! What the first character of a token says about its kind. -/

/-- The groups of first characters; a character of no group stands for itself. -/
inductive Front where
  | blank | number | word
  | mark (c : Char)
  deriving DecidableEq

def front (c : Char) : Front :=
  if isGap c then .blank
  else if isDigit c || c == '+' || c == '-' || c == '.' then .number
  else if isNameStart c then .word
  else .mark c

theorem front_of_isGap (gap : isGap c = true) : front c = .blank := if_pos gap

theorem front_of_isDigit (digit : isDigit c = true) : front c = .number := by
  have solid : isGap c = false := by
    by_contra gap
    have other := isBreak_iff.mp (isBreak_of_isGap (Bool.not_eq_false _ ▸ gap))
    rw [digit] at other
    cases other.2.2.1
  simp [front, solid, digit]

theorem front_of_isNameStart (start : isNameStart c = true) : front c = .word :=
  forall_ascii (P := fun c => isNameStart c = true → front c = .word) (by decide)
    (toNat_lt_of_isNamePart (isNamePart_of_isNameStart start)) start

/-- How tokens of a kind begin; the end of the text has no characters. -/
def Kind.front : Kind → Option Front
  | .blank => some .blank
  | .number => some .number
  | .message | .enum | .primitive _ | .identifier => some .word
  | .comment => some (.mark '/')
  | .hash => some (.mark '#')
  | .semicolon => some (.mark ';')
  | .brackets => some (.mark '[')
  | .question => some (.mark '?')
  | .equals => some (.mark '=')
  | .openBrace => some (.mark '\x7b')
  | .closeBrace => some (.mark '\x7d')
  | .quoted => some (.mark '"')
  | .finish => none

def Kind.length : Kind → List Char → Nat
  | .blank => Rule.blanks
  | .comment => Rule.comment
  | .hash => Rule.literal ['#']
  | .number => Rule.number
  | .semicolon => Rule.literal [';']
  | .brackets => Rule.literal ['[', ']']
  | .question => Rule.literal ['?']
  | .equals => Rule.literal ['=']
  | .openBrace => Rule.literal ['\x7b']
  | .closeBrace => Rule.literal ['\x7d']
  | .message => Rule.keyword "message".toList
  | .enum => Rule.keyword "enum".toList
  | .primitive p => Rule.keyword p.keyword.toList
  | .quoted => Rule.quoted
  | .identifier => Rule.identifier
  | .finish => fun _ => 0

def Kind.inOrder : List Kind :=
  [Kind.blank, .comment, .hash, .number, .semicolon, .brackets, .question, .equals, .openBrace,
    .closeBrace, .message, .enum] ++ Primitive.all.map Kind.primitive ++
      [Kind.quoted, .identifier]

def Kind.lexeme? (k : Kind) (cs : List Char) : Option (Kind × Nat) :=
  if k.length cs = 0 then none else some (k, k.length cs)

/-- There is one rule for each kind. -/
theorem lexeme?_eq (cs : List Char) : lexeme? cs = Kind.inOrder.findSome? (Kind.lexeme? · cs) := rfl

/-- Every kind but the end of the text is tried. -/
theorem Kind.mem_inOrder (real : k ≠ .finish) : k ∈ Kind.inOrder := by
  cases k with
  | primitive p => simp [Kind.inOrder, Primitive.mem_all p]
  | finish => exact absurd rfl real
  | _ => decide

/-- The lexeme that is found has the length of its kind, and it is not empty. -/
theorem length_of_lexeme? {n : Nat} (found : lexeme? cs = some (k, n)) :
    k.length cs = n ∧ n ≠ 0 := by
  rw [lexeme?_eq] at found
  obtain ⟨k', -, at'⟩ := List.exists_of_findSome?_eq_some found
  rw [Kind.lexeme?] at at'
  split at at'
  · cases at'
  next positive =>
    cases at'
    exact ⟨rfl, positive⟩

/-! The rules one by one: what a token looks like, where it ends, and that what comes after its end
is not looked at beyond a first character. -/

/-- A literal is found where the text starts with it. -/
theorem literal_ne_zero (found : literal word cs ≠ 0) :
    word <+: cs ∧ literal word cs = word.length := by
  rw [literal] at found ⊢
  split
  next starts => exact ⟨List.isPrefixOf_iff_prefix.mp starts, rfl⟩
  next other =>
    rw [if_neg other] at found
    exact absurd rfl found

theorem literal_append (word rest : List Char) : literal word (word ++ rest) = word.length :=
  if_pos (List.isPrefixOf_iff_prefix.mpr (List.prefix_append word rest))

theorem eq_of_literal {a : Char} {more : List Char} (found : literal (a :: more) (c :: cs) ≠ 0) :
    c = a := by
  obtain ⟨rest, whole⟩ := (literal_ne_zero found).1
  cases whole
  rfl

/-- A comment goes to the end of its line. -/
theorem comment_slashes (cs : List Char) :
    comment ('/' :: '/' :: cs) = 2 + (cs.takeWhile (· != '\n')).length := rfl

theorem comment_ne_zero (found : comment cs ≠ 0) : ∃ body, cs = '/' :: '/' :: body := by
  rw [comment.eq_def] at found
  split at found
  next body => exact ⟨body, rfl⟩
  next => exact absurd rfl found

/-- A quoted text starts and ends with a quote and has none inside. -/
theorem quoted_ne_zero (found : quoted cs ≠ 0) :
    ∃ body rest, cs = '"' :: (body ++ '"' :: rest) ∧ '"' ∉ body := by
  rw [quoted.eq_def] at found
  split at found
  next cs =>
    simp only [drop_takeWhile_length] at found
    cases after : cs.dropWhile (· != '"') with
    | nil => rw [after] at found; exact absurd rfl found
    | cons a rest =>
      have closing := ends_dropWhile (· != '"') cs
      rw [after, ends_cons, bne_eq_false_iff_eq] at closing
      refine ⟨cs.takeWhile (· != '"'), rest, ?_, ?_⟩
      · rw [closing] at after
        rw [← after, List.takeWhile_append_dropWhile]
      · intro member
        simpa using List.mem_takeWhile_imp member
  next => exact absurd rfl found

theorem quoted_append {body : List Char} (unquoted : '"' ∉ body) (rest : List Char) :
    quoted ('"' :: (body ++ '"' :: rest)) = body.length + 2 := by
  have inside : ∀ c ∈ body, (c != '"') = true := by
    intro c member
    rw [bne_iff_ne]
    rintro rfl
    exact unquoted member
  have whole : (body ++ '"' :: rest).takeWhile (· != '"') = body := by
    rw [List.takeWhile_append_of_pos inside, List.takeWhile_cons]
    simp
  simp only [quoted, whole, List.drop_left]

/-- The length of a point and the digits after it; a point alone does not count. -/
def fraction : List Char → Nat
  | '.' :: cs => if (cs.takeWhile isDigit).length = 0 then 0 else 1 + (cs.takeWhile isDigit).length
  | _ => 0

theorem fraction_of_ne (other : c ≠ '.') (cs : List Char) : fraction (c :: cs) = 0 := by
  simp [fraction, other]

theorem unsignedNumber_eq (cs : List Char) :
    unsignedNumber cs = (cs.takeWhile isDigit).length + fraction (cs.dropWhile isDigit) := by
  simp only [unsignedNumber, drop_takeWhile_length]
  split
  next rest after =>
    simp only [after, fraction]
    split <;> omega
  next other =>
    rw [fraction.eq_def]
    split
    next cs after => exact absurd after (other cs)
    next => rfl

/-- What can go on neither the digits nor the fraction does not change the number. -/
theorem unsignedNumber_append (digits : Ends isDigit rest) (point : rest.head? ≠ some '.')
    (w : List Char) : unsignedNumber (w ++ rest) = unsignedNumber w := by
  rw [unsignedNumber_eq, unsignedNumber_eq, takeWhile_append_ends digits,
    dropWhile_append_ends digits]
  congr 1
  cases w.dropWhile isDigit with
  | nil =>
    cases rest with
    | nil => rfl
    | cons c rest =>
      rw [List.nil_append, fraction_of_ne fun first => point (congrArg some first)]
      rfl
  | cons c more =>
    by_cases first : c = '.'
    · subst first
      simp only [List.cons_append, fraction, takeWhile_append_ends digits]
    · rw [List.cons_append, fraction_of_ne first, fraction_of_ne first]

/-- A number takes all of the digits that it can. -/
theorem unsignedNumber_ends (cs : List Char) : Ends isDigit (cs.drop (unsignedNumber cs)) := by
  have stopped := ends_dropWhile isDigit cs
  rw [unsignedNumber_eq, ← List.drop_drop, drop_takeWhile_length]
  cases after : cs.dropWhile isDigit with
  | nil => exact ends_nil
  | cons c rest =>
    rw [after] at stopped
    by_cases point : c = '.'
    · subst point
      rw [fraction]
      split
      · exact stopped
      · rw [Nat.add_comm, List.drop_succ_cons, drop_takeWhile_length]
        exact ends_dropWhile isDigit rest
    · rwa [fraction_of_ne point]

theorem fraction_le (cs : List Char) : fraction cs ≤ cs.length := by
  rw [fraction.eq_def]
  split
  next cs =>
    have digits := (List.takeWhile_prefix isDigit (l := cs)).length_le
    rw [List.length_cons]
    split <;> omega
  next => exact Nat.zero_le _

theorem unsignedNumber_le (cs : List Char) : unsignedNumber cs ≤ cs.length := by
  have total := congrArg List.length (List.takeWhile_append_dropWhile (p := isDigit) (l := cs))
  have after := fraction_le (cs.dropWhile isDigit)
  rw [List.length_append] at total
  rw [unsignedNumber_eq]
  omega

theorem nameTail_cons_of_ne (other : c ≠ '.') (cs : List Char) :
    nameTail (c :: cs) = if isNamePart c then 1 + nameTail cs else 0 := by
  rw [nameTail]
  rintro _ _ rfl
  exact absurd rfl other

theorem nameTail_of_ends (parts : Ends isNamePart cs) (point : cs.head? ≠ some '.') :
    nameTail cs = 0 := by
  cases cs with
  | nil => rfl
  | cons c cs =>
    have other : c ≠ '.' := fun first => point (congrArg some first)
    rw [nameTail_cons_of_ne other, ends_cons.mp parts]
    rfl

/-- What can go on neither the part nor the path does not change the name. -/
theorem nameTail_append (parts : Ends isNamePart rest) (point : rest.head? ≠ some '.')
    (w : List Char) : nameTail (w ++ rest) = nameTail w := by
  fun_induction nameTail w with
  | case1 c cs start ih =>
    rw [List.cons_append, List.cons_append, nameTail, if_pos start, ih]
  | case2 c cs start =>
    rw [List.cons_append, List.cons_append, nameTail, if_neg start]
  | case3 c cs _ part ih =>
    have other : c ≠ '.' := by
      rintro rfl
      cases part
    rw [List.cons_append, nameTail_cons_of_ne other, if_pos part, ih]
  | case4 c cs other part =>
    by_cases last : c = '.'
    · subst last
      cases cs with
      | cons d cs => exact absurd rfl (other d cs rfl)
      | nil =>
        -- a point at the very end stays outside, as no name starts after it
        cases rest with
        | nil => rfl
        | cons d rest =>
          have inside : ¬ isNameStart d = true := by
            intro start
            have part := ends_cons.mp parts
            rw [isNamePart_of_isNameStart start] at part
            cases part
          rw [List.singleton_append, nameTail, if_neg inside]
    · rw [List.cons_append, nameTail_cons_of_ne last, if_neg part]
  | case5 => exact nameTail_of_ends parts point

/-- A name takes all of the characters that it can. -/
theorem nameTail_ends (cs : List Char) : Ends isNamePart (cs.drop (nameTail cs)) := by
  fun_induction nameTail cs with
  | case1 c cs start ih => rwa [Nat.add_comm]
  | case2 c cs start => exact ends_cons.mpr (by decide)
  | case3 c cs other part ih => rwa [Nat.add_comm]
  | case4 c cs other part => exact ends_cons.mpr (Bool.not_eq_true _ ▸ part)
  | case5 => exact ends_nil

theorem nameTail_le (cs : List Char) : nameTail cs ≤ cs.length := by
  fun_induction nameTail cs with
  | case1 c cs start ih => simp only [List.length_cons]; omega
  | case2 c cs start => exact Nat.zero_le _
  | case3 c cs other part ih => simp only [List.length_cons]; omega
  | case4 c cs other part => exact Nat.zero_le _
  | case5 => exact Nat.le_refl _

/-- The characters of the rest of a name. -/
theorem mem_take_nameTail (inside : c ∈ cs.take (nameTail cs)) :
    isNamePart c = true ∨ c = '.' := by
  fun_induction nameTail cs with
  | case1 d cs start ih =>
    rw [Nat.add_comm, List.take_succ_cons, List.take_succ_cons] at inside
    rcases List.mem_cons.mp inside with rfl | inside
    · exact Or.inr rfl
    · rcases List.mem_cons.mp inside with rfl | inside
      · exact Or.inl (isNamePart_of_isNameStart start)
      · exact ih inside
  | case2 d cs start => cases inside
  | case3 d cs other part ih =>
    rw [Nat.add_comm, List.take_succ_cons] at inside
    rcases List.mem_cons.mp inside with rfl | inside
    · exact Or.inl part
    · exact ih inside
  | case4 d cs other part => cases inside
  | case5 => cases inside

/-- Whether there is a sign is told by the first character. -/
theorem signLength_cons (c : Char) (cs cs' : List Char) :
    signLength (c :: cs') = signLength (c :: cs) := by
  by_cases plus : c = '+'
  · rw [plus]; rfl
  · by_cases minus : c = '-'
    · rw [minus]; rfl
    · simp [signLength, plus, minus]

theorem signLength_le (c : Char) (cs : List Char) : signLength (c :: cs) ≤ 1 := by
  rw [signLength.eq_def]
  split
  · exact Nat.le_refl _
  · exact Nat.le_refl _
  · exact Nat.zero_le _

theorem number_append (digits : Ends isDigit rest) (point : rest.head? ≠ some '.') (c : Char)
    (w : List Char) : number (c :: (w ++ rest)) = number (c :: w) := by
  have short := signLength_le c w
  have after : (c :: (w ++ rest)).drop (signLength (c :: w)) =
      (c :: w).drop (signLength (c :: w)) ++ rest := by
    rw [← List.cons_append, List.drop_append_of_le_length]
    rw [List.length_cons]
    omega
  simp only [number, signLength_cons c w, after, unsignedNumber_append digits point]

theorem number_ends (found : number cs ≠ 0) : Ends isDigit (cs.drop (number cs)) := by
  rw [number] at found ⊢
  split
  next none => rw [if_pos none] at found; exact absurd rfl found
  next =>
    rw [← List.drop_drop]
    exact unsignedNumber_ends _

theorem identifier_append (parts : Ends isNamePart rest) (point : rest.head? ≠ some '.')
    (c : Char) (w : List Char) : identifier (c :: (w ++ rest)) = identifier (c :: w) := by
  rw [identifier, identifier, nameTail_append parts point]

theorem identifier_ne_zero (found : identifier (c :: cs) ≠ 0) :
    isNameStart c = true ∧ identifier (c :: cs) = 1 + nameTail cs := by
  rw [identifier] at found ⊢
  split
  next start => exact ⟨start, rfl⟩
  next other => rw [if_neg other] at found; exact absurd rfl found

/-- A keyword is found where the text starts with it and the word ends behind it. -/
theorem keyword_ne_zero (found : keyword word cs ≠ 0) :
    word <+: cs ∧ endsWord (cs.drop word.length) = true ∧ keyword word cs = word.length := by
  rw [keyword] at found ⊢
  split
  next matched =>
    rw [Bool.and_eq_true, List.isPrefixOf_iff_prefix] at matched
    exact ⟨matched.1, matched.2, rfl⟩
  next unmatched =>
    rw [if_neg unmatched] at found
    exact absurd rfl found

/-- A keyword cannot go on behind a character that is no part of names. -/
theorem prefix_append_iff (named : ∀ c ∈ word, isNamePart c = true) (parts : Ends isNamePart rest)
    (w : List Char) : word <+: w ++ rest ↔ word <+: w := by
  constructor
  · intro starts
    induction w generalizing word with
    | nil =>
      cases word with
      | nil => exact List.nil_prefix
      | cons c word =>
        obtain ⟨after, rfl⟩ := starts
        have part := ends_cons.mp parts
        rw [named c List.mem_cons_self] at part
        cases part
    | cons d w ih =>
      cases word with
      | nil => exact List.nil_prefix
      | cons c word =>
        rw [List.cons_append, List.cons_prefix_cons] at starts
        rw [List.cons_prefix_cons]
        exact ⟨starts.1, ih (fun c member => named c (List.mem_cons_of_mem _ member)) starts.2⟩
  · intro starts
    exact starts.trans (List.prefix_append w rest)

/-- What ends the word does not change which keyword it is. -/
theorem keyword_append (named : word.all isNamePart = true) (parts : Ends isNamePart rest)
    (ends : Ends isWordChar rest) (w : List Char) :
    keyword word (w ++ rest) = keyword word w := by
  have same : word.isPrefixOf (w ++ rest) = word.isPrefixOf w := by
    rw [Bool.eq_iff_iff, List.isPrefixOf_iff_prefix, List.isPrefixOf_iff_prefix]
    exact prefix_append_iff (List.all_eq_true.mp named) parts w
  rw [keyword, keyword, same]
  cases starts : word.isPrefixOf w with
  | false => rfl
  | true =>
    rw [List.drop_append_of_le_length (List.isPrefixOf_iff_prefix.mp starts).length_le]
    cases w.drop word.length with
    | cons c w => rfl
    | nil =>
      cases rest with
      | nil => rfl
      | cons c rest => simp [endsWord, ends_cons.mp ends]

/-! All rules together. -/

/-- A mark is opened by no other character. -/
theorem eq_of_front_mark {a : Char} (marked : front c = .mark a) : c = a := by
  rw [front] at marked
  split at marked
  · cases marked
  · split at marked
    · cases marked
    · split at marked
      · cases marked
      · exact Front.mark.inj marked

theorem isGap_of_front (blank : front c = .blank) : isGap c = true := by
  rw [front] at blank
  split at blank
  next gap => exact gap
  next =>
    split at blank
    · cases blank
    · split at blank <;> cases blank

theorem isNameStart_of_front (word : front c = .word) : isNameStart c = true := by
  rw [front] at word
  split at word
  · cases word
  · split at word
    · cases word
    · split at word
      next start => exact start
      next => cases word

/-- A number is opened by a digit, a sign or a point. -/
theorem front_of_number (found : number (c :: cs) ≠ 0) : front c = .number := by
  by_cases plus : c = '+'
  · rw [plus]; decide
  · by_cases minus : c = '-'
    · rw [minus]; decide
    · have unsigned : signLength (c :: cs) = 0 := by simp [signLength, plus, minus]
      cases digit : isDigit c with
      | true => exact front_of_isDigit digit
      | false =>
        by_cases point : c = '.'
        · rw [point]; decide
        · refine absurd ?_ found
          simp [number, unsigned, unsignedNumber_eq, digit, fraction_of_ne point]

/-- A keyword is opened like any word. -/
theorem front_of_keyword (start : word.head?.any isNameStart = true)
    (found : keyword word (c :: cs) ≠ 0) : front c = .word := by
  obtain ⟨after, whole⟩ := (keyword_ne_zero found).1
  cases word with
  | nil => cases start
  | cons a word =>
    cases whole
    exact front_of_isNameStart start

/-- A rule that finds a token finds one of its own group. -/
theorem front_of_length (found : k.length (c :: cs) ≠ 0) : k.front = some (front c) := by
  cases k with
  | blank =>
    rw [Kind.length, blanks, List.takeWhile_cons] at found
    split at found
    next gap => rw [front_of_isGap gap]; rfl
    next => exact absurd rfl found
  | comment =>
    obtain ⟨body, whole⟩ := comment_ne_zero found
    cases whole
    decide
  | number => rw [front_of_number found]; rfl
  | quoted =>
    obtain ⟨body, rest, whole, -⟩ := quoted_ne_zero found
    cases whole
    decide
  | identifier => rw [front_of_isNameStart (identifier_ne_zero found).1]; rfl
  | message => rw [front_of_keyword (by decide) found]; rfl
  | enum => rw [front_of_keyword (by decide) found]; rfl
  | primitive p =>
    have start : p.keyword.toList.head?.any isNameStart = true := by cases p <;> decide
    rw [front_of_keyword start found]
    rfl
  | finish => exact absurd rfl found
  | hash | semicolon | brackets | question | equals | openBrace | closeBrace =>
    rw [eq_of_literal found]
    decide

def Front.kind : Front → Kind
  | .blank => .blank
  | .number => .number
  | .mark '/' => .comment
  | .mark '#' => .hash
  | .mark ';' => .semicolon
  | .mark '[' => .brackets
  | .mark '?' => .question
  | .mark '=' => .equals
  | .mark '\x7b' => .openBrace
  | .mark '\x7d' => .closeBrace
  | .mark '"' => .quoted
  | .word | .mark _ => .finish

/-- Unless it opens a word, a first character tells the kind. -/
theorem Front.kind_of_front {f : Front} (first : k.front = some f) (other : f ≠ .word) :
    f.kind = k := by
  cases k with
  | message | enum | primitive _ | identifier =>
    cases first
    exact absurd rfl other
  | finish => cases first
  | _ =>
    cases first
    rfl

/-- Outside words, the first character decides which rule is used. -/
theorem lexeme?_of_front (other : front c ≠ .word) (cs : List Char) :
    lexeme? (c :: cs) = (front c).kind.lexeme? (c :: cs) := by
  have sole : ∀ k' ∈ Kind.inOrder, k'.lexeme? (c :: cs) = none ∨ (front c).kind = k' := by
    intro k' _
    by_cases found : k'.length (c :: cs) = 0
    · exact Or.inl (if_pos found)
    · exact Or.inr (Front.kind_of_front (front_of_length found) other)
  rw [lexeme?_eq]
  cases found : Kind.inOrder.findSome? (Kind.lexeme? · (c :: cs)) with
  | some result =>
    obtain ⟨k', member, at'⟩ := List.exists_of_findSome?_eq_some found
    rcases sole k' member with nothing | same
    · rw [nothing] at at'
      cases at'
    · rw [same, at']
  | none =>
    have nothing := List.findSome?_eq_none_iff.mp found
    by_cases real : (front c).kind = .finish
    · rw [real]; rfl
    · exact (nothing _ (Kind.mem_inOrder real)).symm

/-- Blank space is taken as far as it goes. -/
theorem lexeme?_blank (gap : isGap c = true) (cs : List Char) :
    lexeme? (c :: cs) = some (.blank, ((c :: cs).takeWhile isGap).length) := by
  rw [lexeme?_of_front (by rw [front_of_isGap gap]; nofun), front_of_isGap gap]
  have length : Kind.blank.length (c :: cs) = ((c :: cs).takeWhile isGap).length := rfl
  rw [Front.kind, Kind.lexeme?, length, List.takeWhile_cons, if_pos gap]
  rfl

/-- Only kinds that the first character opens have a say in the lexeme. -/
theorem lexeme?_congr {cs' : List Char}
    (same : ∀ k : Kind, k.front = some (front c) → k.length (c :: cs') = k.length (c :: cs)) :
    lexeme? (c :: cs') = lexeme? (c :: cs) := by
  have each : ∀ k : Kind, k.lexeme? (c :: cs') = k.lexeme? (c :: cs) := by
    intro k
    by_cases first : k.front = some (front c)
    · rw [Kind.lexeme?, Kind.lexeme?, same k first]
    · have none : ∀ cs, k.length (c :: cs) = 0 := by
        intro cs
        by_contra found
        exact first (front_of_length found)
      rw [Kind.lexeme?, Kind.lexeme?, none, none]
  rw [lexeme?_eq, lexeme?_eq, funext each]

theorem isBreak_of_front (opens : k.front = some (front c)) (digit : front c ≠ .number)
    (word : front c ≠ .word) : isBreak c = true := by
  cases k with
  | blank => exact isBreak_of_isGap (isGap_of_front (Option.some.inj opens).symm)
  | number => exact absurd (Option.some.inj opens).symm digit
  | message | enum | primitive _ | identifier => exact absurd (Option.some.inj opens).symm word
  | finish => cases opens
  | _ =>
    rw [eq_of_front_mark (Option.some.inj opens).symm]
    decide

theorem isWordChar_of_isNamePart (part : isNamePart c = true) : isWordChar c = true :=
  forall_ascii (P := fun c => isNamePart c = true → isWordChar c = true) (by decide)
    (toNat_lt_of_isNamePart part) part

/-- A list that begins as the other one does, or with a break. -/
def Follows (rest rest' : List Char) : Prop :=
  rest'.head? = rest.head? ∨ ∃ c ∈ rest'.head?, isBreak c = true

/-- What no longer goes on before a rest does not go on before one that follows it. -/
theorem Follows.ends {test : Char → Bool} (next : Follows rest rest') (ends : Ends test rest)
    (breaks : ∀ c, isBreak c = true → test c = false) : Ends test rest' := by
  intro c first
  rcases next with same | ⟨d, first', isBreak⟩
  · rw [same] at first
    exact ends c first
  · cases first.symm.trans first'
    exact breaks c isBreak

theorem Follows.point (next : Follows rest rest') (point : rest.head? ≠ some '.') :
    rest'.head? ≠ some '.' := by
  intro first
  rcases next with same | ⟨d, first', isBreak⟩
  · exact point (same ▸ first)
  · cases first.symm.trans first'
    cases isBreak

/-- A literal is the same before any rest. -/
theorem literal_swap (found : literal word (w ++ rest) = w.length) (solid : w ≠ [])
    (rest' : List Char) : literal word (w ++ rest') = literal word (w ++ rest) := by
  have positive : w.length ≠ 0 := fun none => solid (List.length_eq_zero_iff.mp none)
  obtain ⟨starts, length⟩ := literal_ne_zero (found ▸ positive)
  have whole : word = w := (List.prefix_of_prefix_length_le starts (List.prefix_append w rest)
    (by omega)).eq_of_length (by omega)
  rw [whole, literal_append, literal_append]

/-- A quoted text is the same before any rest. -/
theorem quoted_swap (found : quoted (w ++ rest) = w.length) (solid : w ≠ [])
    (rest' : List Char) : quoted (w ++ rest') = quoted (w ++ rest) := by
  have positive : w.length ≠ 0 := fun none => solid (List.length_eq_zero_iff.mp none)
  obtain ⟨body, after, whole, unquoted⟩ := quoted_ne_zero (found ▸ positive)
  have length := quoted_append unquoted after
  rw [← whole, found] at length
  have same : w = '"' :: (body ++ ['"']) := by
    have joined : w ++ rest = '"' :: (body ++ ['"']) ++ after := by simpa using whole
    exact List.append_inj_left joined (by simpa using length)
  rw [found, length, same]
  simpa using quoted_append unquoted rest'

/-- Words of all kinds end where neither the name nor the word goes on. -/
theorem Kind.length_append (word : k.front = some .word) (parts : Ends isNamePart rest)
    (ends : Ends isWordChar rest) (point : rest.head? ≠ some '.') (c : Char) (w : List Char) :
    k.length (c :: (w ++ rest)) = k.length (c :: w) := by
  cases k with
  | identifier => exact identifier_append parts point c w
  | message => exact keyword_append (by decide) parts ends (c :: w)
  | enum => exact keyword_append (by decide) parts ends (c :: w)
  | primitive p => exact keyword_append (by cases p <;> decide) parts ends (c :: w)
  | _ => cases word

theorem keyword_ends (found : keyword word (w ++ rest) = w.length) (positive : w.length ≠ 0) :
    Ends isNamePart rest := by
  obtain ⟨-, ends, length⟩ := keyword_ne_zero (found ▸ positive)
  rw [← length, found, List.drop_left] at ends
  intro c first
  cases rest with
  | nil => cases first
  | cons d rest =>
    cases first
    by_contra part
    rw [endsWord, isWordChar_of_isNamePart (Bool.not_eq_false _ ▸ part)] at ends
    cases ends

/-- A word goes on as long as there are characters of names. -/
theorem Kind.length_ends (word : k.front = some .word)
    (found : k.length (c :: (w ++ rest)) = (c :: w).length) : Ends isNamePart rest := by
  have positive : (c :: w).length ≠ 0 := nofun
  cases k with
  | message | enum | primitive _ => exact keyword_ends (w := c :: w) found positive
  | identifier =>
    have read : Rule.identifier (c :: (w ++ rest)) = (c :: w).length := found
    have tail := (identifier_ne_zero (read ▸ positive)).2
    rw [read, List.length_cons, Nat.add_comm, Nat.add_left_cancel_iff] at tail
    have ends := nameTail_ends (w ++ rest)
    rwa [← tail, List.drop_left] at ends
  | _ => cases word

/-- What follows a token can be replaced without a change to the token: by anything that begins
alike, and by anything that begins with a break. A number may directly follow only an equals sign:
digits of other scripts keep the word before them from being a keyword. -/
theorem lexeme?_swap (found : lexeme? (w ++ rest) = some (k, w.length))
    (meaningful : k.isTrivia = false)
    (apart : k ≠ .equals →
      ∀ c ∈ rest.head?, front c ≠ .number ∧ ∃ k' : Kind, k'.front = some (front c))
    (next : Follows rest rest') : lexeme? (w ++ rest') = some (k, w.length) := by
  obtain ⟨length, positive⟩ := length_of_lexeme? found
  have solid : w ≠ [] := by
    rintro rfl
    exact positive rfl
  obtain ⟨c, u, rfl⟩ := List.exists_cons_of_ne_nil solid
  have first : k.front = some (front c) := front_of_length (length ▸ positive)
  have point : k ≠ .equals → rest.head? ≠ some '.' := by
    intro other first
    exact (apart other '.' first).1 (by decide)
  rw [← found]
  apply lexeme?_congr
  intro k' first'
  -- A letter starts tokens of several kinds, and none of their lengths may change. Any other
  -- character starts tokens of one kind only.
  by_cases word : k.front = some .word
  · have other : k ≠ .equals := by
      rintro rfl
      cases word
    have parts : Ends isNamePart rest := Kind.length_ends word length
    have ends : Ends isWordChar rest := by
      intro d next
      obtain ⟨digit, k', opens⟩ := apart other d next
      have isWord : front d ≠ .word := by
        intro isWord
        have part := isNamePart_of_isNameStart (isNameStart_of_front isWord)
        rw [parts d next] at part
        cases part
      exact (isBreak_iff.mp (isBreak_of_front opens digit isWord)).2.1
    have parts' := next.ends parts fun c isBreak => (isBreak_iff.mp isBreak).1
    have ends' := next.ends ends fun c isBreak => (isBreak_iff.mp isBreak).2.1
    have word' : k'.front = some .word := by rw [first', ← first, word]
    exact (k'.length_append word' parts' ends' (next.point (point other)) c u).trans
      (k'.length_append word' parts ends (point other) c u).symm
  · have same : k' = k := by
      have other : front c ≠ .word := fun isWord => word (first.trans (congrArg some isWord))
      rw [← Front.kind_of_front first other, ← Front.kind_of_front first' other]
    subst same
    cases k' with
    | blank | comment => cases meaningful
    | message | enum | primitive _ | identifier => exact absurd rfl word
    | finish => cases first
    | quoted => exact quoted_swap length solid rest'
    | number =>
      have digits : Ends isDigit rest := by
        have read : number (c :: u ++ rest) = (c :: u).length := length
        have ends := number_ends (read ▸ positive)
        rwa [read, List.drop_left] at ends
      have digits' := next.ends digits fun c isBreak => (isBreak_iff.mp isBreak).2.2.1
      have point := point nofun
      exact (number_append digits' (next.point point) c u).trans
        (number_append digits point c u).symm
    | _ => exact literal_swap length solid rest'

end Token

end WireSchema
