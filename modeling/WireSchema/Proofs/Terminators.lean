import WireSchema.Proofs.Acceptance
import WireSchema.Proofs.RoundTrip

/-!
Semicolons that were forgotten. Whatever semicolons are taken out of an accepted text, each of them
is missed once, at the token that followed it, and nothing else goes wrong: what comes next after a
field, an entry or a define can neither continue it nor end it, so reading goes on as if the
semicolon had been there.
-/

namespace WireSchema.Parser

open Grammar

variable {α β : Type} {finish : Place} {tokens rest left : List Token} {places : List Place}

/-- The positions of the semicolons in front of the end of the text, counted from `start`. -/
def semicolonsFrom (start : Nat) (tokens : List Token) : List Nat :=
  (((tokens.takeWhile fun t => t.kind ≠ .finish).zipIdx start).filter
    fun p => p.1.kind = .semicolon).map Prod.snd

def semicolons (tokens : List Token) : List Nat := semicolonsFrom 0 tokens

/-- The tokens whose positions, counted from `start`, are not among those that are gone. -/
def withoutFrom (gone : List Nat) (start : Nat) (tokens : List Token) : List Token :=
  ((tokens.zipIdx start).filter fun p => p.2 ∉ gone).map Prod.fst

def without (gone : List Nat) (tokens : List Token) : List Token := withoutFrom gone 0 tokens

/-- The second list is the first one without some of the semicolons in front of the end of the text,
and the places are those of the tokens that followed them. -/
inductive Lapse (finish : Place) : List Token → List Token → List Place → Prop
  | ended {rest : List Token} (ends : Stops (fun t => t.kind ≠ .finish) rest) :
      Lapse finish rest rest []
  | keep {t : Token} {tokens left : List Token} {places : List Place} (goesOn : t.kind ≠ .finish)
      (later : Lapse finish tokens left places) : Lapse finish (t :: tokens) (t :: left) places
  | drop {t : Token} {tokens left : List Token} {places : List Place}
      (closing : t.kind = .semicolon) (later : Lapse finish tokens left places) :
      Lapse finish (t :: tokens) left (placeOf finish tokens :: places)

/-! Positions and lapses. -/

/-- The first token stands at `start`, the others behind it. -/
theorem semicolonsFrom_cons {t : Token} (goesOn : t.kind ≠ .finish) (start : Nat) :
    semicolonsFrom start (t :: tokens) =
      if t.kind = .semicolon then start :: semicolonsFrom (start + 1) tokens
      else semicolonsFrom (start + 1) tokens := by
  rw [semicolonsFrom, List.takeWhile_cons_of_pos (by simpa using goesOn), List.zipIdx_cons,
    List.filter_cons]
  by_cases closing : t.kind = .semicolon
  · rw [if_pos closing, if_pos (decide_eq_true closing)]
    rfl
  · rw [if_neg closing, if_neg (by simpa using closing)]
    rfl

theorem le_of_mem_semicolonsFrom {start i : Nat} (member : i ∈ semicolonsFrom start tokens) :
    start ≤ i := by
  obtain ⟨p, inside, rfl⟩ := List.mem_map.mp member
  exact List.le_snd_of_mem_zipIdx (List.mem_of_mem_filter inside)

theorem withoutFrom_cons (gone : List Nat) (start : Nat) (t : Token) (tokens : List Token) :
    withoutFrom gone start (t :: tokens) =
      if start ∈ gone then withoutFrom gone (start + 1) tokens
      else t :: withoutFrom gone (start + 1) tokens := by
  rw [withoutFrom, List.zipIdx_cons, List.filter_cons]
  by_cases member : start ∈ gone
  · rw [if_pos member, if_neg (by simpa using member)]
    rfl
  · rw [if_neg member, if_pos (by simpa using member)]
    rfl

theorem withoutFrom_nil (start : Nat) (tokens : List Token) :
    withoutFrom [] start tokens = tokens := by
  rw [withoutFrom, List.filter_eq_self.mpr (by simp), List.zipIdx_map_fst]

/-- A position in front of all tokens takes none away. -/
theorem withoutFrom_cons_of_lt {i start : Nat} (before : i < start) (gone : List Nat)
    (tokens : List Token) :
    withoutFrom (i :: gone) start tokens = withoutFrom gone start tokens := by
  rw [withoutFrom, withoutFrom]
  congr 1
  apply List.filter_congr
  intro p inside
  have behind := List.le_snd_of_mem_zipIdx inside
  simp only [List.mem_cons, not_or, decide_eq_decide]
  exact and_iff_right (by omega)

/-- Taking out some of the semicolons is a lapse at what follows each of them. -/
theorem lapse_withoutFrom {gone : List Nat} {start : Nat}
    (inside : gone.Sublist (semicolonsFrom start tokens)) :
    Lapse finish tokens (withoutFrom gone start tokens)
      (gone.map fun i => placeOf finish (tokens.drop (i + 1 - start))) := by
  induction tokens generalizing gone start with
  | nil =>
    obtain rfl : gone = [] := List.sublist_nil.mp inside
    exact .ended (stops_nil _)
  | cons t tokens ih =>
    by_cases ends : t.kind = .finish
    · have none : semicolonsFrom start (t :: tokens) = [] := by
        simp [semicolonsFrom, ends]
      rw [none] at inside
      obtain rfl : gone = [] := List.sublist_nil.mp inside
      rw [withoutFrom_nil]
      exact .ended (by simpa using ends)
    -- The rest is counted from one further on, so its positions are one less behind the start.
    have later {gone : List Nat} (inside : gone.Sublist (semicolonsFrom (start + 1) tokens)) :
        Lapse finish tokens (withoutFrom gone (start + 1) tokens)
          (gone.map fun i => placeOf finish ((t :: tokens).drop (i + 1 - start))) := by
      have shifted : (gone.map fun i => placeOf finish ((t :: tokens).drop (i + 1 - start))) =
          gone.map fun i => placeOf finish (tokens.drop (i + 1 - (start + 1))) := by
        apply List.map_congr_left
        intro i member
        have behind := le_of_mem_semicolonsFrom (inside.subset member)
        rw [show i + 1 - start = i + 1 - (start + 1) + 1 by omega, List.drop_succ_cons]
      rw [shifted]
      exact ih inside
    have kept {gone : List Nat} (inside : gone.Sublist (semicolonsFrom (start + 1) tokens)) :
        Lapse finish (t :: tokens) (withoutFrom gone start (t :: tokens))
          (gone.map fun i => placeOf finish ((t :: tokens).drop (i + 1 - start))) := by
      have absent : start ∉ gone := by
        intro member
        have behind := le_of_mem_semicolonsFrom (inside.subset member)
        omega
      rw [withoutFrom_cons, if_neg absent]
      exact .keep ends (later inside)
    rw [semicolonsFrom_cons ends] at inside
    split at inside
    next closing =>
      rcases List.sublist_cons_iff.mp inside with others | ⟨more, rfl, others⟩
      · exact kept others
      · rw [withoutFrom_cons, if_pos List.mem_cons_self,
          withoutFrom_cons_of_lt (Nat.lt_succ_self start), List.map_cons,
          show start + 1 - start = 1 by omega]
        exact .drop closing (later others)
    next => exact kept inside

/-! What a lapse leaves of the front of a list. -/

/-- Nothing is left, or what comes next neither ends what stands before it nor goes on with it. -/
def Opens (tokens : List Token) : Prop :=
  ∀ t ∈ tokens.head?, t.kind ≠ .semicolon ∧ t.kind ≠ .equals

theorem opens_cons {t : Token} : Opens (t :: tokens) ↔ t.kind ≠ .semicolon ∧ t.kind ≠ .equals := by
  simp [Opens]

theorem Opens.stops (opens : Opens tokens) :
    Stops (fun t => t.kind = .semicolon) tokens ∧ Stops (fun t => t.kind = .equals) tokens := by
  cases tokens with
  | nil => simp
  | cons t tokens => simpa using opens_cons.mp opens

def Free (tokens : List Token) : Prop := ∀ t ∈ tokens, t.kind ≠ .semicolon ∧ t.kind ≠ .finish

namespace Lapse

theorem first {t : Token} (inner : t.kind ≠ .semicolon) (goesOn : t.kind ≠ .finish)
    (lapse : Lapse finish (t :: tokens) left places) :
    ∃ later, left = t :: later ∧ Lapse finish tokens later places := by
  cases lapse with
  | ended ends => exact absurd (by simpa using ends) goesOn
  | drop closing => exact absurd closing inner
  | keep _ rest => exact ⟨_, rfl, rest⟩

/-- A front without semicolons is left as it is. -/
theorem front {front : List Token} (free : Free front)
    (lapse : Lapse finish (front ++ tokens) left places) :
    ∃ later, left = front ++ later ∧ Lapse finish tokens later places := by
  induction front generalizing left with
  | nil => exact ⟨left, rfl, lapse⟩
  | cons t front ih =>
    obtain ⟨⟨inner, goesOn⟩, free⟩ := List.forall_mem_cons.mp free
    obtain ⟨_, rfl, rest⟩ := lapse.first inner goesOn
    obtain ⟨later, rfl, behind⟩ := ih free rest
    exact ⟨later, rfl, behind⟩

/-- A first token that is no semicolon stays first. -/
theorem head? (lapse : Lapse finish tokens left places) (opens : Opens tokens) :
    left.head? = tokens.head? := by
  cases lapse with
  | ended => rfl
  | keep => rfl
  | drop closing => exact absurd closing (opens_cons.mp opens).1

theorem opens (lapse : Lapse finish tokens left places) (opens : Opens tokens) : Opens left := by
  rw [Opens, lapse.head? opens]
  exact opens

/-- What is left starts at the same place. -/
theorem placeOf_eq (lapse : Lapse finish tokens left places) (opens : Opens tokens) :
    placeOf finish left = placeOf finish tokens := by
  have same := lapse.head? opens
  cases left <;> cases tokens <;> simp_all [placeOf]

theorem eq_of_ends (ends : Stops (fun t => t.kind ≠ .finish) tokens)
    (lapse : Lapse finish tokens left places) : left = tokens ∧ places = [] := by
  cases lapse with
  | ended => exact ⟨rfl, rfl⟩
  | keep goesOn => exact absurd (by simpa using ends) goesOn
  | drop closing => simp [closing] at ends

end Lapse

/-- What is left of a semicolon in front of `rest`, and the places where it is missed. -/
inductive Closing (finish : Place) (rest : List Token) : List Token → List Place → Prop
  | kept {close : Token} (closed : close.kind = .semicolon) : Closing finish rest [close] []
  | missed (opens : Opens rest) : Closing finish rest [] [placeOf finish rest]

/-- Where something else follows a semicolon, a lapse keeps it or has it missed there. -/
theorem Lapse.closing {close : Token} (closed : close.kind = .semicolon) (opens : Opens tokens)
    (lapse : Lapse finish (close :: tokens) left places) :
    ∃ closing behind now after, left = closing ++ behind ∧ places = now ++ after ∧
      Closing finish behind closing now ∧ Lapse finish tokens behind after := by
  cases lapse with
  | ended ends => simp [closed] at ends
  | keep _ rest => exact ⟨[close], _, [], _, rfl, rfl, .kept closed, rest⟩
  | drop _ rest =>
    -- No semicolon follows, so the next token is still there and has kept its place.
    refine ⟨[], _, [placeOf finish tokens], _, rfl, rfl, ?_, rest⟩
    rw [← rest.placeOf_eq opens]
    exact .missed (rest.opens opens)

/-! Parsers that miss a semicolon and go on. -/

/-- The issues are those of missing semicolons at these places, in this order. -/
def Misses (noted : List Issue) (places : List Place) : Prop :=
  noted.map (fun i => (i.kind, i.place)) = places.map fun p => (.missingTerminator, p)

theorem misses_nil : Misses [] [] := rfl

/-- Misses are noted in the order of the text. -/
theorem Misses.append {noted more : List Issue} {now later : List Place}
    (first : Misses noted now) (next : Misses more later) :
    Misses (noted ++ more) (now ++ later) := by
  rw [Misses, List.map_append, List.map_append, first, next]

/-- The parser reads `a`, leaves `rest` and notes semicolons missing at these places, no more. -/
def Recovers (p : Parser α) (finish : Place) (tokens : List Token) (a : α) (rest : List Token)
    (places : List Place) : Prop :=
  ∃ noted, p.run finish tokens = ⟨.ok a, rest, noted⟩ ∧ Misses noted places

theorem Yields.recovers {p : Parser α} {a : α} (yields : Yields p finish tokens a rest) :
    Recovers p finish tokens a rest [] := ⟨[], yields, misses_nil⟩

/-- Parsers that recover one after the other note the misses of both. -/
theorem Recovers.bind {p : Parser α} {f : α → Parser β} {a : α} {b : β} {middle : List Token}
    {now later : List Place} (first : Recovers p finish tokens a middle now)
    (next : Recovers (f a) finish middle b rest later) :
    Recovers (p >>= f) finish tokens b rest (now ++ later) := by
  obtain ⟨noted, run, misses⟩ := first
  obtain ⟨more, run', misses'⟩ := next
  refine ⟨noted ++ more, ?_, misses.append misses'⟩
  change (p.bind f).run finish tokens = _
  simp only [Parser.bind, run, run']

/-- A parser that goes on from a clean one. -/
theorem Yields.then {p : Parser α} {f : α → Parser β} {a : α} {b : β} {middle : List Token}
    (first : Yields p finish tokens a middle) (next : Recovers (f a) finish middle b rest places) :
    Recovers (p >>= f) finish tokens b rest places := first.recovers.bind next

theorem Recovers.map {p : Parser α} {a : α} (first : Recovers p finish tokens a rest places)
    (g : α → β) : Recovers (p >>= fun a => pure (g a)) finish tokens (g a) rest places := by
  have next : Recovers (p >>= fun a => pure (g a)) finish tokens (g a) rest (places ++ []) :=
    first.bind (Yields.recovers (yields_pure.mpr ⟨rfl, rfl⟩))
  rwa [List.append_nil] at next

/-- A terminator that is not there is noted, and nothing is skipped. -/
theorem recovers_terminator {closing : List Token} (closed : Closing finish rest closing places)
    (after : String) : Recovers (terminator after) finish (closing ++ rest) () rest places := by
  cases closed with
  | kept closed => exact Yields.recovers (yields_terminator.mpr ⟨_, rfl, closed⟩)
  | missed opens =>
    refine Yields.then (yields_ofKind?_none.mpr ⟨rfl, opens.stops.1⟩) ?_
    exact ⟨_, rfl, rfl⟩

theorem Closing.stops {closing : List Token} (closed : Closing finish rest closing places) :
    Stops (fun t => t.kind = .equals) (closing ++ rest) := by
  cases closed with
  | kept closed => simp [closed]
  | missed opens => exact opens.stops.2

/-! Fields, entries and defines with or without their semicolons. -/

/-- The tokens end with a semicolon and have no other, and `p` reads what is in front of it whether
or not it is there. -/
structure Mends (p : Parser α) (tokens : List Token) (a : α) : Prop where
  split : ∃ (body : List Token) (close : Token), tokens = body ++ [close] ∧
    close.kind = .semicolon ∧ Free body ∧
    ∀ {finish : Place} {rest closing : List Token} {places : List Place},
      Closing finish rest closing places →
        Recovers p finish (body ++ (closing ++ rest)) a rest places

theorem Marks.free {marks : List Token} {isOptional isArray : Bool}
    (text : Marks marks isOptional isArray) : Free marks := by
  cases text <;> simp_all [Free]

theorem Assigned.free {read : List Char → Option α} {auto : α → Prop} {number : List Token} {a : α}
    (text : Assigned read auto number a) : Free number := by
  cases text <;> simp_all [Free]

/-- A field is read without its semicolon too. -/
theorem mends_field {index : Nat} {t : Token} (starts : startsField t) {body : List Token}
    {f : Field} (text : FieldText index (t :: body) f) (drafted : f.type ≠ .enum) :
    Mends (field index t) body f := by
  cases text with
  | @mk _ name close marks number type isOptional isArray id typed marked named plain numbered
      closed =>
    obtain ⟨plainType, rfl⟩ := (typeText_iff starts).mpr ⟨typed, drafted⟩
    obtain ⟨-, -, rfl, rfl⟩ := marks_iff.mp marked
    refine ⟨marks ++ name :: number, close, by simp, closed, ?_, ?_⟩
    · have free : Free (name :: number) :=
        List.forall_mem_cons.mpr ⟨by simp [named], Assigned.free numbered⟩
      exact List.forall_mem_append.mpr ⟨Marks.free marked, free⟩
    · intro finish rest closing places ending
      rw [List.append_assoc, List.cons_append]
      refine (yields_checkTypeName.mpr ⟨plainType, rfl⟩).then ?_
      refine Yields.then (a := marks.map Token.kind)
        (yields_modifiers.mpr ⟨marks, rfl, rfl, marked, by simp [isModifier, named]⟩) ?_
      refine (yields_expect.mpr ⟨rfl, named⟩).then ?_
      refine (yields_plainName.mpr ⟨plain, rfl⟩).then ?_
      refine (yields_fieldId.mpr ⟨number, rfl, numbered, fun _ => ending.stops⟩).then ?_
      exact (recovers_terminator ending _).map _

theorem mends_entry {index : Nat} {name : Token} {body : List Token} {e : Entry}
    (text : EntryText index (name :: body) e) : Mends (entry index name) body e := by
  cases text with
  | @mk _ close number value named plain numbered closed =>
    refine ⟨number, close, rfl, closed, Assigned.free numbered, ?_⟩
    intro finish rest closing places ending
    refine (yields_plainName.mpr ⟨plain, rfl⟩).then ?_
    refine (yields_entryValue.mpr ⟨number, rfl, numbered, fun _ => ending.stops⟩).then ?_
    exact (recovers_terminator ending _).map _

theorem recovers_keyed {key equals v : Token} {value : String} {closing : List Token}
    (named : key.kind = .identifier) (set : equals.kind = .equals) (given : DefineValue v value)
    (ending : Closing finish rest closing places) :
    Recovers keyed finish (key :: equals :: v :: (closing ++ rest)) ⟨key.text, value⟩ rest
      places := by
  rw [← defineValue?_eq_some_iff] at given
  refine (yields_expect.mpr ⟨rfl, named⟩).then ?_
  refine (yields_expect.mpr ⟨rfl, set⟩).then ?_
  refine (yields_accept?_some.mpr ⟨rfl, by rw [given]; rfl⟩).then ?_
  have last : (defineValue? v).getD "" = value := by rw [given, Option.getD_some]
  rw [← last]
  exact (recovers_terminator ending _).map _

/-- A define is read without its semicolon too. -/
theorem mends_define {hash : Token} {body : List Token} {d : Define}
    (text : DefineText (hash :: body) d) : Mends define body d := by
  have inner : ∀ {v : Token} {value : String}, DefineValue v value →
      v.kind ≠ .semicolon ∧ v.kind ≠ .finish := by
    intro v value given
    cases given <;> simp_all
  cases text with
  | @plain _ key equals v close value _ named set given closed =>
    refine ⟨[key, equals, v], close, rfl, closed, ?_, ?_⟩
    · simp [Free, named, set, inner given]
    · intro finish rest closing places ending
      have unspelled : ¬ spelledDefine (key :: equals :: v :: (closing ++ rest)) = true := by
        rw [spelledDefine_eq_true_iff]
        rintro ⟨_, _, _, same, -, other⟩
        cases same
        simp [set] at other
      rw [define_eq]
      exact (yields_skipSpelledDefine.mpr (if_neg unspelled)).then
        (recovers_keyed named set given ending)
  | @spelled _ word key equals v close value _ spelling named set given closed =>
    refine ⟨[word, key, equals, v], close, rfl, closed, ?_, ?_⟩
    · simp [Free, spelling, named, set, inner given]
    · intro finish rest closing places ending
      have spelled : spelledDefine (word :: key :: equals :: v :: (closing ++ rest)) = true :=
        spelledDefine_eq_true_iff.mpr ⟨word, key, _, rfl, spelling, named⟩
      rw [define_eq]
      exact (yields_skipSpelledDefine.mpr (if_pos spelled)).then
        (recovers_keyed named set given ending)

/-! Whole lists. -/

/-- What a parser does with a list that lapsed: it reads what the text in front of `after` says,
leaves what is left of `after`, and misses the semicolons of the text. -/
def Outlives (p : Parser α) (finish : Place) (left : List Token) (places : List Place) (a : α)
    (after : List Token) : Prop :=
  ∃ behind now later, Recovers p finish left a behind now ∧ places = now ++ later ∧
    Lapse finish after behind later

theorem Mends.outlives {p : Parser α} {a : α} (mends : Mends p tokens a) {after : List Token}
    (opens : Opens after) (lapse : Lapse finish (tokens ++ after) left places) :
    Outlives p finish left places a after := by
  obtain ⟨body, close, rfl, closed, free, recovers⟩ := mends.split
  rw [List.append_assoc] at lapse
  obtain ⟨_, rfl, fromClose⟩ := lapse.front free
  obtain ⟨closing, behind, now, later, rfl, rfl, ending, rest⟩ := fromClose.closing closed opens
  exact ⟨behind, now, later, recovers ending, rfl, rest⟩

/-- The items of a block end with semicolons of their own, and no item begins like the rest of
another. -/
structure Block.Mends (b : Block α) (item : Nat → List Token → α → Prop) : Prop extends
    b.Reads item where
  opens : ∀ {t : Token}, b.starts t → t.kind ≠ .semicolon ∧ t.kind ≠ .equals
  mends : ∀ {index : Nat} {t : Token} {body : List Token} {a : α}, b.starts t →
    item index (t :: body) a → Parser.Mends (b.item index t) body a

theorem messageBlock_mends :
    messageBlock.Mends fun index tokens f => FieldText index tokens f ∧ f.type ≠ .enum where
  toReads := messageBlock_reads
  opens := by
    intro t starts
    have first : startsField t := starts
    rw [startsField] at first
    cases kind : t.kind <;> simp_all [Token.Kind.primitive?]
  mends := fun starts text => mends_field starts text.1 text.2

theorem enumBlock_mends : enumBlock.Mends EntryText where
  toReads := enumBlock_reads
  opens := by
    intro t starts
    have first : t.kind = .identifier := by simpa [enumBlock, startsEntry] using starts
    simp [first]
  mends := fun _ text => mends_entry text

namespace Block

variable {b : Block α} {item : Nat → List Token → α → Prop}

/-- What follows an item in a block, another item or the closing brace, does not go on with it. -/
theorem Mends.opens_items (mends : b.Mends item) {index : Nat} {inside after : List Token}
    {as : List α} (text : Items item index inside as) {closing : Token}
    (closed : closing.kind = .closeBrace) : Opens (inside ++ closing :: after) := by
  cases text with
  | nil => exact opens_cons.mpr (by simp [closed])
  | cons head _ =>
    obtain ⟨t, body, rfl, starts⟩ := mends.first head
    exact opens_cons.mpr (mends.opens starts)

/-- The items up to a closing brace are read whatever semicolons are missing between them. -/
theorem readFrom_lapse (mends : b.Mends item) {closing : Token}
    (closed : closing.kind = .closeBrace) {after : List Token} {index : Nat} {inside : List Token}
    {as : List α} (text : Items item index inside as)
    (lapse : Lapse finish (inside ++ closing :: after) left places) (definition : String)
    {items : Array α} (size : items.size = index) (noted : Array Issue) :
    ∃ behind now later, ∃ more : List Issue,
      b.readFrom definition finish left items noted = ⟨items ++ as, behind, noted ++ more⟩ ∧
        Misses more now ∧ places = now ++ later ∧ Lapse finish after behind later := by
  induction text generalizing left places items noted with
  | nil =>
    obtain ⟨behind, rfl, rest⟩ := lapse.first (by simp [closed]) (by simp [closed])
    refine ⟨behind, [], places, [], ?_, misses_nil, rfl, rest⟩
    rw [readFrom, if_pos closed]
    simp
  | @cons index front inside a as head tail ih =>
    obtain ⟨t, body, rfl, starts⟩ := mends.first head
    obtain ⟨unclosed, inner⟩ := mends.starts starts
    have goesOn : t.kind ≠ .finish := by
      intro ends
      simp [ends, Token.Kind.startsItem] at inner
    rw [List.append_assoc] at lapse
    obtain ⟨_, rfl, fromBody⟩ := lapse.first (mends.opens starts).1 goesOn
    obtain ⟨_, now, _, ⟨noted', run, misses⟩, rfl, others⟩ :=
      (mends.mends starts head).outlives (mends.opens_items tail closed) fromBody
    -- The parser numbers its items by the array that it has collected so far.
    have pushed : (items.push a).size = index + 1 := by rw [Array.size_push, size]
    obtain ⟨behind, now', later, more, read, misses', rfl, rest⟩ :=
      ih others pushed (noted ++ noted')
    refine ⟨behind, now ++ now', later, noted' ++ more, ?_, misses.append misses',
      (List.append_assoc _ _ _).symm, rest⟩
    rw [← size] at run
    rw [readFrom, if_neg unclosed, inner, if_neg Bool.false_ne_true,
      if_pos starts]
    simp only [run]
    rw [read]
    simp [← Array.toList_inj]

end Block

/-- A definition outlives the loss of semicolons inside it. -/
theorem outlives_definition {b : Block α} {item : Nat → List Token → α → Prop}
    (mends : b.Mends item) {body : List α → Body} {keyword : Token.Kind} {word : Token}
    {text after : List Token} {d : Definition} (braced : Braced keyword item body (word :: text) d)
    (lapse : Lapse finish (text ++ after) left places) :
    Outlives (definition b body) finish left places d after := by
  cases braced with
  | @mk _ name opening closing inside items _ named plain opened contents closed =>
    have free : Free [name, opening] := by simp [Free, named, opened]
    have split : name :: opening :: (inside ++ [closing]) ++ after =
        [name, opening] ++ (inside ++ closing :: after) := by simp
    rw [split] at lapse
    obtain ⟨inner, rfl, fromInside⟩ := lapse.front free
    obtain ⟨behind, now, later, more, read, misses, rfl, rest⟩ :=
      Block.readFrom_lapse mends closed contents fromInside name.text
        (show (#[] : Array α).size = 0 from rfl) #[]
    have block : Recovers (block b name.text) finish inner items behind now := by
      refine ⟨more, ?_, misses⟩
      simp only [Parser.block, read, Array.toList_appendList]
      rfl
    refine ⟨behind, now, later, ?_, rfl, rest⟩
    refine (yields_expect.mpr ⟨rfl, named⟩).then ?_
    refine (yields_plainName.mpr ⟨plain, rfl⟩).then ?_
    refine (yields_expect.mpr ⟨rfl, opened⟩).then ?_
    exact block.map _

/-- A document, too, goes on with something else after each of its items. -/
theorem opens_document {text : List Token} {s : Schema} (derived : DocumentText text s)
    (stops : Stops (fun t => t.kind ≠ .finish) rest) : Opens (text ++ rest) := by
  cases derived with
  | nil =>
    cases rest with
    | nil => exact nofun
    | cons t later => exact opens_cons.mpr (by simp_all)
  | define head _ =>
    obtain ⟨hash, body, rfl, starts⟩ := head.starts
    exact opens_cons.mpr (by simp [starts])
  | definition head _ =>
    cases head with
    | message text =>
      obtain ⟨word, body, rfl, starts⟩ := text.starts
      exact opens_cons.mpr (by simp [starts])
    | enum text =>
      obtain ⟨word, body, rfl, starts⟩ := text.starts
      exact opens_cons.mpr (by simp [starts])

def Draft.addAll (d : Draft) (s : Schema) (more : List Issue) : Draft :=
  ⟨d.defines ++ s.defines, d.definitions ++ s.definitions, d.noted ++ more⟩

/-- A define is read, and the document goes on behind it, whether or not its semicolon is there. -/
theorem documentFrom_define_lapse {front after : List Token} {d : Define}
    (text : DefineText front d) (opens : Opens after)
    (lapse : Lapse finish (front ++ after) left places) (draft : Draft) :
    ∃ behind now later, ∃ noted : List Issue, Misses noted now ∧ places = now ++ later ∧
      Lapse finish after behind later ∧
      documentFrom finish left draft =
        documentFrom finish behind (draft.addDefine ⟨.ok d, behind, noted⟩) := by
  obtain ⟨hash, body, rfl, starts⟩ := text.starts
  obtain ⟨_, rfl, fromBody⟩ := lapse.first (by simp [starts]) (by simp [starts])
  obtain ⟨behind, now, later, ⟨noted, run, misses⟩, rfl, rest⟩ :=
    (mends_define text).outlives opens fromBody
  refine ⟨behind, now, later, noted, misses, rfl, rest, ?_⟩
  rw [documentFrom, if_neg (by simp [starts]), if_pos starts, run]
  rfl

theorem documentFrom_definition_lapse {front after : List Token} {d : Definition}
    (text : DefinitionText front d) (drafted : ∀ f ∈ d.fields, f.type ≠ .enum)
    (lapse : Lapse finish (front ++ after) left places) (draft : Draft) :
    ∃ behind now later, ∃ noted : List Issue, Misses noted now ∧ places = now ++ later ∧
      Lapse finish after behind later ∧
      documentFrom finish left draft =
        documentFrom finish behind (draft.addDefinition ⟨.ok d, behind, noted⟩) := by
  cases text with
  | message text =>
    obtain ⟨word, body, rfl, starts⟩ := text.starts
    obtain ⟨_, rfl, fromBody⟩ := lapse.first (by simp [starts]) (by simp [starts])
    have braced : Braced .message (fun index tokens f => FieldText index tokens f ∧ f.type ≠ .enum)
        .message (word :: body) d := by
      obtain ⟨starts, named, plain, opened, contents, closed⟩ := text
      exact .mk starts named plain opened (items_and_iff.mpr ⟨contents, drafted⟩) closed
    obtain ⟨behind, now, later, ⟨noted, run, misses⟩, rfl, rest⟩ :=
      outlives_definition messageBlock_mends braced fromBody
    refine ⟨behind, now, later, noted, misses, rfl, rest, ?_⟩
    rw [documentFrom, if_neg (by simp [starts]), if_neg (by simp [starts]),
      if_pos starts, messageDefinition, run]
    rfl
  | enum text =>
    obtain ⟨word, body, rfl, starts⟩ := text.starts
    obtain ⟨_, rfl, fromBody⟩ := lapse.first (by simp [starts]) (by simp [starts])
    obtain ⟨behind, now, later, ⟨noted, run, misses⟩, rfl, rest⟩ :=
      outlives_definition enumBlock_mends text fromBody
    refine ⟨behind, now, later, noted, misses, rfl, rest, ?_⟩
    rw [documentFrom, if_neg (by simp [starts]), if_neg (by simp [starts]),
      if_neg (by simp [starts]), if_pos starts, enumDefinition, run]
    rfl

/-- A document is read as if no semicolon were missing, and each one that is missing is noted. -/
theorem documentFrom_lapse {text : List Token} {s : Schema} (derived : DocumentText text s)
    (drafted : ∀ d ∈ s.definitions, ∀ f ∈ d.fields, f.type ≠ .enum)
    (stops : Stops (fun t => t.kind ≠ .finish) rest)
    (lapse : Lapse finish (text ++ rest) left places) (draft : Draft) :
    ∃ more, Misses more places ∧ documentFrom finish left draft = draft.addAll s more := by
  induction derived generalizing left places draft with
  | nil =>
    obtain ⟨rfl, rfl⟩ := lapse.eq_of_ends stops
    refine ⟨[], misses_nil, ?_⟩
    have read : documentFrom finish ([] ++ left) draft = draft.add ⟨[], []⟩ :=
      documentFrom_eq .nil drafted stops draft
    rw [List.nil_append] at read
    rw [read]
    simp [Draft.add, Draft.addAll]
  | define head tail ih =>
    rw [List.append_assoc] at lapse
    obtain ⟨behind, now, later, noted, misses, rfl, others, read⟩ :=
      documentFrom_define_lapse head (opens_document tail stops) lapse draft
    obtain ⟨more, misses', read'⟩ := ih drafted others (draft.addDefine ⟨.ok _, behind, noted⟩)
    refine ⟨noted ++ more, misses.append misses', ?_⟩
    rw [read, read']
    simp [Draft.addAll, Draft.addDefine, ← Array.toList_inj]
  | definition head tail ih =>
    rw [List.forall_mem_cons] at drafted
    rw [List.append_assoc] at lapse
    obtain ⟨behind, now, later, noted, misses, rfl, others, read⟩ :=
      documentFrom_definition_lapse head drafted.1 lapse draft
    obtain ⟨more, misses', read'⟩ :=
      ih drafted.2 others (draft.addDefinition ⟨.ok _, behind, noted⟩)
    refine ⟨noted ++ more, misses.append misses', ?_⟩
    rw [read, read']
    simp [Draft.addAll, Draft.addDefinition, ← Array.toList_inj]

/-- The draft of a text is read without some of its semicolons, and those are what is noted. -/
theorem document_without {s : Schema} {gone : List Nat}
    (derived : DocumentText (tokens.takeWhile fun t => t.kind ≠ .finish) s)
    (drafted : ∀ d ∈ s.definitions, ∀ f ∈ d.fields, f.type ≠ .enum)
    (inside : gone.Sublist (semicolons tokens)) :
    (document (without gone tokens)).1 = s ∧
      Misses (document (without gone tokens)).2
        (gone.map fun i => placeOf (endOf (without gone tokens)) (tokens.drop (i + 1))) := by
  have lapse : Lapse (endOf (without gone tokens))
      (tokens.takeWhile (fun t => t.kind ≠ .finish) ++ tokens.dropWhile fun t => t.kind ≠ .finish)
      (without gone tokens)
      (gone.map fun i => placeOf (endOf (without gone tokens)) (tokens.drop (i + 1))) := by
    rw [List.takeWhile_append_dropWhile]
    exact lapse_withoutFrom inside
  obtain ⟨more, misses, read⟩ :=
    documentFrom_lapse derived drafted (stops_dropWhile _ tokens) lapse Draft.empty
  rw [document, read]
  refine ⟨?_, ?_⟩
  · simp [Draft.schema, Draft.addAll, Draft.empty]
  · simpa [Draft.addAll, Draft.empty] using misses

end WireSchema.Parser

namespace WireSchema

namespace Schema

/-- An accepted text that lacks some of its semicolons is refused for these alone: there is one
issue for each of them, at the token that followed it or, where none did, at the end of the last
token. The draft that is read is the same. -/
theorem ofTokens_without {tokens : List Token} {s : Schema} {gone : List Nat}
    (accepted : ofTokens tokens = .ok s) (inside : gone.Sublist (Parser.semicolons tokens))
    (some : gone ≠ []) :
    ∃ report, ofTokens (Parser.without gone tokens) = .error report ∧
      (report.issues.map fun i => (i.kind, i.place)).Perm
        (gone.map fun i => (.missingTerminator,
          Parser.placeOf (Parser.endOf (Parser.without gone tokens)) (tokens.drop (i + 1)))) ∧
      (Parser.document (Parser.without gone tokens)).1 = (Parser.document tokens).1 := by
  have derived := (derived_of_ofTokens accepted).retype Grammar.retypes_draft
  have read : Parser.document tokens = (s.draft, []) := Parser.document_eq derived s.drafted_draft
  obtain ⟨same, misses⟩ := Parser.document_without derived s.drafted_draft inside
  obtain ⟨-, known, resolved, lawful⟩ := ofTokens_eq_ok_iff_draft.mp accepted
  simp only [read] at known resolved
  generalize reply : Parser.document (Parser.without gone tokens) = lapsed at same misses ⊢
  obtain ⟨draft, noted⟩ := lapsed
  obtain rfl : draft = s.draft := same
  -- Names and types are as in the whole text, so the grammar's issues are all there are.
  have found : s.draft.issuesOf noted = noted := by
    rw [issuesOf, known, resolved, s.issues_eq_nil_iff.mpr lawful, List.append_nil, List.append_nil]
  have faulty : noted.isEmpty = false := by
    cases noted with
    | nil => exact absurd (List.map_eq_nil_iff.mp (List.map_eq_nil_iff.mp misses.symm)) some
    | cons i noted => rfl
  refine ⟨Report.ofIssues noted, ?_, ?_, by rw [read]⟩
  · rw [ofTokens, reply]
    dsimp only
    rw [found, faulty]
    rfl
  · have order : (Report.ofIssues noted).issues.Perm noted := List.mergeSort_perm _ _
    have places := order.map fun i => (i.kind, i.place)
    rwa [show noted.map (fun i => (i.kind, i.place)) = _ from misses, List.map_map] at places

end Schema

/-- The definitions of `forest` and a define behind them, where the text breaks off. -/
def groveTokens : List Token :=
  forestTokens.dropLast ++
    [⟨.hash, "#", 142, ⟨9, 1⟩⟩, ⟨.identifier, "kind", 143, ⟨9, 2⟩⟩, ⟨.equals, "=", 148, ⟨9, 7⟩⟩,
      ⟨.identifier, "oak", 150, ⟨9, 9⟩⟩, ⟨.semicolon, ";", 153, ⟨9, 12⟩⟩]

def grove : Schema where
  defines := [⟨"kind", "oak"⟩]
  definitions := forest.definitions

theorem grove_accepted : Schema.ofTokens groveTokens = .ok grove :=
  Schema.ofTokens_of_draft (by decide +kernel) (by decide +kernel) rfl (by decide) (by cbv)

/-- An entry, two fields in a row and the define lack their semicolons. -/
theorem ofTokens_without_grove :
    Schema.ofTokens groveTokens = .ok grove ∧
      Parser.semicolons groveTokens = [4, 8, 15, 22, 26, 31, 35, 41] ∧
      ∃ report, Schema.ofTokens (Parser.without [4, 22, 26, 41] groveTokens) = .error report ∧
        (report.issues.map fun i => (i.kind, i.place)).Perm
          [(.missingTerminator, ⟨1, 17⟩), (.missingTerminator, ⟨5, 3⟩),
            (.missingTerminator, ⟨6, 3⟩), (.missingTerminator, ⟨9, 12⟩)] ∧
        (Parser.document (Parser.without [4, 22, 26, 41] groveTokens)).1 =
          (Parser.document groveTokens).1 := by
  have inside : [4, 22, 26, 41].Sublist (Parser.semicolons groveTokens) := by decide +kernel
  exact ⟨grove_accepted, by decide +kernel,
    Schema.ofTokens_without grove_accepted inside (List.cons_ne_nil _ _)⟩

end WireSchema
