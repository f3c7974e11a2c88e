import WireSchema.Proofs.Parsing
import WireSchema.Proofs.Rules

/-!
Which token lists are accepted, and as what schema: those before the end of the text have a
derivation in the grammar, every type name in them has a definition, and the schema is lawful.
-/

namespace WireSchema.Parser

open Grammar

variable {α : Type} {finish : Place} {tokens rest : List Token}

theorem appendList_eq_empty_iff {xs : Array α} {ys : List α} :
    xs ++ ys = #[] ↔ xs = #[] ∧ ys = [] := by
  rw [← Array.toList_eq_nil_iff, Array.toList_appendList, List.append_eq_nil_iff,
    Array.toList_eq_nil_iff]

/-- The items of a block are those of a relation on token lists. -/
structure Block.Reads (b : Block α) (item : Nat → List Token → α → Prop) : Prop where
  starts : ∀ {t : Token}, b.starts t → t.kind ≠ .closeBrace ∧ t.kind.startsItem = false
  first : ∀ {index : Nat} {tokens : List Token} {a : α}, item index tokens a →
    ∃ t body, tokens = t :: body ∧ b.starts t
  yields : ∀ {index : Nat} {t : Token}, b.starts t → ∀ {finish tokens a rest},
    Yields (b.item index t) finish tokens a rest ↔
      ∃ body, tokens = body ++ rest ∧ item index (t :: body) a

namespace Block

variable {b : Block α} {item : Nat → List Token → α → Prop} {definition : String}

/-- A block that ends without an issue held items up to a closing brace. -/
theorem exists_of_readFrom (reads : b.Reads item) {items : Array α} {noted : Array Issue}
    (clean : (b.readFrom definition finish tokens items noted).noted = #[]) :
    noted = #[] ∧ ∃ inside closing as,
      tokens = inside ++ closing :: (b.readFrom definition finish tokens items noted).rest ∧
      closing.kind = .closeBrace ∧ Items item items.size inside as ∧
      (b.readFrom definition finish tokens items noted).items = items ++ as := by
  fun_induction b.readFrom definition finish tokens items noted with
  | case1 => simp at clean
  | case2 items noted t rest closed =>
    exact ⟨clean, [], t, [], rfl, closed, .nil, by simp⟩
  | case3 => simp at clean
  | case4 items noted t rest _ _ starts r a read ih =>
    obtain ⟨quiet, inside, closing, as, left, closed, text, all⟩ := ih clean
    have both := appendList_eq_empty_iff.mp quiet
    have run : Yields (b.item items.size t) finish rest a r.rest := by
      change r = ⟨.ok a, r.rest, []⟩
      rw [← read, ← both.2]
    obtain ⟨body, front, head⟩ := (reads.yields starts).mp run
    rw [Array.size_push] at text
    refine ⟨both.1, (t :: body) ++ inside, closing, a :: as, ?_, closed, .cons head text, ?_⟩
    · rw [front]
      nth_rewrite 1 [left]
      simp
    · rw [all]
      simp
  | case5 items noted t rest _ _ _ r issue _ ih =>
    have quiet := (ih clean).1
    simp at quiet
  | case6 items noted t rest _ _ _ after ih =>
    have quiet := (ih clean).1
    simp at quiet

/-- Items up to a closing brace are read without an issue. -/
theorem readFrom_eq (reads : b.Reads item) {closing : Token} (closed : closing.kind = .closeBrace)
    {index : Nat} {inside : List Token} {as : List α} (text : Items item index inside as)
    {items : Array α} (size : items.size = index) :
    b.readFrom definition finish (inside ++ closing :: rest) items #[] =
      ⟨items ++ as, rest, #[]⟩ := by
  induction text generalizing items with
  | nil =>
    rw [List.nil_append, readFrom, if_pos closed]
    simp
  | @cons index front inside a as head _ ih =>
    obtain ⟨t, body, rfl, starts⟩ := reads.first head
    obtain ⟨unclosed, inner⟩ := reads.starts starts
    have run : (b.item items.size t).run finish (body ++ (inside ++ closing :: rest)) =
        ⟨.ok a, inside ++ closing :: rest, []⟩ := by
      rw [size]
      exact (reads.yields starts).mpr ⟨body, rfl, head⟩
    rw [List.append_assoc, List.cons_append, readFrom, if_neg unclosed, inner,
      if_neg Bool.false_ne_true, if_pos starts, run]
    dsimp only
    rw [show (#[] ++ ([] : List Issue) : Array Issue) = #[] from rfl, ih (by rw [Array.size_push, size])]
    simp

/-- A block yields the items that its text spells, up to the brace that closes it. -/
theorem yields (reads : b.Reads item) {as : List α} :
    Yields (block b definition) finish tokens as rest ↔
      ∃ inside closing, tokens = inside ++ closing :: rest ∧ closing.kind = .closeBrace ∧
        Items item 0 inside as := by
  constructor
  · intro run
    simp only [Yields, block, Reply.mk.injEq, Except.ok.injEq, Array.toList_eq_nil_iff] at run
    obtain ⟨all, left, clean⟩ := run
    obtain ⟨-, inside, closing, bs, front, closed, text, all'⟩ := exists_of_readFrom reads clean
    rw [all', Array.toList_appendList] at all
    cases all
    exact ⟨inside, closing, by rw [front, left], closed, text⟩
  · rintro ⟨inside, closing, rfl, closed, text⟩
    simp only [Yields, block]
    rw [readFrom_eq reads closed text rfl, Array.toList_appendList]
    rfl

end Block

/-- A property of each item can be taken out of the text that spells them. -/
theorem items_and_iff {item : Nat → List Token → α → Prop} {P : α → Prop} {index : Nat}
    {as : List α} :
    Items (fun index tokens a => item index tokens a ∧ P a) index tokens as ↔
      Items item index tokens as ∧ ∀ a ∈ as, P a := by
  constructor
  · intro text
    induction text with
    | nil => exact ⟨.nil, nofun⟩
    | cons head _ ih => exact ⟨.cons head.1 ih.1, List.forall_mem_cons.mpr ⟨head.2, ih.2⟩⟩
  · rintro ⟨text, each⟩
    induction text with
    | nil => exact .nil
    | cons head _ ih =>
      rw [List.forall_mem_cons] at each
      exact .cons ⟨head, each.1⟩ (ih each.2)

/-- A draft takes named types for messages. -/
theorem messageBlock_reads :
    messageBlock.Reads fun index tokens f => FieldText index tokens f ∧ f.type ≠ .enum where
  starts := by
    intro t starts
    have first : startsField t := starts
    rw [startsField] at first
    cases kind : t.kind <;> simp_all [Token.Kind.primitive?, Token.Kind.startsItem]
  first := by
    rintro index tokens f ⟨text, -⟩
    cases text with
    | @mk t _ _ _ _ _ _ _ _ typed =>
      refine ⟨t, _, rfl, ?_⟩
      change startsField t = true
      cases typed <;> simp_all [startsField, Token.Kind.primitive?]
  yields := fun starts => yields_field starts

/-- The block of an enum reads the entries of the grammar. -/
theorem enumBlock_reads : enumBlock.Reads EntryText where
  starts := by
    intro t starts
    have first : t.kind = .identifier := by simpa [enumBlock, startsEntry] using starts
    simp [first, Token.Kind.startsItem]
  first := by
    rintro index tokens e text
    cases text with
    | @mk name _ _ _ named =>
      exact ⟨name, _, rfl, by simp [enumBlock, startsEntry, named]⟩
  yields := fun starts => yields_entry starts

/-- A definition yields what its keyword, name and braced items spell. -/
theorem yields_definition {b : Block α} {item : Nat → List Token → α → Prop}
    (reads : b.Reads item) {body : List α → Body} (word : Token) {d : Definition} :
    Yields (definition b body) finish tokens d rest ↔
      ∃ text, tokens = text ++ rest ∧ Braced word.kind item body (word :: text) d := by
  rw [definition, yields_bind]
  constructor
  · rintro ⟨name, _, expected, afterName⟩
    obtain ⟨rfl, named⟩ := yields_expect.mp expected
    obtain ⟨_, _, checked, afterCheck⟩ := yields_bind.mp afterName
    obtain ⟨plain, rfl⟩ := yields_plainName.mp checked
    obtain ⟨opening, _, expected', afterBrace⟩ := yields_bind.mp afterCheck
    obtain ⟨rfl, opened⟩ := yields_expect.mp expected'
    obtain ⟨items, _, blockRead, afterBlock⟩ := yields_bind.mp afterBrace
    obtain ⟨inside, closing, rfl, closed, contents⟩ := (Block.yields reads).mp blockRead
    obtain ⟨rfl, rfl⟩ := yields_pure.mp afterBlock
    exact ⟨name :: opening :: (inside ++ [closing]), by simp,
      .mk rfl named plain opened contents closed⟩
  · rintro ⟨_, rfl, text⟩
    cases text with
    | @mk _ name opening closing inside items _ named plain opened contents closed =>
      simp only [List.cons_append, List.append_assoc, List.nil_append]
      refine ⟨name, _, yields_expect.mpr ⟨rfl, named⟩, ?_⟩
      refine yields_bind.mpr ⟨(), _, yields_plainName.mpr ⟨plain, rfl⟩, ?_⟩
      refine yields_bind.mpr ⟨opening, _, yields_expect.mpr ⟨rfl, opened⟩, ?_⟩
      refine yields_bind.mpr ⟨items, rest, ?_, yields_pure.mpr ⟨rfl, rfl⟩⟩
      exact (Block.yields reads).mpr ⟨inside, closing, rfl, closed, contents⟩

/-- What the reader takes for a message is a message of the grammar whose named types are all still
taken for messages. -/
theorem yields_messageDefinition {word : Token} (starts : word.kind = .message) {d : Definition} :
    Yields messageDefinition finish tokens d rest ↔
      ∃ text, tokens = text ++ rest ∧ Braced .message FieldText .message (word :: text) d ∧
        ∀ f ∈ d.fields, f.type ≠ .enum := by
  rw [messageDefinition, yields_definition messageBlock_reads word, starts]
  refine exists_congr fun text => and_congr_right fun _ => ?_
  constructor
  · rintro ⟨starts, named, plain, opened, contents, closed⟩
    obtain ⟨contents, drafted⟩ := items_and_iff.mp contents
    exact ⟨.mk starts named plain opened contents closed, drafted⟩
  · rintro ⟨⟨starts, named, plain, opened, contents, closed⟩, drafted⟩
    exact .mk starts named plain opened (items_and_iff.mpr ⟨contents, drafted⟩) closed

/-- What the reader takes for an enum is an enum of the grammar. -/
theorem yields_enumDefinition {word : Token} (starts : word.kind = .enum) {d : Definition} :
    Yields enumDefinition finish tokens d rest ↔
      ∃ text, tokens = text ++ rest ∧ Braced .enum EntryText .enum (word :: text) d := by
  rw [enumDefinition, yields_definition enumBlock_reads word, starts]

namespace Draft

/-- A draft without issues was without them before its last define, and the define was read. -/
theorem clean_of_addDefine {d : Draft} {r : Reply Define} (clean : (d.addDefine r).noted = #[]) :
    d.noted = #[] ∧ ∃ a, r = ⟨.ok a, r.rest, []⟩ := by
  obtain ⟨result, rest, noted⟩ := r
  cases result with
  | error issue => simp [addDefine] at clean
  | ok a =>
    obtain ⟨quiet, rfl⟩ := appendList_eq_empty_iff.mp clean
    exact ⟨quiet, a, rfl⟩

theorem clean_of_addDefinition {d : Draft} {r : Reply Definition}
    (clean : (d.addDefinition r).noted = #[]) : d.noted = #[] ∧ ∃ a, r = ⟨.ok a, r.rest, []⟩ := by
  obtain ⟨result, rest, noted⟩ := r
  cases result with
  | error issue => simp [addDefinition] at clean
  | ok a =>
    obtain ⟨quiet, rfl⟩ := appendList_eq_empty_iff.mp clean
    exact ⟨quiet, a, rfl⟩

def add (d : Draft) (s : Schema) : Draft :=
  ⟨d.defines ++ s.defines, d.definitions ++ s.definitions, d.noted⟩

/-- Adding a define and then a schema is adding the schema with the define in front. -/
theorem add_addDefine (d : Draft) (a : Define) (rest : List Token) (s : Schema) :
    (d.addDefine ⟨.ok a, rest, []⟩).add s = d.add ⟨a :: s.defines, s.definitions⟩ := by
  simp [addDefine, add]

theorem add_addDefinition (d : Draft) (a : Definition) (rest : List Token) (s : Schema) :
    (d.addDefinition ⟨.ok a, rest, []⟩).add s = d.add ⟨s.defines, a :: s.definitions⟩ := by
  simp [addDefinition, add]

end Draft

theorem resume_ok (a : α) (rest : List Token) : resume ⟨.ok a, rest, []⟩ = rest := rfl

/-- A document that is read without an issue has a derivation up to the end of the text. -/
theorem exists_of_documentFrom {draft : Draft}
    (clean : (documentFrom finish tokens draft).noted = #[]) :
    draft.noted = #[] ∧ ∃ text rest s, tokens = text ++ rest ∧
      Stops (fun t => t.kind ≠ .finish) rest ∧ DocumentText text s ∧
      documentFrom finish tokens draft = draft.add s := by
  fun_induction documentFrom finish tokens draft with
  | case1 draft =>
    exact ⟨clean, [], [], ⟨[], []⟩, rfl, stops_nil _, .nil, by simp [Draft.add]⟩
  | case2 draft t rest ends =>
    exact ⟨clean, [], t :: rest, ⟨[], []⟩, rfl, by simp [ends], .nil, by simp [Draft.add]⟩
  | case3 draft t rest _ starts r ih =>
    obtain ⟨clean', text, after, s, left, stops, derived, read⟩ := ih clean
    obtain ⟨quiet, d, run⟩ := Draft.clean_of_addDefine clean'
    obtain ⟨body, front, head⟩ := (yields_define starts).mp run
    rw [run, resume_ok] at left read ⊢
    refine ⟨quiet, (t :: body) ++ text, after, _, ?_, stops, .define head derived, ?_⟩
    · rw [front, left, List.append_assoc, List.cons_append]
    · rw [read, Draft.add_addDefine]
  | case4 draft t rest _ _ starts r ih =>
    obtain ⟨clean', text, after, s, left, stops, derived, read⟩ := ih clean
    obtain ⟨quiet, d, run⟩ := Draft.clean_of_addDefinition clean'
    obtain ⟨body, front, head, -⟩ := (yields_messageDefinition starts).mp run
    rw [run, resume_ok] at left read ⊢
    refine ⟨quiet, (t :: body) ++ text, after, _, ?_, stops, .definition (.message head) derived, ?_⟩
    · rw [front, left, List.append_assoc, List.cons_append]
    · rw [read, Draft.add_addDefinition]
  | case5 draft t rest _ _ _ starts r ih =>
    obtain ⟨clean', text, after, s, left, stops, derived, read⟩ := ih clean
    obtain ⟨quiet, d, run⟩ := Draft.clean_of_addDefinition clean'
    obtain ⟨body, front, head⟩ := (yields_enumDefinition starts).mp run
    rw [run, resume_ok] at left read ⊢
    refine ⟨quiet, (t :: body) ++ text, after, _, ?_, stops, .definition (.enum head) derived, ?_⟩
    · rw [front, left, List.append_assoc, List.cons_append]
    · rw [read, Draft.add_addDefinition]
  | case6 draft t rest _ _ _ _ ih =>
    have quiet := (ih clean).1
    simp [Draft.addIssue] at quiet

/-- A document goes on after a define. -/
theorem documentFrom_define {front : List Token} {d : Define} (text : DefineText front d)
    (draft : Draft) :
    documentFrom finish (front ++ rest) draft =
      documentFrom finish rest (draft.addDefine ⟨.ok d, rest, []⟩) := by
  obtain ⟨hash, body, rfl, starts⟩ := text.starts
  have run : define.run finish (body ++ rest) = ⟨.ok d, rest, []⟩ :=
    (yields_define starts).mpr ⟨body, rfl, text⟩
  rw [List.cons_append, documentFrom, if_neg (by simp [starts]), if_pos starts, run]
  dsimp only
  rw [resume_ok]

/-- A document goes on after a definition. -/
theorem documentFrom_definition {front : List Token} {d : Definition}
    (text : DefinitionText front d) (drafted : ∀ f ∈ d.fields, f.type ≠ .enum) (draft : Draft) :
    documentFrom finish (front ++ rest) draft =
      documentFrom finish rest (draft.addDefinition ⟨.ok d, rest, []⟩) := by
  cases text with
  | message text =>
    obtain ⟨word, body, rfl, starts⟩ := text.starts
    have run : messageDefinition.run finish (body ++ rest) = ⟨.ok d, rest, []⟩ :=
      (yields_messageDefinition starts).mpr ⟨body, rfl, text, drafted⟩
    rw [List.cons_append, documentFrom, if_neg (by simp [starts]), if_neg (by simp [starts]),
      if_pos starts, run]
    dsimp only
    rw [resume_ok]
  | enum text =>
    obtain ⟨word, body, rfl, starts⟩ := text.starts
    have run : enumDefinition.run finish (body ++ rest) = ⟨.ok d, rest, []⟩ :=
      (yields_enumDefinition starts).mpr ⟨body, rfl, text⟩
    rw [List.cons_append, documentFrom, if_neg (by simp [starts]), if_neg (by simp [starts]),
      if_neg (by simp [starts]), if_pos starts, run]
    dsimp only
    rw [resume_ok]

/-- A derivation of a draft is read without an issue. -/
theorem documentFrom_eq {text : List Token} {s : Schema} (derived : DocumentText text s)
    (drafted : ∀ d ∈ s.definitions, ∀ f ∈ d.fields, f.type ≠ .enum)
    (stops : Stops (fun t => t.kind ≠ .finish) rest) (draft : Draft) :
    documentFrom finish (text ++ rest) draft = draft.add s := by
  induction derived generalizing draft with
  | nil =>
    have added : draft.add ⟨[], []⟩ = draft := by simp [Draft.add]
    rw [added]
    cases rest with
    | nil => rw [List.nil_append, documentFrom]
    | cons t later =>
      have ends : t.kind = .finish := by simpa using stops
      rw [List.nil_append, documentFrom, if_pos ends]
  | define head _ ih =>
    rw [List.append_assoc, documentFrom_define head, ih drafted, Draft.add_addDefine]
  | definition head _ ih =>
    rw [List.forall_mem_cons] at drafted
    rw [List.append_assoc, documentFrom_definition head drafted.1, ih drafted.2,
      Draft.add_addDefinition]

/-- The draft of a document without an issue of grammar. -/
theorem exists_of_document (clean : (document tokens).2 = []) :
    DocumentText (tokens.takeWhile fun t => t.kind ≠ .finish) (document tokens).1 := by
  rw [document, Array.toList_eq_nil_iff] at clean
  obtain ⟨-, text, rest, s, front, stops, derived, read⟩ := exists_of_documentFrom clean
  have same : (document tokens).1 = s := by
    rw [document, read]
    simp [Draft.schema, Draft.add, Draft.empty]
  have before : ∀ t ∈ text, decide (t.kind ≠ .finish) = true :=
    fun t member => decide_eq_true (derived.unfinished t member)
  rw [same, front, (takeWhile_append_of_stops before stops).1]
  exact derived

/-- What the grammar derives is read as it is, without an issue. -/
theorem document_eq {s : Schema}
    (derived : DocumentText (tokens.takeWhile fun t => t.kind ≠ .finish) s)
    (drafted : ∀ d ∈ s.definitions, ∀ f ∈ d.fields, f.type ≠ .enum) :
    document tokens = (s, []) := by
  have read : documentFrom (endOf tokens) _ Draft.empty = Draft.empty.add s :=
    documentFrom_eq derived drafted (stops_dropWhile _ tokens) Draft.empty
  rw [List.takeWhile_append_dropWhile] at read
  rw [document, read]
  simp [Draft.schema, Draft.add, Draft.empty]

end WireSchema.Parser

namespace WireSchema.Schema

open Grammar

/-- A draft takes no field for an enum. -/
theorem drafted_draft (s : Schema) : ∀ d ∈ s.draft.definitions, ∀ f ∈ d.fields, f.type ≠ .enum := by
  intro d' memberD f' memberF
  obtain ⟨d, -, rfl⟩ := List.mem_map.mp memberD
  rw [Definition.fields_mapFields] at memberF
  obtain ⟨f, -, rfl⟩ := List.mem_map.mp memberF
  rw [Field.draft]
  split
  next => simp
  next builtIn =>
    intro isEnum
    rw [isEnum] at builtIn
    exact builtIn rfl

/-- What is derived, bound and lawful is accepted. -/
theorem ofTokens_of_derived {tokens : List Token} {s : Schema}
    (derived : DocumentText (tokens.takeWhile fun t => t.kind ≠ .finish) s) (bound : s.Bound)
    (lawful : s.Lawful) : ofTokens tokens = .ok s := by
  have read := Parser.document_eq (derived.retype retypes_draft) s.drafted_draft
  rw [ofTokens_eq_ok_iff_draft]
  have same : (Parser.document tokens).1 = s.draft := by rw [read]; rfl
  rw [same]
  exact ⟨by rw [read], unresolvedIssues_draft bound, resolve_draft bound, lawful⟩

/-- An accepted schema is derived in the grammar by the tokens before the end of the text. -/
theorem derived_of_ofTokens {tokens : List Token} {s : Schema} (accepted : ofTokens tokens = .ok s) :
    DocumentText (tokens.takeWhile fun t => t.kind ≠ .finish) s := by
  obtain ⟨grammar, -, rfl, -⟩ := ofTokens_eq_ok_iff_draft.mp accepted
  exact (Parser.exists_of_document grammar).retype (retypes_resolve _)

/-- A text is accepted as a schema when its tokens are. -/
theorem parse_eq_ok_iff {text : String} {s : Schema} :
    parse text = .ok s ↔
      ∃ tokens, Token.lex text = .ok tokens ∧ ofTokens (Token.significant tokens) = .ok s := by
  rw [parse, Token.tokenize]
  cases Token.lex text with
  | error e => simp [Except.map]
  | ok tokens =>
    simp only [Except.map, Except.ok.injEq, exists_eq_left']
    cases ofTokens (Token.significant tokens) <;> simp

/-- Tokens are accepted as a schema exactly when those before the end of the text derive it in the
grammar, every named type of a field is what its definition says, and the rules hold. -/
theorem ofTokens_eq_ok_iff (tokens : List Token) (s : Schema) :
    ofTokens tokens = .ok s ↔
      DocumentText (tokens.takeWhile fun t => t.kind ≠ .finish) s ∧ s.Bound ∧ s.Lawful := by
  constructor
  · intro accepted
    exact ⟨derived_of_ofTokens accepted, bound_of_ofTokens accepted, lawful_of_ofTokens accepted⟩
  · rintro ⟨derived, bound, lawful⟩
    exact ofTokens_of_derived derived bound lawful

end WireSchema.Schema
