import WireSchema.Proofs.Acceptance
import WireSchema.Proofs.Pieces

/-!
Faults stay within their item. Wherever a token list is cut before a define or a definition, the two
parts are read as they would be alone: the front may end in the middle of anything, and what follows
is neither taken into it nor lost. Only the places and wordings of issues at the cut can tell that
something follows.
-/

namespace WireSchema.Parser

open Text Grammar

variable {α β : Type} {front rest : List Token}

/-- Nothing is left, or a define or a definition comes next. -/
def Fenced (tokens : List Token) : Prop :=
  ∀ t ∈ tokens.head?, t.kind = .hash ∨ t.kind = .message ∨ t.kind = .enum

theorem fenced_nil : Fenced [] := nofun

theorem Fenced.startsItem {t : Token} (fenced : Fenced (t :: rest)) : t.kind.startsItem = true := by
  rcases fenced t rfl with kind | kind | kind <;> rw [kind] <;> rfl

/-- A test that no start of an item passes fails at the cut. -/
theorem Fenced.ends {test : Token → Bool} (fenced : Fenced rest)
    (blind : ∀ t : Token, t.kind.startsItem → test t = false) : Ends test rest := by
  intro t first
  obtain ⟨later, rfl⟩ := List.head?_eq_some_iff.mp first
  exact blind t fenced.startsItem

/-- Skipping an item stops at the fence. -/
theorem skipItem_append (fenced : Fenced rest) (front : List Token) :
    skipItem (front ++ rest) = skipItem front ++ rest :=
  dropWhile_append_ends (fenced.ends fun t starts => by simp [starts]) front

/-- Skipping a part of a body stops there too. -/
theorem skipEntry_append (fenced : Fenced rest) (front : List Token) :
    skipEntry (front ++ rest) = skipEntry front ++ rest := by
  induction front with
  | nil =>
    cases rest with
    | nil => rfl
    | cons t later =>
      have starts := fenced.startsItem
      have other : t.kind ≠ .semicolon := by
        intro kind
        rw [kind] at starts
        cases starts
      simp [skipEntry, other, starts]
  | cons t front ih =>
    rw [List.cons_append, skipEntry, skipEntry, ih]
    split
    · rfl
    · split <;> rfl

/-! One parser on the front alone and with the rest behind it. -/

/-- What is read with `rest` behind it, compared with what is read alone: the same value or an issue
of the same kind, the same tokens left in front of `rest`, and issues of the same kinds noted. -/
structure Agrees (rest : List Token) (r alone : Reply α) : Prop where
  result : r.result.mapError Issue.kind = alone.result.mapError Issue.kind
  left : r.rest = alone.rest ++ rest
  noted : r.noted.map Issue.kind = alone.noted.map Issue.kind

/-- Replies that agree both succeed or both fail, with an issue of one kind. -/
theorem Agrees.ok_or_error {r alone : Reply α} (agree : Agrees rest r alone) :
    (∃ a, r.result = .ok a ∧ alone.result = .ok a) ∨
      ∃ issue issue', r.result = .error issue ∧ alone.result = .error issue' ∧
        issue.kind = issue'.kind := by
  have same := agree.result
  cases read : r.result with
  | ok a =>
    cases read' : alone.result with
    | ok a' =>
      rw [read, read'] at same
      cases same
      exact Or.inl ⟨a, rfl, rfl⟩
    | error issue' =>
      rw [read, read'] at same
      cases same
  | error issue =>
    cases read' : alone.result with
    | ok a' =>
      rw [read, read'] at same
      cases same
    | error issue' =>
      rw [read, read'] at same
      exact Or.inr ⟨issue, issue', rfl, rfl, Except.error.inj same⟩

/-- The parser never takes anything from behind a cut. -/
def Local (p : Parser α) : Prop :=
  ∀ ⦃rest : List Token⦄, Fenced rest → ∀ (finish finish' : Place) (front : List Token),
    Agrees rest (p.run finish (front ++ rest)) (p.run finish' front)

theorem local_pure (a : α) : Local (pure a : Parser α) :=
  fun _ _ _ _ _ => ⟨rfl, rfl, rfl⟩

/-- Local parsers one after the other are local. -/
theorem Local.bind {p : Parser α} {f : α → Parser β} (first : Local p) (next : ∀ a, Local (f a)) :
    Local (p >>= f) := by
  intro rest fenced finish finish' front
  change Agrees rest ((p.bind f).run finish (front ++ rest)) ((p.bind f).run finish' front)
  have agree := first fenced finish finish' front
  rcases agree.ok_or_error with ⟨a, read, read'⟩ | ⟨issue, issue', read, read', kind⟩
  · have later := next a fenced finish finish' (p.run finish' front).rest
    simp only [Parser.bind, read, read', agree.left]
    refine ⟨later.result, later.left, ?_⟩
    rw [List.map_append, List.map_append, agree.noted, later.noted]
  · simp only [Parser.bind, read, read']
    exact ⟨congrArg Except.error kind, agree.left, agree.noted⟩

/-- An issue whose kind does not hang on the token that was found. -/
theorem local_fail {cause : Found → Cause}
    (steady : ∀ found found', (cause found).kind = (cause found').kind) :
    Local (fail cause : Parser α) :=
  fun _ _ _ _ _ => ⟨congrArg Except.error (steady _ _), rfl, rfl⟩

/-- An issue may be noted as long as its kind does not depend on what was found. -/
theorem local_note {cause : Found → Cause}
    (steady : ∀ found found', (cause found).kind = (cause found').kind) : Local (note cause) :=
  fun _ _ _ _ _ => ⟨rfl, rfl, congrArg (fun kind => [kind]) (steady _ _)⟩

theorem local_noteAt (place : Place) (cause : Cause) : Local (noteAt place cause) :=
  fun _ _ _ _ _ => ⟨rfl, rfl, rfl⟩

/-- A test is local if it takes no token that starts an item. -/
theorem local_accept? {test : Token → Bool}
    (blind : ∀ t : Token, t.kind.startsItem → test t = false) : Local (accept? test) := by
  intro rest fenced finish finish' front
  cases front with
  | nil =>
    cases rest with
    | nil => exact ⟨rfl, rfl, rfl⟩
    | cons t later => simpa [accept?, blind t fenced.startsItem] using ⟨rfl, rfl, rfl⟩
  | cons t front =>
    rw [List.cons_append]
    by_cases passed : test t
    · simpa [accept?, passed] using ⟨rfl, rfl, rfl⟩
    · simpa [accept?, passed] using ⟨rfl, rfl, rfl⟩

theorem local_ofKind? {kind : Token.Kind} (inner : kind.startsItem = false) :
    Local (ofKind? kind) := by
  apply local_accept?
  intro t starts
  rw [decide_eq_false_iff_not]
  rintro rfl
  rw [inner] at starts
  cases starts

theorem local_expect {kind : Token.Kind} (inner : kind.startsItem = false) (what : String) :
    Local (expect kind what) := by
  apply (local_ofKind? inner).bind
  intro found
  cases found with
  | none => exact local_fail fun _ _ => rfl
  | some t => exact local_pure t

theorem local_terminator (after : String) : Local (terminator after) := by
  apply (local_ofKind? rfl).bind
  intro found
  cases found with
  | none => exact local_note fun _ _ => rfl
  | some t => exact local_pure ()

theorem local_plainName (t : Token) (what : String) : Local (plainName t what) := by
  rw [plainName]
  split
  · exact local_noteAt _ _
  · exact local_pure ()

theorem local_checkTypeName (t : Token) : Local (checkTypeName t) := by
  rw [checkTypeName]
  split
  · exact local_plainName t _
  · exact local_pure ()

/-- The look at two tokens for the word `define` does not reach over the cut. -/
theorem spelledDefine_append (fenced : Fenced rest) (front : List Token) :
    spelledDefine (front ++ rest) = spelledDefine front := by
  have inner : ∀ t later, rest = t :: later → t.kind ≠ .identifier := by
    rintro t later rfl kind
    have starts := fenced.startsItem
    rw [kind] at starts
    cases starts
  rcases front with _ | ⟨t, _ | ⟨u, front⟩⟩
  · rcases rest with _ | ⟨t, _ | ⟨u, later⟩⟩
    · rfl
    · rfl
    · simp [spelledDefine, inner t _ rfl]
  · rcases rest with _ | ⟨u, later⟩
    · rfl
    · simp [spelledDefine, inner u _ rfl]
  · rfl

theorem local_skipSpelledDefine : Local skipSpelledDefine := by
  intro rest fenced finish finish' front
  refine ⟨rfl, ?_, rfl⟩
  simp only [skipSpelledDefine, spelledDefine_append fenced front]
  split
  next spelled =>
    obtain ⟨word, key, later, rfl, -⟩ := spelledDefine_eq_true_iff.mp spelled
    rfl
  next => rfl

theorem local_keyed : Local keyed := by
  apply (local_expect rfl _).bind
  intro key
  apply (local_expect rfl _).bind
  intro _
  refine (local_accept? ?_).bind fun found => ?_
  · intro t starts
    cases kind : t.kind <;> simp_all [defineValue?, Token.Kind.startsItem]
  · cases found with
    | none => exact local_fail fun _ _ => rfl
    | some t => exact (local_terminator _).bind fun _ => local_pure _

theorem local_define : Local define := by
  rw [define_eq]
  exact local_skipSpelledDefine.bind fun _ => local_keyed

theorem local_modifiers : Local modifiers := by
  intro rest fenced finish finish' front
  have ends : Ends isModifier rest := by
    apply fenced.ends
    intro t starts
    cases kind : t.kind <;> simp_all [isModifier, Token.Kind.startsItem]
  simp only [modifiers, takeWhile_append_ends ends, dropWhile_append_ends ends]
  exact ⟨rfl, rfl, rfl⟩

/-- A number is read within its item. -/
theorem local_assigned (what : String) (read : List Char → Option α) (auto : α)
    (cause : Token → Cause) (fallback : α) : Local (assigned what read auto cause fallback) := by
  apply (local_ofKind? rfl).bind
  intro found
  cases found with
  | none => exact local_pure auto
  | some _ =>
    apply (local_expect rfl what).bind
    intro number
    cases read number.text.toList with
    | some a => exact local_pure a
    | none => exact (local_noteAt _ _).bind fun _ => local_pure fallback

theorem local_field (index : Nat) (type : Token) : Local (field index type) := by
  apply (local_checkTypeName type).bind
  intro _
  apply local_modifiers.bind
  intro marks
  apply (local_expect rfl _).bind
  intro name
  apply (local_plainName name _).bind
  intro _
  refine Local.bind ?_ fun id => ?_
  · rw [fieldId_eq]
    exact local_assigned _ _ _ _ _
  · exact (local_terminator _).bind fun _ => local_pure _

theorem local_entry (index : Nat) (name : Token) : Local (entry index name) := by
  apply (local_plainName name _).bind
  intro _
  refine Local.bind ?_ fun value => ?_
  · rw [entryValue_eq]
    exact local_assigned _ _ _ _ _
  · exact (local_terminator _).bind fun _ => local_pure _

/-! Blocks. -/

theorem toList_push_kinds {noted : Array Issue} {i : Issue} :
    (noted.push i).toList.map Issue.kind = noted.toList.map Issue.kind ++ [i.kind] := by
  simp

theorem toList_append_kinds {noted : Array Issue} {more : List Issue} :
    (noted ++ more).toList.map Issue.kind = noted.toList.map Issue.kind ++ more.map Issue.kind := by
  simp

/-- A block that is open at the cut ends there with one issue, as it does at the end of the text. -/
theorem Block.readFrom_append {b : Block α} (each : ∀ index t, Local (b.item index t))
    (fenced : Fenced rest) (definition : String) (finish finish' : Place) (front : List Token)
    (items : Array α) (noted noted' : Array Issue)
    (kinds : noted.toList.map Issue.kind = noted'.toList.map Issue.kind) :
    let c := b.readFrom definition finish (front ++ rest) items noted
    let alone := b.readFrom definition finish' front items noted'
    c.items = alone.items ∧ c.rest = alone.rest ++ rest ∧
      c.noted.toList.map Issue.kind = alone.noted.toList.map Issue.kind := by
  fun_induction b.readFrom definition finish' front items noted' generalizing noted with
  | case1 items noted' =>
    -- Open at the cut: alone it meets the end, and otherwise the word of the next definition.
    cases rest with
    | nil =>
      rw [List.nil_append, readFrom]
      exact ⟨rfl, rfl, by rw [toList_push_kinds, toList_push_kinds, kinds]; rfl⟩
    | cons t later =>
      have starts := fenced.startsItem
      have unclosed : t.kind ≠ .closeBrace := by
        intro kind
        rw [kind] at starts
        cases starts
      rw [List.nil_append, readFrom, if_neg unclosed, if_pos starts]
      exact ⟨rfl, rfl, by rw [toList_push_kinds, toList_push_kinds, kinds]; rfl⟩
  | case2 items noted' t front closed =>
    rw [List.cons_append, readFrom, if_pos closed]
    exact ⟨rfl, rfl, kinds⟩
  | case3 items noted' t front unclosed starts =>
    rw [List.cons_append, readFrom, if_neg unclosed, if_pos starts]
    exact ⟨rfl, rfl, by rw [toList_push_kinds, toList_push_kinds, kinds]; rfl⟩
  | case4 items noted' t front unclosed inner starts r a read ih =>
    have agree := each items.size t fenced finish finish' front
    rcases agree.ok_or_error with ⟨a', same, read'⟩ | ⟨_, _, _, read', _⟩
    · cases read.symm.trans read'
      rw [List.cons_append, readFrom, if_neg unclosed, if_neg inner, if_pos starts]
      simp only [same, agree.left]
      exact ih _ (by rw [toList_append_kinds, toList_append_kinds, kinds, agree.noted])
    · cases read.symm.trans read'
  | case5 items noted' t front unclosed inner starts r issue read ih =>
    have agree := each items.size t fenced finish finish' front
    rcases agree.ok_or_error with ⟨_, _, read'⟩ | ⟨issue', _, same, read', kind⟩
    · cases read.symm.trans read'
    · cases read.symm.trans read'
      rw [List.cons_append, readFrom, if_neg unclosed, if_neg inner, if_pos starts]
      simp only [same, agree.left, skipEntry_append fenced]
      apply ih
      rw [toList_push_kinds, toList_push_kinds, toList_append_kinds, toList_append_kinds, kinds,
        agree.noted, kind]
  | case6 items noted' t front unclosed inner other after ih =>
    rw [List.cons_append, readFrom, if_neg unclosed, if_neg inner, if_neg other]
    have left : (if t.kind = .semicolon then front ++ rest else skipEntry (front ++ rest)) =
        after ++ rest := by
      dsimp only [after]
      split
      · rfl
      · exact skipEntry_append fenced front
    dsimp only
    rw [left]
    apply ih
    rw [toList_push_kinds, toList_push_kinds, kinds]

/-- A block is read within its item if each of its parts is. -/
theorem local_block {b : Block α} (each : ∀ index t, Local (b.item index t))
    (definition : String) : Local (block b definition) := by
  intro rest fenced finish finish' front
  obtain ⟨items, left, kinds⟩ :=
    b.readFrom_append each fenced definition finish finish' front #[] #[] #[] rfl
  exact ⟨congrArg (fun items => Except.ok (Array.toList items)) items, left, kinds⟩

theorem local_definition {b : Block α} (each : ∀ index t, Local (b.item index t))
    (body : List α → Body) : Local (definition b body) := by
  apply (local_expect rfl _).bind
  intro name
  apply (local_plainName name _).bind
  intro _
  apply (local_expect rfl _).bind
  intro _
  exact (local_block each _).bind fun _ => local_pure _

theorem local_messageDefinition : Local messageDefinition := local_definition local_field _

theorem local_enumDefinition : Local enumDefinition := local_definition local_entry _

/-! Documents, one item after the other. -/

/-- What a draft holds apart from the places and wordings of its issues. -/
structure Outline where
  defines : List Define
  definitions : List Definition
  kinds : List IssueKind

namespace Outline

def empty : Outline := ⟨[], [], []⟩

def append (o o' : Outline) : Outline :=
  ⟨o.defines ++ o'.defines, o.definitions ++ o'.definitions, o.kinds ++ o'.kinds⟩

/-- An empty outline adds nothing. -/
theorem append_empty (o : Outline) : o.append empty = o := by
  simp [append, empty]

theorem append_assoc (o o' o'' : Outline) :
    (o.append o').append o'' = o.append (o'.append o'') := by
  simp [append]

end Outline

def Draft.outline (d : Draft) : Outline :=
  ⟨d.defines.toList, d.definitions.toList, d.noted.toList.map Issue.kind⟩

/-- The tokens that an item leaves to the document, and what it adds. -/
def turn (finish : Place) (t : Token) (tokens : List Token) : List Token × Draft :=
  if t.kind = .hash then
    let r := define.run finish tokens
    (resume r, Draft.empty.addDefine r)
  else if t.kind = .message then
    let r := messageDefinition.run finish tokens
    (resume r, Draft.empty.addDefinition r)
  else if t.kind = .enum then
    let r := enumDefinition.run finish tokens
    (resume r, Draft.empty.addDefinition r)
  else (skipItem tokens, Draft.empty.addIssue ((Cause.unexpected (some t.text)).issueAt t.place))

namespace Draft

def plus (d e : Draft) : Draft :=
  ⟨d.defines ++ e.defines, d.definitions ++ e.definitions, d.noted ++ e.noted⟩

/-- The outline of two drafts is that of the one and then the other. -/
theorem outline_plus (d e : Draft) : (d.plus e).outline = d.outline.append e.outline := by
  simp [plus, outline, Outline.append]

theorem plus_addDefine (d : Draft) (r : Reply Define) :
    d.plus (empty.addDefine r) = d.addDefine r := by
  obtain ⟨result, rest, noted⟩ := r
  cases result <;> simp [addDefine, plus, empty, ← Array.toList_inj]

theorem plus_addDefinition (d : Draft) (r : Reply Definition) :
    d.plus (empty.addDefinition r) = d.addDefinition r := by
  obtain ⟨result, rest, noted⟩ := r
  cases result <;> simp [addDefinition, plus, empty, ← Array.toList_inj]

theorem plus_addIssue (d : Draft) (issue : Issue) :
    d.plus (empty.addIssue issue) = d.addIssue issue := by
  simp [addIssue, plus, empty]

end Draft

/-- A document is read item by item. -/
theorem documentFrom_cons {t : Token} (unfinished : t.kind ≠ .finish) (finish : Place)
    (tokens : List Token) (draft : Draft) :
    documentFrom finish (t :: tokens) draft =
      documentFrom finish (turn finish t tokens).1 (draft.plus (turn finish t tokens).2) := by
  rw [documentFrom, if_neg unfinished, turn]
  split
  · rw [Draft.plus_addDefine]
  · split
    · rw [Draft.plus_addDefinition]
    · split
      · rw [Draft.plus_addDefinition]
      · rw [Draft.plus_addIssue]

/-- What one turn leaves is an end of what it had. -/
theorem turn_suffix (finish : Place) (t : Token) (tokens : List Token) :
    (turn finish t tokens).1 <:+ tokens := by
  rw [turn]
  split
  · exact resume_suffix define finish tokens
  · split
    · exact resume_suffix messageDefinition finish tokens
    · split
      · exact resume_suffix enumDefinition finish tokens
      · exact skipItem_suffix tokens

/-- Replies that agree go on at the same token. -/
theorem Agrees.resume {r alone : Reply α} (agree : Agrees rest r alone) (fenced : Fenced rest) :
    resume r = resume alone ++ rest := by
  rw [Parser.resume, Parser.resume]
  rcases agree.ok_or_error with ⟨a, read, read'⟩ | ⟨issue, issue', read, read', -⟩
  · simp only [read, read', agree.left]
  · simp only [read, read', agree.left, skipItem_append fenced]

/-- Replies that agree add the same define, or an issue of one kind. -/
theorem Agrees.addDefine {r alone : Reply Define} (agree : Agrees rest r alone) :
    (Draft.empty.addDefine r).outline = (Draft.empty.addDefine alone).outline := by
  rcases agree.ok_or_error with ⟨a, read, read'⟩ | ⟨issue, issue', read, read', kind⟩
  · simp [Draft.addDefine, Draft.outline, read, read', agree.noted]
  · simp [Draft.addDefine, Draft.outline, read, read', agree.noted, kind]

/-- Replies that agree add the same definition, or an issue of one kind. -/
theorem Agrees.addDefinition {r alone : Reply Definition} (agree : Agrees rest r alone) :
    (Draft.empty.addDefinition r).outline = (Draft.empty.addDefinition alone).outline := by
  rcases agree.ok_or_error with ⟨a, read, read'⟩ | ⟨issue, issue', read, read', kind⟩
  · simp [Draft.addDefinition, Draft.outline, read, read', agree.noted]
  · simp [Draft.addDefinition, Draft.outline, read, read', agree.noted, kind]

/-- An item in front of the cut is read as if nothing followed. -/
theorem turn_append (fenced : Fenced rest) (finish finish' : Place) (t : Token)
    (front : List Token) :
    (turn finish t (front ++ rest)).1 = (turn finish' t front).1 ++ rest ∧
      (turn finish t (front ++ rest)).2.outline = (turn finish' t front).2.outline := by
  rw [turn, turn]
  split
  · have agree := local_define fenced finish finish' front
    exact ⟨agree.resume fenced, agree.addDefine⟩
  · split
    · have agree := local_messageDefinition fenced finish finish' front
      exact ⟨agree.resume fenced, agree.addDefinition⟩
    · split
      · have agree := local_enumDefinition fenced finish finish' front
        exact ⟨agree.resume fenced, agree.addDefinition⟩
      · exact ⟨skipItem_append fenced front, rfl⟩

/-- What a document adds does not hang on what came before, nor on where it ends. -/
theorem outline_documentFrom (finish finish' : Place) (tokens : List Token) (draft : Draft) :
    (documentFrom finish tokens draft).outline =
      draft.outline.append (documentFrom finish' tokens Draft.empty).outline := by
  induction size : tokens.length using Nat.strong_induction_on
    generalizing finish tokens draft with
  | h n ih =>
    cases tokens with
    | nil =>
      rw [documentFrom, documentFrom]
      exact (Outline.append_empty _).symm
    | cons t tokens =>
      by_cases ends : t.kind = .finish
      · rw [documentFrom, documentFrom, if_pos ends, if_pos ends]
        exact (Outline.append_empty _).symm
      · obtain ⟨left, same⟩ := turn_append fenced_nil finish finish' t tokens
        rw [List.append_nil, List.append_nil] at left
        rw [List.append_nil] at same
        have shorter := (turn_suffix finish' t tokens).length_le
        rw [List.length_cons] at size
        rw [documentFrom_cons ends, documentFrom_cons ends, left, ih _ (by omega) finish _ _ rfl,
          ih _ (by omega) finish' _ (Draft.empty.plus _) rfl, Draft.outline_plus,
          Draft.outline_plus, same, Outline.append_assoc]
        rfl

/-- A document goes on behind the cut with what it has read in front of it. -/
theorem outline_documentFrom_append (fenced : Fenced rest) (finish finish' finish'' : Place)
    (front : List Token) (unfinished : Unfinished front) (draft : Draft) :
    (documentFrom finish (front ++ rest) draft).outline =
      draft.outline.append ((documentFrom finish' front Draft.empty).outline.append
        (documentFrom finish'' rest Draft.empty).outline) := by
  induction size : front.length using Nat.strong_induction_on generalizing front draft with
  | h n ih =>
    cases front with
    | nil =>
      rw [List.nil_append, outline_documentFrom finish finish'' rest, documentFrom]
      rfl
    | cons t front =>
      obtain ⟨ends, later⟩ := unfinished_cons.mp unfinished
      obtain ⟨left, same⟩ := turn_append fenced finish finish' t front
      have shorter := (turn_suffix finish' t front).length_le
      have within : Unfinished (turn finish' t front).1 :=
        fun u member => later u ((turn_suffix finish' t front).subset member)
      rw [List.length_cons] at size
      rw [List.cons_append, documentFrom_cons ends, documentFrom_cons ends, left,
        ih _ (by omega) _ within _ rfl, outline_documentFrom finish' finish' _ (Draft.empty.plus _),
        Draft.outline_plus, Draft.outline_plus, same]
      simp only [Outline.append_assoc]
      rfl

/-- A document that is cut before a define or a definition falls into its parts: the defines, the
definitions and the kinds of the issues are those of the front followed by those of the rest,
whatever is wrong in either. -/
theorem document_append {front rest : List Token} (unfinished : ∀ t ∈ front, t.kind ≠ .finish)
    (fenced : ∀ t ∈ rest.head?, t.kind = .hash ∨ t.kind = .message ∨ t.kind = .enum) :
    (document (front ++ rest)).1.defines =
        (document front).1.defines ++ (document rest).1.defines ∧
      (document (front ++ rest)).1.definitions =
        (document front).1.definitions ++ (document rest).1.definitions ∧
      (document (front ++ rest)).2.map Issue.kind =
        (document front).2.map Issue.kind ++ (document rest).2.map Issue.kind := by
  have whole := outline_documentFrom_append fenced (endOf (front ++ rest)) (endOf front)
    (endOf rest) front unfinished Draft.empty
  exact ⟨congrArg Outline.defines whole, congrArg Outline.definitions whole,
    congrArg Outline.kinds whole⟩

/-- A message that breaks off in the id of a field. -/
def nestTokens : List Token :=
  [⟨.message, "message", 0, ⟨1, 1⟩⟩, ⟨.identifier, "Nest", 8, ⟨1, 9⟩⟩,
    ⟨.openBrace, "\x7b", 13, ⟨1, 14⟩⟩, ⟨.primitive .int, "int", 15, ⟨1, 16⟩⟩,
    ⟨.identifier, "eggs", 19, ⟨1, 20⟩⟩, ⟨.equals, "=", 24, ⟨1, 25⟩⟩]

/-- An enum whose entry lacks its semicolon. -/
def twigTokens : List Token :=
  [⟨.enum, "enum", 26, ⟨2, 1⟩⟩, ⟨.identifier, "Twig", 31, ⟨2, 6⟩⟩,
    ⟨.openBrace, "\x7b", 36, ⟨2, 11⟩⟩, ⟨.identifier, "Oak", 38, ⟨2, 13⟩⟩,
    ⟨.closeBrace, "\x7d", 42, ⟨2, 17⟩⟩]

theorem document_append_nest :
    (∀ t ∈ nestTokens, t.kind ≠ .finish) ∧
      (∀ t ∈ twigTokens.head?, t.kind = .hash ∨ t.kind = .message ∨ t.kind = .enum) ∧
      (document (nestTokens ++ twigTokens)).1.definitions.map Definition.name = ["Nest", "Twig"] ∧
      (document (nestTokens ++ twigTokens)).2.map Issue.kind =
        [.unexpectedToken, .unexpectedToken, .missingTerminator] := by
  have unfinished : ∀ t ∈ nestTokens, t.kind ≠ .finish := by decide
  have fenced : ∀ t ∈ twigTokens.head?, t.kind = .hash ∨ t.kind = .message ∨ t.kind = .enum := by
    decide
  obtain ⟨-, definitions, kinds⟩ := document_append unfinished fenced
  refine ⟨unfinished, fenced, ?_, ?_⟩
  · rw [definitions]
    decide +kernel
  · rw [kinds]
    decide +kernel

end WireSchema.Parser
