import Mathlib.Data.List.Perm.Subperm
import WireSchema.Proofs.Acceptance

/-!
An id that cannot be read. Where a field of an accepted text is given a number that no id can be,
the text is refused for that number; the field is taken to have its index for an id, and the one
thing that can go wrong besides is that another field of its message has that id already.
-/

namespace WireSchema

open Text Grammar

/-- A field of a schema, and all that stands around it. -/
structure Focus where
  defines : List Define
  earlier : List Definition
  name : String
  place : Place
  before : List Field
  field : Field
  after : List Field
  later : List Definition

namespace Focus

def message (x : Focus) : Definition := ⟨x.name, x.place, .message (x.before ++ x.field :: x.after)⟩

def schema (x : Focus) : Schema := ⟨x.defines, x.earlier ++ x.message :: x.later⟩

/-- The field has its index for an id, as if none had been given. -/
def renumbered (x : Focus) : Focus :=
  { x with field := { x.field with id := Parser.autoId x.before.length } }

end Focus

namespace Parser

variable {α β : Type} {finish : Place} {tokens rest front back : List Token} {number : Token}
  {other : Token}

/-! Where a token stands in a list. -/

/-- A token of another kind stands before the number. -/
theorem split_cons {t : Token} (same : t :: tokens = front ++ number :: back)
    (unlike : t.kind ≠ number.kind) :
    ∃ inner, front = t :: inner ∧ tokens = inner ++ number :: back := by
  cases front with
  | nil =>
    cases same
    exact absurd rfl unlike
  | cons u inner =>
    cases same
    exact ⟨inner, rfl, rfl⟩

/-- The number stands in the one part or in the other. -/
theorem split_append (same : tokens ++ rest = front ++ number :: back) :
    (∃ outer, tokens = front ++ number :: outer ∧ back = outer ++ rest) ∨
      ∃ inner, front = tokens ++ inner ∧ rest = inner ++ number :: back := by
  obtain ⟨inner, before, behind⟩ | ⟨outer, before, behind⟩ := List.append_eq_append_iff.mp same
  · exact Or.inr ⟨inner, before, behind⟩
  · cases outer with
    | nil => exact Or.inr ⟨[], by simpa using before.symm, behind.symm⟩
    | cons t outer =>
      cases behind
      exact Or.inl ⟨outer, before, rfl⟩

/-- The keyword or the hash that opened what the tokens leave off in. -/
def opener? (tokens : List Token) : Option Token.Kind :=
  ((tokens.map Token.kind).filter Token.Kind.startsItem).getLast?

/-- What opens the last item is looked for from the end. -/
theorem opener?_append (tokens rest : List Token) :
    opener? (tokens ++ rest) = (opener? rest).or (opener? tokens) := by
  rw [opener?, List.map_append, List.filter_append, List.getLast?_append]
  rfl

theorem exists_of_opener? {k : Token.Kind} (opened : opener? tokens = some k) :
    ∃ t ∈ tokens, t.kind = k :=
  List.mem_map.mp (List.mem_of_mem_filter (List.mem_of_getLast? opened))

theorem opener?_cons {t : Token} (opens : t.kind.startsItem = true) (tokens : List Token) :
    opener? (t :: tokens) = (opener? tokens).or (some t.kind) := by
  have single : opener? [t] = some t.kind := by simp [opener?, opens]
  rw [← single, ← opener?_append, List.singleton_append]

/-! A field with such a number. -/

/-- Parsers that succeed one after the other note the issues of both. -/
theorem run_bind {p : Parser α} {f : α → Parser β} {a : α} {middle : List Token} {b : β}
    {now later : List Issue} (first : p.run finish tokens = ⟨.ok a, middle, now⟩)
    (next : (f a).run finish middle = ⟨.ok b, rest, later⟩) :
    (p >>= f).run finish tokens = ⟨.ok b, rest, now ++ later⟩ := by
  change (p.bind f).run finish tokens = _
  simp only [Parser.bind, first, next]

/-- A parser that yields its value without issue hands over to the next. -/
theorem Yields.run_bind {p : Parser α} {f : α → Parser β} {a : α} {middle : List Token}
    (first : Yields p finish tokens a middle) :
    (p >>= f).run finish tokens = (f a).run finish middle := by
  change (p.bind f).run finish tokens = _
  rw [Yields] at first
  simp only [Parser.bind, first, List.nil_append]

/-- A number that is no id is noted, and the id is the index. -/
theorem run_fieldId_unread {index : Nat} {name equals : Token} (set : equals.kind = .equals)
    (kind : number.kind = .number) (unread : readUInt16? number.text.toList = none) :
    (fieldId index name).run finish (equals :: number :: rest) =
      ⟨.ok (autoId index), rest,
        [(Cause.malformedId number.text name.text).issueAt number.place]⟩ := by
  rw [fieldId, (yields_ofKind?_some.mpr ⟨rfl, set⟩).run_bind]
  dsimp only
  rw [(yields_expect.mpr ⟨rfl, kind⟩).run_bind, unread]
  rfl

theorem type_draft_ne_enum (f : Field) : f.draft.type ≠ .enum := by
  rw [Field.draft]
  split
  next => simp
  next builtIn =>
    intro isEnum
    rw [isEnum] at builtIn
    exact builtIn rfl

def misnumbered (number : Token) (f : Field) : Issue :=
  (Cause.malformedId number.text f.name).issueAt number.place

/-- There is no number among the marks of a field. -/
theorem Marks.ne_number {marks : List Token} {isOptional isArray : Bool}
    (marked : Marks marks isOptional isArray) : ∀ t ∈ marks, t.kind ≠ .number := by
  cases marked <;> simp_all

/-- A field whose number cannot be read is read with the id of its position, and an issue is
noted. -/
theorem run_field_unread {index : Nat} {t : Token} (starts : startsField t) {f : Field}
    (spelled : FieldText index (t :: (front ++ number :: back)) f) (drafted : f.type ≠ .enum)
    (kind : number.kind = .number) (kind' : other.kind = .number)
    (unread : readUInt16? other.text.toList = none) :
    (field index t).run finish (front ++ other :: (back ++ rest)) =
      ⟨.ok { f with id := autoId index }, rest, [misnumbered other f]⟩ := by
  generalize whole : t :: (front ++ number :: back) = tokens at spelled
  cases spelled with
  | @mk _ name close marks given type isOptional isArray id typed marked named plain numbered
      closed =>
    obtain ⟨rfl, body⟩ := List.cons.inj whole
    -- the only number of a field is the one that is given for its id
    obtain ⟨outer, inside, -⟩ | ⟨inner, rfl, behind⟩ := split_append body.symm
    · exact absurd kind (Marks.ne_number marked number (by simp [inside]))
    obtain ⟨inner, rfl, afterName⟩ := split_cons behind (by simp [named, kind])
    cases numbered with
    | auto =>
      obtain ⟨_, rfl, none⟩ := split_cons afterName (by simp [closed, kind])
      simp at none
    | @given equals number' _ set _ _ =>
      obtain ⟨inner, rfl, afterEquals⟩ := split_cons afterName (by simp [set, kind])
      cases inner with
      | cons u inner =>
        obtain ⟨-, afterNumber⟩ := List.cons.inj afterEquals
        obtain ⟨_, rfl, none⟩ := split_cons afterNumber (by simp [closed, kind])
        simp at none
      | nil =>
        obtain ⟨rfl, rfl⟩ := List.cons.inj afterEquals.symm
        obtain ⟨plainType, rfl⟩ := (typeText_iff starts).mpr ⟨typed, drafted⟩
        obtain ⟨-, -, rfl, rfl⟩ := marks_iff.mp marked
        simp only [List.append_assoc, List.cons_append, List.nil_append]
        refine (yields_checkTypeName.mpr ⟨plainType, rfl⟩).run_bind.trans ?_
        refine (Yields.run_bind (a := marks.map Token.kind)
          (yields_modifiers.mpr ⟨marks, rfl, rfl, marked, by simp [isModifier, named]⟩)).trans ?_
        refine (yields_expect.mpr ⟨rfl, named⟩).run_bind.trans ?_
        refine (yields_plainName.mpr ⟨plain, rfl⟩).run_bind.trans ?_
        refine run_bind (run_fieldId_unread set kind' unread) ?_
        exact (yields_terminator.mpr ⟨close, rfl, closed⟩).run_bind

/-! A message with such a field. -/

namespace Block

variable {b : Block α} {item : Nat → List Token → α → Prop} {definition : String}
  {items : Array α} {noted : Array Issue}

/-- A block takes one part and goes on behind it. -/
theorem readFrom_item (reads : b.Reads item) {t : Token} (starts : b.starts t) {a : α}
    {more : List Issue} (run : (b.item items.size t).run finish tokens = ⟨.ok a, rest, more⟩) :
    b.readFrom definition finish (t :: tokens) items noted =
      b.readFrom definition finish rest (items.push a) (noted ++ more) := by
  obtain ⟨unclosed, inner⟩ := reads.starts starts
  rw [readFrom, if_neg unclosed, inner, if_neg Bool.false_ne_true, if_pos starts]
  simp only [run]

/-- A block goes on after its first item. -/
theorem readFrom_first (reads : b.Reads item) {a : α} (head : item items.size tokens a) :
    b.readFrom definition finish (tokens ++ rest) items noted =
      b.readFrom definition finish rest (items.push a) noted := by
  obtain ⟨t, body, rfl, starts⟩ := reads.first head
  have run : (b.item items.size t).run finish (body ++ rest) = ⟨.ok a, rest, []⟩ :=
    (reads.yields starts).mpr ⟨body, rfl, head⟩
  have quiet : noted ++ ([] : List Issue) = noted := by simp
  rw [List.cons_append, readFrom_item reads starts run, quiet]

/-- A block takes parts that are spelled by the grammar as they are. -/
theorem readFrom_items (reads : b.Reads item) {index : Nat} {inside : List Token} {as : List α}
    (text : Items item index inside as) (size : items.size = index) :
    b.readFrom definition finish (inside ++ rest) items noted =
      b.readFrom definition finish rest (items ++ as) noted := by
  induction text generalizing items with
  | nil => simp
  | cons head _ ih =>
    subst size
    rw [List.append_assoc, readFrom_first reads head, ih (Array.size_push _)]
    simp

end Block

theorem draft_id (f : Field) (id : UInt16) :
    { f with id := id }.draft = { f.draft with id := id } := by
  rw [Field.draft, Field.draft]
  split <;> rfl

theorem name_draft (f : Field) : f.draft.name = f.name := by
  rw [Field.draft]
  split <;> rfl

/-- The number stands in the text of a field. -/
def Numbers (number : Token) (front back : List Token) (index : Nat) (f : Field) : Prop :=
  ∃ inner outer, inner <:+ front ∧ outer <+: back ∧ FieldText index (inner ++ number :: outer) f

/-- A field with such a number is read as one that has none, and that is noted. -/
theorem readFrom_first_unread {f : Field} {items : Array Field} {noted : Array Issue}
    {definition : String} (head : FieldText items.size (front ++ number :: back) f)
    (kind : number.kind = .number) (kind' : other.kind = .number)
    (unread : readUInt16? other.text.toList = none) :
    messageBlock.readFrom definition finish (front ++ other :: (back ++ rest)) items noted =
      messageBlock.readFrom definition finish rest
        (items.push { f.draft with id := autoId items.size })
        (noted.push (misnumbered other f)) := by
  have first := head.retype retypes_draft
  obtain ⟨t, body, same, starts⟩ := messageBlock_reads.first ⟨first, type_draft_ne_enum f⟩
  have unlike : t.kind ≠ number.kind := by
    intro same
    rw [kind] at same
    simp [messageBlock, startsField, same, Token.Kind.primitive?] at starts
  obtain ⟨inner, rfl, rfl⟩ := split_cons same.symm unlike
  have run : (field items.size t).run finish (inner ++ other :: (back ++ rest)) =
      ⟨.ok { f.draft with id := autoId items.size }, rest, [misnumbered other f.draft]⟩ :=
    run_field_unread starts first (type_draft_ne_enum f) kind kind' unread
  rw [List.cons_append, Block.readFrom_item messageBlock_reads starts run]
  simp [misnumbered, name_draft]

/-- A number in the body that cannot be read changes the id of the field it stands in. -/
theorem readFrom_unread {index : Nat} {fields : List Field}
    (spelled : Items FieldText index tokens fields) (whole : tokens = front ++ number :: back)
    (kind : number.kind = .number) (kind' : other.kind = .number)
    (unread : readUInt16? other.text.toList = none) :
    ∃ before f after, fields = before ++ f :: after ∧
      Numbers number front back (index + before.length) f ∧
      ∀ {definition : String} {finish : Place} {rest : List Token} {items : Array Field}
        {noted : Array Issue}, items.size = index →
        messageBlock.readFrom definition finish (front ++ other :: (back ++ rest)) items noted =
          messageBlock.readFrom definition finish rest
            (items ++ (before ++ { f with id := autoId (index + before.length) } :: after).map
              Field.draft)
            (noted.push (misnumbered other f)) := by
  induction spelled generalizing front with
  | nil => simp at whole
  | @cons index tokens later f fields head tail ih =>
    obtain ⟨outer, rfl, rfl⟩ | ⟨inner, rfl, rfl⟩ := split_append whole
    · refine ⟨[], f, fields, rfl,
        ⟨front, outer, List.suffix_refl _, List.prefix_append _ _, head⟩, ?_⟩
      intro definition finish rest items noted size
      subst size
      have drafted : Items (fun index tokens f => FieldText index tokens f ∧ f.type ≠ .enum)
          (items.size + 1) later (fields.map Field.draft) :=
        items_and_iff.mpr ⟨tail.retype retypes_draft,
          List.forall_mem_map.mpr fun f _ => type_draft_ne_enum f⟩
      rw [List.append_assoc, readFrom_first_unread head kind kind' unread,
        Block.readFrom_items messageBlock_reads drafted (Array.size_push _)]
      simp [draft_id]
    · obtain ⟨before, g, after, rfl, ⟨inner', outer, inside, behind, spelled⟩, read⟩ := ih rfl
      have shift : index + 1 + before.length = index + (f :: before).length := by
        rw [List.length_cons]
        omega
      rw [shift] at spelled read
      refine ⟨f :: before, g, after, rfl,
        ⟨inner', outer, inside.trans (List.suffix_append _ _), behind, spelled⟩, ?_⟩
      intro definition finish rest items noted size
      subst size
      have first := head.retype retypes_draft
      rw [List.append_assoc, Block.readFrom_first messageBlock_reads ⟨first, type_draft_ne_enum f⟩,
        read (Array.size_push _)]
      simp

theorem Numbers.extend {index : Nat} {f : Field} (numbers : Numbers number front back index f)
    (first later : List Token) : Numbers number (first ++ front) (back ++ later) index f := by
  obtain ⟨inner, outer, inside, behind, spelled⟩ := numbers
  exact ⟨inner, outer, inside.trans (List.suffix_append _ _),
    behind.trans (List.prefix_append _ _), spelled⟩

theorem run_messageDefinition_unread {word : Token} {d : Definition}
    (braced : Braced .message FieldText .message (word :: (front ++ number :: back)) d)
    (kind : number.kind = .number) (kind' : other.kind = .number)
    (unread : readUInt16? other.text.toList = none) :
    ∃ before f after, d = ⟨d.name, d.place, .message (before ++ f :: after)⟩ ∧
      Numbers number front back before.length f ∧
      ∀ {finish : Place} {rest : List Token},
        messageDefinition.run finish (front ++ other :: (back ++ rest)) =
          ⟨.ok ⟨d.name, d.place, .message
              ((before ++ { f with id := autoId before.length } :: after).map Field.draft)⟩,
            rest, [misnumbered other f]⟩ := by
  generalize whole : word :: (front ++ number :: back) = tokens at braced
  cases braced with
  | @mk _ name opening closing inside fields _ named plain opened contents closed =>
    obtain ⟨rfl, body⟩ := List.cons.inj whole
    obtain ⟨_, rfl, afterName⟩ := split_cons body.symm (by simp [named, kind])
    obtain ⟨front, rfl, within⟩ := split_cons afterName (by simp [opened, kind])
    obtain ⟨back, same, rfl⟩ | ⟨_, rfl, last⟩ := split_append within
    · obtain ⟨before, f, after, rfl, numbers, read⟩ :=
        readFrom_unread contents same kind kind' unread
      rw [Nat.zero_add] at numbers read
      refine ⟨before, f, after, rfl, numbers.extend [name, opening] [closing], ?_⟩
      intro finish rest
      have inside : (block messageBlock name.text).run finish
          (front ++ other :: (back ++ closing :: rest)) =
          ⟨.ok ((before ++ { f with id := autoId before.length } :: after).map Field.draft), rest,
            [misnumbered other f]⟩ := by
        simp only [block, read (show (#[] : Array Field).size = 0 from rfl), Block.readFrom,
          if_pos closed]
        simp
      simp only [List.cons_append, List.append_assoc, List.nil_append]
      refine (yields_expect.mpr ⟨rfl, named⟩).run_bind.trans ?_
      refine (yields_plainName.mpr ⟨plain, rfl⟩).run_bind.trans ?_
      refine (yields_expect.mpr ⟨rfl, opened⟩).run_bind.trans ?_
      exact run_bind inside rfl
    · obtain ⟨_, rfl, none⟩ := split_cons last (by simp [closed, kind])
      simp at none

/-! A text with such a message. -/

theorem EntryText.ne_message {index : Nat} {e : Entry} (spelled : EntryText index tokens e) :
    ∀ t ∈ tokens, t.kind ≠ .message := by
  obtain ⟨named, -, numbered, closed⟩ := spelled
  cases numbered <;> simp_all

theorem Items.ne_message {index : Nat} {entries : List Entry}
    (spelled : Items EntryText index tokens entries) : ∀ t ∈ tokens, t.kind ≠ .message := by
  induction spelled with
  | nil => exact nofun
  | cons head _ ih => exact List.forall_mem_append.mpr ⟨EntryText.ne_message head, ih⟩

/-- No message starts inside an enum. -/
theorem Braced.ne_message {d : Definition} (spelled : Braced .enum EntryText .enum tokens d) :
    ∀ t ∈ tokens, t.kind ≠ .message := by
  obtain ⟨starts, named, -, opened, contents, closed⟩ := spelled
  simpa [starts, named, opened, closed, or_imp, forall_and] using Items.ne_message contents

/-- No message starts inside a define. -/
theorem DefineText.ne_message {d : Define} (spelled : DefineText tokens d) :
    ∀ t ∈ tokens, t.kind ≠ .message := by
  have value : ∀ {v : Token} {value : String}, DefineValue v value → v.kind ≠ .message := by
    intro v value given
    cases given <;> simp_all
  cases spelled with
  | plain starts named set given closed => simp [starts, named, set, value given, closed]
  | spelled starts spelling named set given closed =>
    simp [starts, spelling, named, set, value given, closed]

/-- A text begins with what opens a define or a definition. -/
theorem DocumentText.opens {s : Schema} (derived : DocumentText tokens s) :
    ∀ t ∈ tokens.head?, t.kind.startsItem = true := by
  cases derived with
  | nil => exact nofun
  | define head _ =>
    obtain ⟨hash, body, rfl, starts⟩ := head.starts
    simp [starts, Token.Kind.startsItem]
  | definition head _ =>
    cases head with
    | message head =>
      obtain ⟨word, body, rfl, starts⟩ := head.starts
      simp [starts, Token.Kind.startsItem]
    | enum head =>
      obtain ⟨word, body, rfl, starts⟩ := head.starts
      simp [starts, Token.Kind.startsItem]

/-- What stands in front of a text does not open the parts of it. -/
theorem opener?_tail {s : Schema} (derived : DocumentText (front ++ number :: back) s)
    (kind : number.kind = .number) (first : List Token) :
    opener? (first ++ front) = opener? front := by
  have opens := DocumentText.opens derived
  cases front with
  | nil => simp [kind, Token.Kind.startsItem] at opens
  | cons t front =>
    rw [opener?_append, opener?_cons (opens t rfl)]
    cases opener? front <;> rfl

/-- The definition of a message with such a number is read, and the text goes on behind it. -/
theorem documentFrom_message_unread {d : Definition} {later : List Token} {s : Schema}
    (head : Braced .message FieldText .message (front ++ number :: back) d)
    (tail : DocumentText later s) (kind : number.kind = .number) (kind' : other.kind = .number)
    (unread : readUInt16? other.text.toList = none)
    (stops : Stops (fun t => t.kind ≠ .finish) rest) :
    ∃ x : Focus, x.schema = ⟨s.defines, d :: s.definitions⟩ ∧
      Numbers number front back x.before.length x.field ∧
      ∀ draft : Draft, documentFrom finish (front ++ other :: (back ++ (later ++ rest))) draft =
        (draft.add x.renumbered.schema.draft).addIssue (misnumbered other x.field) := by
  obtain ⟨word, body, same, starts⟩ := head.starts
  obtain ⟨inner, rfl, rfl⟩ := split_cons same.symm (by simp [starts, kind])
  obtain ⟨before, f, after, message, numbers, run⟩ :=
    run_messageDefinition_unread head kind kind' unread
  refine ⟨⟨s.defines, [], d.name, d.place, before, f, after, s.definitions⟩, ?_,
    by simpa using numbers.extend [word] [], fun draft => ?_⟩
  · rw [Focus.schema, Focus.message, ← message]
    rfl
  · rw [List.cons_append, documentFrom, if_neg (by simp [starts]), if_neg (by simp [starts]),
      if_pos starts, run]
    dsimp only [resume]
    rw [documentFrom_eq (tail.retype retypes_draft) s.drafted_draft stops]
    simp [Draft.add, Draft.addDefinition, Draft.addIssue, Focus.renumbered, Focus.schema,
      Focus.message, Schema.draft, Schema.mapFields, Definition.mapFields]

/-- A text is read with a number that is no id as if the field had none, and that is noted. -/
theorem documentFrom_unread {s : Schema} (derived : DocumentText tokens s)
    (whole : tokens = front ++ number :: back) (opened : opener? front = some .message)
    (kind : number.kind = .number) (kind' : other.kind = .number)
    (unread : readUInt16? other.text.toList = none)
    (stops : Stops (fun t => t.kind ≠ .finish) rest) :
    ∃ x : Focus, x.schema = s ∧ Numbers number front back x.before.length x.field ∧
      ∀ draft : Draft, documentFrom finish (front ++ other :: (back ++ rest)) draft =
        (draft.add x.renumbered.schema.draft).addIssue (misnumbered other x.field) := by
  induction derived generalizing front with
  | nil => simp at whole
  | @define text later d s head tail ih =>
    obtain ⟨outer, rfl, rfl⟩ | ⟨inner, rfl, rfl⟩ := split_append whole
    · obtain ⟨t, member, word⟩ := exists_of_opener? opened
      exact absurd word (DefineText.ne_message head t (List.mem_append_left _ member))
    · rw [opener?_tail tail kind] at opened
      obtain ⟨x, same, numbers, read⟩ := ih rfl opened
      refine ⟨{ x with defines := d :: x.defines }, ?_, ?_, fun draft => ?_⟩
      · rw [← same]
        rfl
      · simpa using numbers.extend text []
      · rw [List.append_assoc, documentFrom_define head, read, Draft.add_addDefine]
        rfl
  | @definition text later d s head tail ih =>
    obtain ⟨outer, rfl, rfl⟩ | ⟨inner, rfl, rfl⟩ := split_append whole
    · cases head with
      | enum head =>
        obtain ⟨t, member, word⟩ := exists_of_opener? opened
        exact absurd word (Braced.ne_message head t (List.mem_append_left _ member))
      | message head =>
        obtain ⟨x, same, numbers, read⟩ :=
          documentFrom_message_unread head tail kind kind' unread stops
        refine ⟨x, same, by simpa using numbers.extend [] later, fun draft => ?_⟩
        rw [List.append_assoc, read]
    · rw [opener?_tail tail kind] at opened
      obtain ⟨x, same, numbers, read⟩ := ih rfl opened
      refine ⟨{ x with earlier := d :: x.earlier }, ?_, ?_, fun draft => ?_⟩
      · rw [← same]
        rfl
      · simpa using numbers.extend text []
      · have drafted : ∀ f ∈ (d.mapFields Field.draft).fields, f.type ≠ .enum := by
          rw [Definition.fields_mapFields]
          exact List.forall_mem_map.mpr fun f _ => type_draft_ne_enum f
        rw [List.append_assoc, documentFrom_definition (head.retype retypes_draft) drafted, read,
          Draft.add_addDefinition]
        rfl

end Parser

/-! Repeated ids. -/

/-- The repeated ids of fields that stand behind others. -/
def repeatedIds (message : String) (before : List Field) : List Field → List Issue
  | [] => []
  | f :: fields =>
    f.idIssues message (before.find? fun g => g.id == f.id) ++
      repeatedIds message (before ++ [f]) fields

/-- Repeated ids are found part by part, each after those before it. -/
theorem repeatedIds_append (message : String) (before fields more : List Field) :
    repeatedIds message before (fields ++ more) =
      repeatedIds message before fields ++ repeatedIds message (before ++ fields) more := by
  induction fields generalizing before with
  | nil => simp [repeatedIds]
  | cons f fields ih => simp [repeatedIds, ih]

/-- Distinct ids that are all new are not repeated. -/
theorem repeatedIds_eq_nil {message : String} {before fields : List Field}
    (distinct : fields.Pairwise fun f g => f.id ≠ g.id)
    (fresh : ∀ g ∈ before, ∀ f ∈ fields, g.id ≠ f.id) : repeatedIds message before fields = [] := by
  induction fields generalizing before with
  | nil => rfl
  | cons f fields ih =>
    obtain ⟨first, distinct⟩ := List.pairwise_cons.mp distinct
    have alone : before.find? (fun g => g.id == f.id) = none := by
      rw [List.find?_eq_none]
      intro g member
      simpa using fresh g member f List.mem_cons_self
    rw [repeatedIds, alone, ih distinct]
    · rfl
    · intro g member h inside
      obtain member | rfl : g ∈ before ∨ g = f := by simpa using member
      · exact fresh g member h (List.mem_cons_of_mem f inside)
      · exact first h inside

section

variable {message : String} {before after : List Field} {f : Field}
  (distinct : after.Pairwise fun f g => f.id ≠ g.id)
  (apart : ∀ g ∈ before, ∀ h ∈ after, g.id ≠ h.id)

include distinct apart

theorem repeatedIds_free (free : ∀ g ∈ after, f.id ≠ g.id) :
    repeatedIds message (before ++ [f]) after = [] :=
  repeatedIds_eq_nil distinct
    (List.forall_mem_append.mpr ⟨apart, List.forall_mem_singleton.mpr free⟩)

/-- One more field among those before can have its id repeated once. -/
theorem repeatedIds_taken {g : Field} (member : g ∈ after) (same : g.id = f.id) :
    repeatedIds message (before ++ [f]) after =
      [(Cause.duplicateFieldId g.id g.name f.name message).issueAt g.place] := by
  obtain ⟨first, last, rfl⟩ := List.append_of_mem member
  obtain ⟨firsts, others, across⟩ := List.pairwise_append.mp distinct
  obtain ⟨behind, lasts⟩ := List.pairwise_cons.mp others
  have search : (before ++ [f] ++ first).find? (fun h => h.id == g.id) = some f := by
    have none : before.find? (fun h => h.id == g.id) = none := by
      rw [List.find?_eq_none]
      exact fun h early => by simpa using apart h early g member
    rw [List.find?_append, List.find?_append, none]
    simp [same]
  have quiet : repeatedIds message (before ++ [f]) first = [] := by
    refine repeatedIds_free firsts (fun h early i inside => ?_) fun h inside => ?_
    · exact apart h early i (List.mem_append_left _ inside)
    · rw [← same]
      exact (across h inside g List.mem_cons_self).symm
  have still : repeatedIds message (before ++ [f] ++ first ++ [g]) last = [] := by
    refine repeatedIds_free lasts (List.forall_mem_append.mpr ⟨List.forall_mem_append.mpr ⟨?_, ?_⟩,
      ?_⟩) behind
    · exact fun h early i inside => apart h early i (by simp [inside])
    · rw [List.forall_mem_singleton, ← same]
      exact behind
    · exact fun h early i inside => across h early i (List.mem_cons_of_mem g inside)
  rw [repeatedIds_append, quiet, repeatedIds, search, still]
  rfl

end

/-- The issues of a message are those of its repeated ids. -/
theorem zip_firstBefore_eq (message : String) (before fields : List Field) :
    (fields.zip (firstBefore Field.id before fields)).flatMap (fun p => p.1.idIssues message p.2) =
      repeatedIds message before fields := by
  induction fields generalizing before with
  | nil => rfl
  | cons f fields ih => rw [firstBefore, List.zip_cons_cons, List.flatMap_cons, ih, repeatedIds]

/-- Where names are distinct and no id is reserved, the issues of fields are their repeated ids. -/
theorem fieldIssues_eq_repeatedIds {message : String} {fields : List Field}
    (names : (fields.map Field.name).Nodup) (unreserved : ∀ f ∈ fields, f.id ≠ 65535) :
    Definition.fieldIssues message fields = repeatedIds message [] fields := by
  have unnamed := (earlier_none_iff Field.name fields).mpr names
  have aligned : (earlier Field.id fields).length ≤ (earlier Field.name fields).length := by
    rw [length_earlier, length_earlier]
  have ids : ∀ p ∈ fields.zip ((earlier Field.id fields).zip (earlier Field.name fields)),
      p.1.reservedIssues ++ p.1.idIssues message p.2.1 ++ p.1.nameIssues message p.2.2 =
        p.1.idIssues message p.2.1 := by
    intro p member
    have inside := List.of_mem_zip member
    have second := List.of_mem_zip (show (p.2.1, p.2.2) ∈ _ from inside.2)
    rw [(p.1.reservedIssues_eq_nil_iff).mpr (unreserved p.1 inside.1), unnamed _ second.2]
    simp [Field.nameIssues]
  have plain : fields.zip (earlier Field.id fields) =
      (fields.zip ((earlier Field.id fields).zip (earlier Field.name fields))).map
        fun p => (p.1, p.2.1) := by
    nth_rewrite 1 [← List.map_fst_zip aligned]
    rw [List.zip_map_right]
    rfl
  calc Definition.fieldIssues message fields
      = (fields.zip ((earlier Field.id fields).zip (earlier Field.name fields))).flatMap
          (fun p => p.1.idIssues message p.2.1) := List.flatMap_congr ids
    _ = (fields.zip (earlier Field.id fields)).flatMap (fun p => p.1.idIssues message p.2) := by
        rw [plain, List.flatMap_map]
    _ = repeatedIds message [] fields := by
        rw [earlier_eq_firstBefore, zip_firstBefore_eq]

/-- There are no more fields than ids. -/
theorem length_le_of_distinct {fields : List Field} (distinct : (fields.map Field.id).Nodup)
    (unreserved : ∀ f ∈ fields, f.id ≠ 65535) : fields.length ≤ 65535 := by
  have numbers := distinct.map fun a b => UInt16.toNat_inj.mp
  have inside : (fields.map Field.id).map UInt16.toNat ⊆ List.range 65535 := by
    intro n member
    obtain ⟨id, given, rfl⟩ := List.mem_map.mp member
    obtain ⟨f, among, rfl⟩ := List.mem_map.mp given
    have small : f.id.toNat < 65536 := f.id.toNat_lt
    have unlike : f.id.toNat ≠ 65535 := fun same => unreserved f among (UInt16.toNat_inj.mp same)
    exact List.mem_range.mpr (by omega)
  simpa using (numbers.subperm inside).length_le

/-! The schema with the other id. -/

def Field.unnumbered (f : Field) : Field := { f with id := 0 }

namespace Schema

/-- Whether names are bound does not depend on ids. -/
theorem bound_unnumbered (s : Schema) : (s.mapFields Field.unnumbered).Bound ↔ s.Bound := by
  simp only [Bound, mapFields, List.forall_mem_map, Definition.fields_mapFields]
  refine forall₂_congr fun d _ => forall₂_congr fun f _ => imp_congr_right fun _ => ?_
  change (∃ e, (s.mapFields Field.unnumbered).definition? f.typeName = some e ∧ f.type = e.kind) ↔ _
  rw [definition?_mapFields]
  cases s.definition? f.typeName <;> simp

/-- Neither does which message holds which. -/
theorem holds_unnumbered (s : Schema) : (s.mapFields Field.unnumbered).Holds = s.Holds := by
  have inline (d : Definition) : (d.mapFields Field.unnumbered).inlineTypes = d.inlineTypes := by
    rw [Definition.inlineTypes, Definition.fields_mapFields, List.filter_map, List.map_map]
    rfl
  funext a b
  apply propext
  rw [holds_iff, holds_iff, definition?_mapFields]
  cases s.definition? a <;> simp [inline]

end Schema

namespace Focus

variable {x : Focus}

theorem unnumbered_renumbered (x : Focus) :
    x.renumbered.schema.mapFields Field.unnumbered = x.schema.mapFields Field.unnumbered := by
  simp [renumbered, schema, message, Schema.mapFields, Definition.mapFields, Field.unnumbered]

theorem names_renumbered (x : Focus) :
    x.renumbered.schema.definitions.map Definition.name =
      x.schema.definitions.map Definition.name := by
  simp [renumbered, schema, message]

theorem bound_renumbered (bound : x.schema.Bound) : x.renumbered.schema.Bound := by
  rwa [← Schema.bound_unnumbered, unnumbered_renumbered, Schema.bound_unnumbered]

theorem holds_renumbered (x : Focus) : x.renumbered.schema.Holds = x.schema.Holds := by
  rw [← Schema.holds_unnumbered, unnumbered_renumbered, Schema.holds_unnumbered]

/-- Only the message of the field can break a rule. -/
theorem issues_renumbered (lawful : x.schema.Lawful) :
    x.renumbered.schema.issues = x.renumbered.message.bodyIssues := by
  have distinct : (x.renumbered.schema.definitions.map Definition.name).Nodup := by
    rw [names_renumbered]
    exact lawful.names
  have finite : x.renumbered.schema.recursionIssues = [] := by
    rw [Schema.recursionIssues_eq_nil_iff distinct, holds_renumbered]
    intro d member
    have named : d.name ∈ x.schema.definitions.map Definition.name :=
      x.names_renumbered ▸ List.mem_map_of_mem member
    obtain ⟨e, among, same⟩ := List.mem_map.mp named
    rw [← same]
    exact lawful.finite e among
  have others : ∀ d ∈ x.earlier ++ x.later, d.bodyIssues = [] := by
    intro d member
    refine d.bodyIssues_eq_nil_iff.mpr (lawful.bodies d ?_)
    rw [schema, List.mem_append, List.mem_cons]
    obtain early | late := List.mem_append.mp member
    · exact Or.inl early
    · exact Or.inr (Or.inr late)
  obtain ⟨early, late⟩ := List.forall_mem_append.mp others
  have bodies : x.renumbered.schema.definitions.flatMap Definition.bodyIssues =
      x.renumbered.message.bodyIssues := by
    change (x.earlier ++ x.renumbered.message :: x.later).flatMap Definition.bodyIssues = _
    rw [List.flatMap_append, List.flatMap_cons, List.flatMap_eq_nil_iff.mpr early,
      List.flatMap_eq_nil_iff.mpr late, List.append_nil, List.nil_append]
  rw [Schema.issues, x.renumbered.schema.typeNameIssues_eq_nil_iff.mpr distinct, finite, bodies,
    List.append_nil, List.nil_append]

/-- The field is the only other one that has the index of the field in focus for its id. -/
structure Rival (x : Focus) (g : Field) : Prop where
  same : g.id.toNat = x.before.length
  only : ∀ h ∈ x.before ++ x.after, h.id.toNat = x.before.length → h = g

/-- What is found where the field has its index for an id: nothing, or that exactly one other field
has it too, and the later one of the two is named. -/
inductive Clash (x : Focus) : List Issue → Prop
  | none (free : ∀ g ∈ x.before ++ x.after, g.id.toNat ≠ x.before.length) : x.Clash []
  | earlier {g : Field} (member : g ∈ x.before) (rival : x.Rival g) :
      x.Clash [(Cause.duplicateFieldId g.id x.field.name g.name x.name).issueAt x.field.place]
  | later {g : Field} (member : g ∈ x.after) (rival : x.Rival g) :
      x.Clash [(Cause.duplicateFieldId g.id g.name x.field.name x.name).issueAt g.place]

/-- Where ids are distinct, a field with that id has no other beside it. -/
theorem rival_of_distinct
    (distinct : (x.before ++ x.field :: x.after).Pairwise fun f g => f.id ≠ g.id) {g : Field}
    (member : g ∈ x.before ++ x.after) (same : g.id.toNat = x.before.length) : x.Rival g := by
  have others : (x.before ++ x.after).Sublist (x.before ++ x.field :: x.after) := by simp
  have ids : ((x.before ++ x.after).map Field.id).Nodup :=
    List.pairwise_map.mpr (distinct.sublist others)
  refine ⟨same, fun h inside equal => ?_⟩
  exact List.inj_on_of_nodup_map ids inside member (UInt16.toNat_inj.mp (equal.trans same.symm))

theorem clash_repeatedIds (small : x.before.length < 65535)
    (distinct : (x.before ++ x.field :: x.after).Pairwise fun f g => f.id ≠ g.id) :
    x.Clash (repeatedIds x.name [] (x.before ++ x.renumbered.field :: x.after)) := by
  have given (g : Field) : g.id = x.renumbered.field.id ↔ g.id.toNat = x.before.length := by
    rw [renumbered, Parser.eq_autoId_iff, Nat.min_eq_left small.le]
  obtain ⟨first, others, across⟩ := List.pairwise_append.mp distinct
  obtain ⟨-, last⟩ := List.pairwise_cons.mp others
  have apart : ∀ f ∈ x.before, ∀ g ∈ x.after, f.id ≠ g.id :=
    fun f early g late => across f early g (List.mem_cons_of_mem _ late)
  rw [repeatedIds_append, repeatedIds_eq_nil first (by simp), List.nil_append, List.nil_append,
    repeatedIds]
  cases search : x.before.find? fun g => g.id == x.renumbered.field.id with
  | some g =>
    have member := List.mem_of_find?_eq_some search
    have same : g.id = x.renumbered.field.id := by simpa using List.find?_some search
    have quiet : repeatedIds x.name (x.before ++ [x.renumbered.field]) x.after = [] :=
      repeatedIds_free last apart (same ▸ apart g member)
    rw [quiet, Field.idIssues, ← same]
    exact .earlier member
      (rival_of_distinct distinct (List.mem_append_left _ member) ((given g).mp same))
  | none =>
    have free : ∀ g ∈ x.before, g.id ≠ x.renumbered.field.id := by simpa using search
    rw [Field.idIssues, List.nil_append]
    by_cases taken : ∃ g ∈ x.after, g.id = x.renumbered.field.id
    · obtain ⟨g, member, same⟩ := taken
      rw [repeatedIds_taken last apart member same]
      exact .later member
        (rival_of_distinct distinct (List.mem_append_right _ member) ((given g).mp same))
    · have unused : ∀ g ∈ x.after, g.id ≠ x.renumbered.field.id :=
        fun g member same => taken ⟨g, member, same⟩
      rw [repeatedIds_free last apart fun g member => (unused g member).symm]
      refine .none (List.forall_mem_append.mpr ⟨fun g member => ?_, fun g member => ?_⟩)
      · exact fun same => free g member ((given g).mpr same)
      · exact fun same => unused g member ((given g).mpr same)

/-- A lawful schema has at most this issue, once the id of a field is its index. -/
theorem clash_issues (lawful : x.schema.Lawful) : x.Clash x.renumbered.schema.issues := by
  have body : x.message.Lawful := lawful.bodies x.message (by simp [schema])
  have small : x.before.length < 65535 := by
    have count := length_le_of_distinct body.ids body.unreserved
    simp only [message, Definition.fields, List.length_append, List.length_cons] at count
    omega
  have names : ((x.before ++ x.renumbered.field :: x.after).map Field.name).Nodup := by
    simpa [renumbered, message, Definition.fields] using body.names
  have unreserved : ∀ f ∈ x.before ++ x.renumbered.field :: x.after, f.id ≠ 65535 := by
    obtain ⟨first, others⟩ := List.forall_mem_append.mp body.unreserved
    refine List.forall_mem_append.mpr ⟨first, List.forall_mem_cons.mpr ⟨fun same => ?_, ?_⟩⟩
    · have reach := Parser.eq_autoId_iff.mp (rfl : x.renumbered.field.id = _)
      rw [same] at reach
      change 65535 = min x.before.length 65535 at reach
      omega
    · exact (List.forall_mem_cons.mp others).2
  rw [issues_renumbered lawful]
  change x.Clash (Definition.fieldIssues x.name (x.before ++ x.renumbered.field :: x.after))
  rw [fieldIssues_eq_repeatedIds names unreserved]
  exact clash_repeatedIds small (List.pairwise_map.mp body.ids)

end Focus

theorem readUInt16?_eq_none {cs : List Char} (beyond : ∀ n, readUnsigned? cs = some n → 65535 < n) :
    readUInt16? cs = none := by
  rw [readUInt16?]
  cases read : readUnsigned? cs with
  | none => rfl
  | some n =>
    have large := beyond n read
    exact if_neg (by omega)

namespace Schema

section

variable {front back : List Token} {number : Token} {text : String} {s : Schema}
  (accepted : ofTokens (front ++ number :: back) = .ok s) (kind : number.kind = .number)
  (unfinished : ∀ t ∈ front, t.kind ≠ .finish) (opened : Parser.opener? front = some .message)

include accepted kind unfinished opened

/-- The draft of an accepted text with such a number, and what the grammar notes. -/
theorem document_misnumbered (unread : readUInt16? text.toList = none) :
    ∃ x : Focus, x.schema = s ∧ Parser.Numbers number front back x.before.length x.field ∧
      Parser.document (front ++ { number with text := text } :: back) =
        (x.renumbered.schema.draft,
          [(Cause.malformedId text x.field.name).issueAt number.place]) := by
  have derived := derived_of_ofTokens accepted
  have before : ∀ t ∈ front, decide (t.kind ≠ .finish) = true :=
    fun t member => decide_eq_true (unfinished t member)
  have kind' : ({ number with text := text } : Token).kind = .number := kind
  rw [List.takeWhile_append_of_pos before, List.takeWhile_cons_of_pos (by simp [kind])] at derived
  obtain ⟨x, same, numbers, read⟩ := Parser.documentFrom_unread derived rfl opened kind kind' unread
    (Parser.stops_dropWhile _ back)
  rw [List.takeWhile_append_dropWhile] at read
  refine ⟨x, same, ?_, ?_⟩
  · simpa using numbers.extend [] (back.dropWhile fun t => t.kind ≠ .finish)
  · rw [Parser.document, read]
    simp [Parser.Draft.schema, Parser.Draft.add, Parser.Draft.addIssue, Parser.Draft.empty,
      Parser.misnumbered]

/-- A number that no id can be, in place of an id in an accepted text, is an issue, and there is at
most one more: where another field of the message has the index of the field for its id. -/
theorem ofTokens_misnumbered (beyond : ∀ n, readUnsigned? text.toList = some n → 65535 < n) :
    ∃ x : Focus, x.schema = s ∧ Parser.Numbers number front back x.before.length x.field ∧
      ∃ more, x.Clash more ∧
        ofTokens (front ++ { number with text := text } :: back) =
          .error (Report.ofIssues
            ((Cause.malformedId text x.field.name).issueAt number.place :: more)) := by
  obtain ⟨x, rfl, numbers, read⟩ :=
    document_misnumbered accepted kind unfinished opened (readUInt16?_eq_none beyond)
  refine ⟨x, rfl, numbers, _, x.clash_issues (lawful_of_ofTokens accepted), ?_⟩
  have bound := x.bound_renumbered (bound_of_ofTokens accepted)
  rw [ofTokens, read]
  dsimp only
  rw [issuesOf, unresolvedIssues_draft bound, resolve_draft bound]
  rfl

end

def crossedFront : List Token :=
  [⟨.message, "message", 0, ⟨1, 1⟩⟩, ⟨.identifier, "M", 8, ⟨1, 9⟩⟩,
    ⟨.openBrace, "\x7b", 10, ⟨1, 11⟩⟩, ⟨.primitive .int, "int", 12, ⟨1, 13⟩⟩,
    ⟨.identifier, "a", 16, ⟨1, 17⟩⟩, ⟨.equals, "=", 18, ⟨1, 19⟩⟩]

def crossedBack : List Token :=
  [⟨.semicolon, ";", 21, ⟨1, 22⟩⟩, ⟨.primitive .int, "int", 23, ⟨1, 24⟩⟩,
    ⟨.identifier, "b", 27, ⟨1, 28⟩⟩, ⟨.equals, "=", 29, ⟨1, 30⟩⟩, ⟨.number, "0", 31, ⟨1, 32⟩⟩,
    ⟨.semicolon, ";", 32, ⟨1, 33⟩⟩, ⟨.closeBrace, "\x7d", 34, ⟨1, 35⟩⟩, ⟨.finish, "", 35, ⟨1, 36⟩⟩]

/-- Each of the two fields has the index of the other for its id. -/
def crossed : Schema :=
  ⟨[], [⟨"M", ⟨1, 9⟩, .message
    [⟨.primitive .int, "int", "a", 1, false, false, ⟨1, 13⟩⟩,
      ⟨.primitive .int, "int", "b", 0, false, false, ⟨1, 24⟩⟩]⟩]⟩

theorem crossed_accepted :
    ofTokens (crossedFront ++ ⟨.number, "1", 20, ⟨1, 21⟩⟩ :: crossedBack) = .ok crossed := by
  refine ofTokens_eq_ok_iff_draft.mpr ?_
  exact ⟨by decide +kernel, by decide +kernel, by decide +kernel,
    crossed.issues_eq_nil_iff.mp (by cbv)⟩

/-- The first field has its index for an id, and so has the second. -/
def clashing : Schema :=
  ⟨[], [⟨"M", ⟨1, 9⟩, .message
    [⟨.primitive .int, "int", "a", 0, false, false, ⟨1, 13⟩⟩,
      ⟨.primitive .int, "int", "b", 0, false, false, ⟨1, 24⟩⟩]⟩]⟩

theorem clashing_issues :
    clashing.issues = [(Cause.duplicateFieldId 0 "b" "a" "M").issueAt ⟨1, 24⟩] := by
  have names : clashing.typeNameIssues = [] := clashing.typeNameIssues_eq_nil_iff.mpr (by decide)
  have finite : clashing.recursionIssues = [] := by cbv
  have body : clashing.definitions.flatMap Definition.bodyIssues =
      [(Cause.duplicateFieldId 0 "b" "a" "M").issueAt ⟨1, 24⟩] := by
    change Definition.fieldIssues _ _ ++ [] = _
    rw [Definition.fieldIssues, earlier_eq_firstBefore, earlier_eq_firstBefore]
    decide
  rw [issues, names, finite, body]
  rfl

/-- With an id the text is accepted, and with the number it is not the number alone that is
reported. -/
theorem ofTokens_misnumbered_twice :
    ofTokens (crossedFront ++ ⟨.number, "1", 20, ⟨1, 21⟩⟩ :: crossedBack) = .ok crossed ∧
    ofTokens (crossedFront ++ ⟨.number, "65536", 20, ⟨1, 21⟩⟩ :: crossedBack) =
      .error ⟨[(Cause.malformedId "65536" "a").issueAt ⟨1, 21⟩,
        (Cause.duplicateFieldId 0 "b" "a" "M").issueAt ⟨1, 24⟩]⟩ := by
  refine ⟨crossed_accepted, ?_⟩
  have read : Parser.document (crossedFront ++ ⟨.number, "65536", 20, ⟨1, 21⟩⟩ :: crossedBack) =
      (clashing, [(Cause.malformedId "65536" "a").issueAt ⟨1, 21⟩]) := by decide +kernel
  have known : clashing.unresolvedIssues = [] := by decide
  have resolved : clashing.resolve = clashing := by decide
  rw [ofTokens, read]
  dsimp only
  rw [issuesOf, known, resolved, clashing_issues, if_neg (by simp), Report.ofIssues,
    List.mergeSort_of_pairwise (by decide)]
  rfl

theorem ofTokens_misnumbered_crossed :
    ofTokens (crossedFront ++ ⟨.number, "1", 20, ⟨1, 21⟩⟩ :: crossedBack) = .ok crossed ∧
    ∃ x : Focus, x.schema = crossed ∧
      Parser.Numbers ⟨.number, "1", 20, ⟨1, 21⟩⟩ crossedFront crossedBack x.before.length x.field ∧
      ∃ more, x.Clash more ∧
        ofTokens (crossedFront ++ ⟨.number, "65536", 20, ⟨1, 21⟩⟩ :: crossedBack) =
          .error (Report.ofIssues
            ((Cause.malformedId "65536" x.field.name).issueAt ⟨1, 21⟩ :: more)) := by
  have spelled : readUnsigned? "65536".toList = some 65536 := by decide
  have beyond : ∀ n, readUnsigned? "65536".toList = some n → 65535 < n := by
    intro n read
    rw [← Option.some.inj (spelled.symm.trans read)]
    decide
  exact ⟨crossed_accepted,
    ofTokens_misnumbered crossed_accepted rfl (by decide) (by decide) beyond⟩

end Schema

end WireSchema
