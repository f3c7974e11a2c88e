import Mathlib.Data.List.Forall2
import WireSchema.Proofs.Declarations
import WireSchema.Proofs.Source

/-!
The words of generated code. A line that is no comment is made of names that come from the schema
and of words that the generator has for its own ends, which are few and known. Words do not run into
each other: a text that is put together at blanks and marks has the words of its parts.
-/

namespace WireSchema.Code

open Text Token Token.Rule

/-! What generated code has for its own ends. -/

/-- The keywords that generated code has, and the pattern that takes anything. -/
def ownKeywords : List String :=
  [ "_", "self", "pub", "fn", "let", "mut", "for", "impl", "const", "if", "else", "in", "as",
    "match", "return", "while", "use", "mod", "struct", "enum", "type", "true", "false" ]

def ownTypes : List String :=
  [ "Self", "usize", "u8", "u16", "i32", "Vec", "Option", "Result", "String", "ByteBuffer",
    "ByteBufferMut", "DecodeError", "EncodeError", "Message", "Default", "From", "TryFrom", "bool",
    "i8", "i16", "u32", "i64", "u64", "f32", "f64" ]

/-- What the types share their scope with: the library of the runtime, and what is used from it by
a name of its own. -/
def ownImports : List String := ["brine_nsd", "size", "utf16_len"]

def ownConstants : List String := ["FIELD_COUNT", "MIN_SIZE"]

def ownLocals : List String :=
  [ "reader", "writer", "value", "length", "reads_completed", "r", "item", "buffer", "offset", "id",
    "position", "message" ]

/-- What a variant of an enum could be taken for: the type of errors that its conversion from
numbers has. -/
def ownAssociated : List String := ["Error"]

/-- What is behind a dot or a path, or declared to be there. -/
def ownMembers : List String :=
  [ "FIELD_HEADER_LEN", "ARRAY_HEADER_LEN", "OPTIONAL_FIELD_LEN", "BOOL_LEN", "BYTE_LEN",
    "SHORT_LEN", "CHAR_LEN", "INT_LEN", "FLOAT_LEN", "LONG_LEN", "DOUBLE_LEN", "ENUM_LEN",
    "UnknownField", "UnknownEnumValue", "type_name", "total_size", "len", "iter", "map", "sum",
    "is_some", "new", "from", "try_from", "default", "wire_size", "write_to", "read_from",
    "serialize", "serialize_into", "deserialize", "unpack", "write_fields", "read_fields", "finish",
    "bounded", "index", "remaining", "skip_message", "write_length", "write_presence",
    "write_field_id", "read_field_id", "read_array", "read_optional", "read_optional_message_into",
    "read_message_into", "read_enum", "write_enum", "read_message", "write_message", "read_bool",
    "write_bool", "read_byte", "write_byte", "read_sbyte", "write_sbyte", "read_i16", "write_i16",
    "read_u16", "write_u16", "read_i32", "write_i32", "read_u32", "write_u32", "read_i64",
    "write_i64", "read_u64", "write_u64", "read_f32", "write_f32", "read_f64", "write_f64",
    "read_string", "write_string", "read_char", "write_char" ]

def ownValues : List String := ["Ok", "Err", "Some"]

def ownMacros : List String :=
  [ "derive", "Debug", "Clone", "Copy", "PartialEq", "Eq", "Hash", "repr", "allow", "clippy",
    "too_many_arguments", "unused_imports", "vec" ]

def ownWords : List String :=
  ownKeywords ++ ownTypes ++ ownImports ++ ownLocals ++ ownValues ++ ownConstants ++
    ownAssociated ++ ownMembers ++ ownMacros

set_option maxRecDepth 2000 in
/-- The own words letter by letter. They are spelled out once, as taking texts apart is slow. -/
def ownTable : { table : List (List Char) //
    List.Forall₂ (fun word letters => word = String.ofList letters) ownWords table } :=
  ⟨_, by
    simp only [ownWords, ownKeywords, ownTypes, ownImports, ownLocals, ownValues, ownConstants,
      ownAssociated, ownMembers, ownMacros, List.cons_append, List.nil_append]
    repeat (apply List.Forall₂.cons; exact rfl)
    exact .nil⟩

theorem mem_ownWords_iff {word : String} : word ∈ ownWords ↔ word.toList ∈ ownTable.val := by
  have same : ownWords = ownTable.val.map String.ofList := by
    have each := List.forall₂_map_right_iff.mpr ownTable.property
    rwa [List.forall₂_eq_eq_eq] at each
  have inside : word ∈ ownWords ↔ word ∈ ownTable.val.map String.ofList := by rw [← same]
  rw [inside, List.mem_map]
  constructor
  · rintro ⟨letters, inside, rfl⟩
    rwa [String.toList_ofList]
  · exact fun inside => ⟨_, inside, String.ofList_toList⟩

/-! Words. -/

def wordsIn (text : List Char) : List (List Char) :=
  (text.splitOnP fun c => !isNamePart c).filter (· ≠ [])

def isNumeral (word : String) : Bool := word.toList.head?.any Char.isDigit

/-- All words are numbers, the generator's own or known. -/
def Worded (known : String → Prop) (text : String) : Prop :=
  ∀ word ∈ (wordsIn text.toList).map String.ofList,
    isNumeral word = true ∨ word ∈ ownWords ∨ known word

def isFixed (text : List Char) : Bool :=
  (wordsIn text).all fun word => word.head?.any Char.isDigit || ownTable.val.contains word

/-- Whether no word can run on behind the text. -/
def closes (text : List Char) : Bool := text.getLast?.any fun c => !isNamePart c

/-- Whether no word can run on into the text. -/
def opens (text : List Char) : Bool := text.head?.any fun c => !isNamePart c

section

variable {known : String → Prop} {text front next rest header : String}

/-- A character that is in no word keeps words apart. -/
theorem wordsIn_append_cons {c : Char} (stop : isNamePart c = false) (before after : List Char) :
    wordsIn (before ++ c :: after) = wordsIn before ++ wordsIn after := by
  rw [wordsIn, List.splitOnP_append_cons before after (by simp [stop]), List.filter_append]
  rfl

theorem wordsIn_cons {c : Char} (stop : isNamePart c = false) (after : List Char) :
    wordsIn (c :: after) = wordsIn after :=
  wordsIn_append_cons stop [] after

theorem wordsIn_concat {c : Char} (stop : isNamePart c = false) (before : List Char) :
    wordsIn (before ++ [c]) = wordsIn before := by
  rw [wordsIn_append_cons stop]
  exact List.append_nil _

theorem wordsIn_append_of_closes {before : List Char} (closed : closes before = true)
    (after : List Char) : wordsIn (before ++ after) = wordsIn before ++ wordsIn after := by
  obtain ⟨c, last, stop⟩ := (Option.any_eq_true _ _).mp closed
  obtain ⟨init, rfl⟩ := List.getLast?_eq_some_iff.mp last
  rw [Bool.not_eq_true'] at stop
  rw [List.append_assoc, List.singleton_append, wordsIn_append_cons stop, wordsIn_concat stop]

theorem wordsIn_append_of_opens {after : List Char} (opened : opens after = true)
    (before : List Char) : wordsIn (before ++ after) = wordsIn before ++ wordsIn after := by
  obtain ⟨c, first, stop⟩ := (Option.any_eq_true _ _).mp opened
  obtain ⟨tail, rfl⟩ := List.head?_eq_some_iff.mp first
  rw [Bool.not_eq_true'] at stop
  rw [wordsIn_append_cons stop, wordsIn_cons stop]

theorem wordsIn_of_parts {word : List Char} (parts : Parts word) (solid : word ≠ []) :
    wordsIn word = [word] := by
  rw [wordsIn, List.splitOnP_eq_singleton fun c inside => by rw [parts c inside]; rfl]
  exact List.filter_eq_self.mpr (by simpa using solid)

theorem worded_of_parts (parts : Parts text.toList)
    (word : isNumeral text = true ∨ text ∈ ownWords ∨ known text) : Worded known text := by
  intro word' member
  by_cases solid : text.toList = []
  · rw [solid] at member
    cases member
  · rw [wordsIn_of_parts parts solid, List.map_singleton, List.mem_singleton,
      String.ofList_toList] at member
    rwa [member]

@[simp] theorem worded_of_isFixed (fixed : isFixed text.toList = true) : Worded known text := by
  intro word member
  obtain ⟨letters, inside, rfl⟩ := List.mem_map.mp member
  rw [isNumeral, String.toList_ofList]
  rcases (Bool.or_eq_true _ _).mp (List.all_eq_true.mp fixed letters inside) with digit | own
  · exact .inl digit
  · rw [List.contains_iff_mem] at own
    exact .inr (.inl (mem_ownWords_iff.mpr (by rwa [String.toList_ofList])))

/-- Texts that do not run into each other are worded if both are. -/
theorem worded_append {before after : String}
    (apart : wordsIn (before.toList ++ after.toList) =
      wordsIn before.toList ++ wordsIn after.toList) :
    Worded known (before ++ after) ↔ Worded known before ∧ Worded known after := by
  rw [Worded, String.toList_append, apart, List.map_append]
  exact List.forall_mem_append

@[simp] theorem worded_append_of_closes (closed : closes front.toList = true) :
    Worded known (front ++ rest) ↔ Worded known front ∧ Worded known rest :=
  worded_append (wordsIn_append_of_closes closed _)

@[simp] theorem worded_append_of_opens (opened : opens next.toList = true) :
    Worded known (text ++ next) ↔ Worded known text ∧ Worded known next :=
  worded_append (wordsIn_append_of_opens opened _)

@[simp] theorem worded_append_of_opens_append (opened : opens next.toList = true) :
    Worded known (text ++ (next ++ rest)) ↔ Worded known text ∧ Worded known (next ++ rest) := by
  apply worded_append_of_opens
  obtain ⟨c, first, stop⟩ := (Option.any_eq_true _ _).mp opened
  rw [opens, String.toList_append, List.head?_append, first]
  exact stop

@[simp] theorem worded_append_assoc : Worded known (text ++ next ++ rest) ↔
    Worded known (text ++ (next ++ rest)) := by
  rw [String.append_assoc]

theorem worded_opened : Worded known (opened header) ↔ Worded known header := by
  have brace : Worded known " \x7b" := worded_of_isFixed (by decide)
  rw [opened]
  split
  next empty =>
    rw [String.isEmpty_iff.mp empty]
    exact ⟨fun _ => worded_of_isFixed (by decide), fun _ => worded_of_isFixed (by decide)⟩
  next =>
    rw [worded_append_of_opens (by decide)]
    exact and_iff_left brace

/-- Worded texts may be listed with fixed text between them. -/
theorem worded_intercalate {separator : String} (fixed : isFixed separator.toList = true)
    (opened : opens separator.toList = true) (closed : closes separator.toList = true)
    {texts : List String} (each : ∀ text ∈ texts, Worded known text) :
    Worded known (String.intercalate separator texts) := by
  induction texts with
  | nil =>
    have none : Worded known "" := worded_of_isFixed (by decide)
    exact none
  | cons text texts ih =>
    obtain ⟨here, each⟩ := List.forall_mem_cons.mp each
    cases texts with
    | nil => exact here
    | cons text' texts =>
      rw [String.intercalate_cons_cons, String.append_assoc, worded_append_of_opens_append opened,
        worded_append_of_closes closed]
      exact ⟨here, worded_of_isFixed fixed, ih each⟩

end

/-! The lines of steps. -/

/-- A line that is a comment, which may say anything. -/
def Remark (line : String) : Prop := isComment line.toList = true

/-- All lines are comments or say nothing but what is known. -/
def Tells (known : String → Prop) (steps : List Step) : Prop :=
  ∀ line ∈ Step.writtenAll steps, Remark line ∨ Worded known line

section

variable {known : String → Prop}

@[simp] theorem tells_nil : Tells known [] := nofun

@[simp] theorem remark_of_isComment {line : String} (comment : isComment line.toList = true) :
    Remark line :=
  comment

theorem tells_cons {s : Step} {steps : List Step} : Tells known (s :: steps) ↔
    (∀ line ∈ s.written, Remark line ∨ Worded known line) ∧ Tells known steps := by
  rw [Tells, Step.writtenAll]
  exact List.forall_mem_append

@[simp] theorem tells_append {steps later : List Step} :
    Tells known (steps ++ later) ↔ Tells known steps ∧ Tells known later := by
  induction steps with
  | nil => exact (and_iff_right tells_nil).symm
  | cons s steps ih => rw [List.cons_append, tells_cons, tells_cons, ih, and_assoc]

@[simp] theorem tells_line {line : String} {steps : List Step} : Tells known (.line line :: steps) ↔
    (Remark line ∨ Worded known line) ∧ Tells known steps := by
  rw [tells_cons, Step.written, List.forall_mem_singleton]

@[simp] theorem tells_blank {steps : List Step} : Tells known (.blank :: steps) ↔ Tells known steps := by
  rw [tells_cons, Step.written, List.forall_mem_singleton]
  exact and_iff_right (.inr (worded_of_isFixed (by decide)))

@[simp] theorem tells_enter {header : String} {steps : List Step} :
    Tells known (.enter header :: steps) ↔
      (Remark (opened header) ∨ Worded known header) ∧ Tells known steps := by
  rw [tells_cons, Step.written, List.forall_mem_singleton, worded_opened]

theorem worded_brace : Worded known "\x7d" := worded_of_isFixed (by decide)

@[simp] theorem tells_leave {steps : List Step} : Tells known (.leave :: steps) ↔ Tells known steps := by
  rw [tells_cons, Step.written, List.forall_mem_singleton]
  exact and_iff_right (.inr worded_brace)

@[simp] theorem tells_reenter {header : String} {steps : List Step} :
    Tells known (.reenter header :: steps) ↔ Worded known header ∧ Tells known steps := by
  have plain : ¬ Remark ("\x7d " ++ header ++ " \x7b") := by
    rw [Remark, String.toList_append, String.toList_append, String.toList_ofList]
    exact Bool.false_ne_true
  have front : Worded known "\x7d " := worded_of_isFixed (by decide)
  have back : Worded known " \x7b" := worded_of_isFixed (by decide)
  rw [tells_cons, Step.written, List.forall_mem_singleton, or_iff_right plain, String.append_assoc,
    worded_append_of_closes (by decide), worded_append_of_opens (by decide), and_iff_right front,
    and_iff_left back]

@[simp] theorem tells_block {header : String} {body steps : List Step} :
    Tells known (.block header body :: steps) ↔
      (Remark (opened header) ∨ Worded known header) ∧ Tells known body ∧
        Tells known steps := by
  have brace : Remark "\x7d" ∨ Worded known "\x7d" := .inr worded_brace
  rw [tells_cons, Step.written, List.forall_mem_cons, List.forall_mem_append,
    List.forall_mem_singleton, worded_opened, and_iff_left brace, and_assoc]
  rfl

@[simp] theorem tells_appended {body steps : List Step} :
    Tells known (.append body :: steps) ↔ Tells known body ∧ Tells known steps := by
  rw [tells_cons, Step.written]
  rfl

theorem tells_map {α : Type} {step : α → Step} {l : List α} :
    Tells known (l.map step) ↔ ∀ a ∈ l, Tells known [step a] := by
  induction l with
  | nil => exact iff_of_true tells_nil nofun
  | cons a l ih =>
    rw [List.map_cons, ← List.singleton_append, tells_append, ih, List.forall_mem_cons]

theorem tells_flatMap {α : Type} {steps : α → List Step} {l : List α} :
    Tells known (l.flatMap steps) ↔ ∀ a ∈ l, Tells known (steps a) := by
  induction l with
  | nil => exact iff_of_true tells_nil nofun
  | cons a l ih => rw [List.flatMap_cons, tells_append, ih, List.forall_mem_cons]

theorem tells_intersperse_blank {steps : List Step} :
    Tells known (steps.intersperse .blank) ↔ Tells known steps := by
  induction steps with
  | nil => rfl
  | cons s steps ih =>
    cases steps with
    | nil => rfl
    | cons s' steps =>
      rw [List.intersperse_cons_cons, tells_cons, tells_blank, ih, ← tells_cons]

end

end WireSchema.Code
