import WireSchema.Proofs.Naming

/-!
Lines of generated code. A line that declares a name has one of a few forms, and the name can be
read back from it. Whether a line has such a form shows at its front, and for variants at its end
too: no name can make a line a declaration that is written as something else.
-/

namespace WireSchema.Code

open Text Token Token.Rule

variable {name rest text more : List Char}

inductive Role where
  | module | type | field | id | minLength | flag | variant
  deriving DecidableEq

/-- How a declaration is written: the words before the name, what follows the name at once, and how
the line ends. -/
structure Form where
  role : Role
  words : List String
  after : String
  ending : String

def forms : List Form :=
  [ ⟨.field, ["pub"], ": ", ""⟩,
    ⟨.module, ["pub", "mod"], " \x7b", ""⟩,
    ⟨.type, ["pub", "struct"], " \x7b", ""⟩,
    ⟨.type, ["pub", "enum"], " \x7b", ""⟩,
    ⟨.id, ["pub", "const"], ": u16 = ", ""⟩,
    ⟨.minLength, ["const"], ": usize = ", ""⟩,
    ⟨.flag, ["let", "mut"], " = false;", ""⟩,
    -- without words in front, only its end tells it from an assignment
    ⟨.variant, [], " = ", ","⟩ ]

def nameAfter? (after : List Char) : List String → List Char → Option String
  | [], text =>
    if after.isPrefixOf (text.dropWhile isNamePart) then
      some (String.ofList (text.takeWhile isNamePart))
    else none
  | word :: words, text =>
    if text.takeWhile isNamePart = word.toList ∧ (text.dropWhile isNamePart).head? = some ' ' then
      nameAfter? after words (text.dropWhile isNamePart).tail
    else none

def Form.read (form : Form) (text : List Char) : Option (Role × String) :=
  if form.ending.toList.isSuffixOf text then
    (nameAfter? form.after.toList form.words text).map fun name => (form.role, name)
  else none

/-- What a line declares, if it has one of the forms. -/
def declaration? (line : String) : Option (Role × String) :=
  forms.findSome? fun form => form.read line.toList

def opened (header : String) : String := if header.isEmpty then "\x7b" else header ++ " \x7b"

/-! Reading one line. -/

/-- A name is read as far as its characters go. -/
theorem takeWhile_parts (parts : Parts name) (ends : Ends isNamePart rest) :
    (name ++ rest).takeWhile isNamePart = name := by
  rw [takeWhile_append_ends ends, List.takeWhile_eq_self_iff]
  exact parts

theorem dropWhile_parts (parts : Parts name) (ends : Ends isNamePart rest) :
    (name ++ rest).dropWhile isNamePart = rest := by
  rw [dropWhile_append_ends ends, List.dropWhile_eq_nil_iff.mpr parts, List.nil_append]

theorem ends_blank (text : List Char) : Ends isNamePart (' ' :: text) := ends_cons.mpr (by decide)

theorem nameAfter?_nil {after : List Char} (parts : Parts name) (ends : Ends isNamePart rest) :
    nameAfter? after [] (name ++ rest) =
      if after.isPrefixOf rest then some (String.ofList name) else none := by
  rw [nameAfter?, takeWhile_parts parts ends, dropWhile_parts parts ends]

theorem nameAfter?_cons {after : List Char} {word : String} {words : List String}
    (parts : Parts word.toList) (text : List Char) :
    nameAfter? after (word :: words) (word.toList ++ ' ' :: text) =
      nameAfter? after words text := by
  rw [nameAfter?, takeWhile_parts parts (ends_blank text), dropWhile_parts parts (ends_blank text)]
  exact if_pos ⟨rfl, rfl⟩

/-- Where another word stands, the form is not met. -/
theorem nameAfter?_of_ne {after : List Char} {word : String} {words : List String}
    (parts : Parts name) (ends : Ends isNamePart rest) (other : name ≠ word.toList) :
    nameAfter? after (word :: words) (name ++ rest) = none := by
  rw [nameAfter?, takeWhile_parts parts ends]
  exact if_neg fun same => other same.1

/-- Whether no text with this front has a name behind the words. -/
def settled (after : List Char) : List String → List Char → Bool
  | [], front =>
    !(after.isPrefixOf (front.dropWhile isNamePart)) &&
      !((front.dropWhile isNamePart).isPrefixOf after)
  | word :: words, front =>
    !(front.dropWhile isNamePart).isEmpty &&
      (front.takeWhile isNamePart != word.toList ||
        (front.dropWhile isNamePart).head? != some ' ' ||
        settled after words (front.dropWhile isNamePart).tail)

/-- The first word of a front that goes on behind it, whatever comes next. -/
theorem exists_of_dropWhile_ne_nil {front : List Char}
    (goesOn : front.dropWhile isNamePart ≠ []) (more : List Char) :
    ∃ name rest, front.takeWhile isNamePart = name ∧ front.dropWhile isNamePart = rest ∧
      front ++ more = name ++ (rest ++ more) ∧ Parts name ∧ Ends isNamePart (rest ++ more) := by
  refine ⟨_, _, rfl, rfl, ?_, fun c member => List.mem_takeWhile_imp member, ?_⟩
  · rw [← List.append_assoc, List.takeWhile_append_dropWhile]
  · have ends := ends_dropWhile isNamePart front
    cases rest : front.dropWhile isNamePart with
    | nil => exact absurd rest goesOn
    | cons c rest' =>
      rw [rest] at ends
      exact ends_cons.mpr (ends_cons.mp ends)

/-- A beginning that settles the matter does so before any rest. -/
theorem nameAfter?_of_settled {after front : List Char} {words : List String}
    (done : settled after words front = true) (more : List Char) :
    nameAfter? after words (front ++ more) = none := by
  induction words generalizing front with
  | nil =>
    rw [settled, Bool.and_eq_true, Bool.not_eq_true', Bool.not_eq_true',
      ← Bool.not_eq_true, ← Bool.not_eq_true, List.isPrefixOf_iff_prefix,
      List.isPrefixOf_iff_prefix] at done
    obtain ⟨longer, shorter⟩ := done
    have goesOn : front.dropWhile isNamePart ≠ [] := by
      intro none
      rw [none] at shorter
      exact shorter List.nil_prefix
    obtain ⟨name, rest, -, same, whole, parts, ends⟩ := exists_of_dropWhile_ne_nil goesOn more
    rw [same] at longer shorter
    rw [whole, nameAfter?_nil parts ends, if_neg]
    rw [List.isPrefixOf_iff_prefix]
    intro starts
    have either := List.prefix_or_prefix_of_prefix starts (List.prefix_append rest more)
    exact either.elim longer shorter
  | cons word words ih =>
    rw [settled, Bool.and_eq_true, Bool.not_eq_true', List.isEmpty_eq_false_iff] at done
    obtain ⟨goesOn, done⟩ := done
    obtain ⟨name, rest, first, same, whole, parts, ends⟩ := exists_of_dropWhile_ne_nil goesOn more
    rw [first, same, Bool.or_eq_true, Bool.or_eq_true, bne_iff_ne, bne_iff_ne] at done
    rw [same] at goesOn
    rw [whole, nameAfter?, takeWhile_parts parts ends, dropWhile_parts parts ends,
      List.head?_append_of_ne_nil _ goesOn, List.tail_append_of_ne_nil goesOn]
    split
    next both =>
      obtain ⟨other | other⟩ | later := done
      · exact absurd both.1 other
      · exact absurd both.2 other
      · exact ih later
    next => rfl

/-- Whether no line with this front and this back declares anything. -/
def silent (front back : List Char) : Bool :=
  forms.all fun form => settled form.after.toList form.words front ||
    (!form.ending.toList.isSuffixOf back && !back.isSuffixOf form.ending.toList)

/-- A line that is silent at both ends declares nothing, whatever stands between. -/
theorem declaration?_of_silent {front back : String}
    (done : silent front.toList back.toList = true) (middle : String) :
    declaration? (front ++ (middle ++ back)) = none := by
  rw [declaration?, List.findSome?_eq_none_iff]
  intro form member
  rw [Form.read]
  split
  next ends =>
    rcases (Bool.or_eq_true _ _).mp (List.all_eq_true.mp done form member) with front | back
    · rw [String.toList_append, nameAfter?_of_settled front]
      rfl
    · rw [Bool.and_eq_true, Bool.not_eq_true', Bool.not_eq_true', ← Bool.not_eq_true,
        ← Bool.not_eq_true, List.isSuffixOf_iff_suffix, List.isSuffixOf_iff_suffix] at back
      rw [List.isSuffixOf_iff_suffix, String.toList_append, String.toList_append,
        ← List.append_assoc] at ends
      exact ((List.suffix_or_suffix_of_suffix ends (List.suffix_append _ _)).elim
        back.1 back.2).elim
  next => rfl

/-- Opening a block puts a brace behind the header. -/
theorem declaration?_opened (header : String) :
    declaration? (opened header) = declaration? (header ++ " \x7b") := by
  rw [opened]
  split
  next empty =>
    rw [String.isEmpty_iff.mp empty]
    decide
  next => rfl

theorem declaration?_opened_of_front {front : String}
    (done : silent front.toList [' ', '\x7b'] = true) (more : String) :
    declaration? (opened (front ++ more)) = none := by
  have brace : " \x7b".toList = [' ', '\x7b'] := String.toList_ofList
  rw [declaration?_opened, String.append_assoc]
  exact declaration?_of_silent (by rwa [brace]) more

theorem declaration?_of_front {front : String} (done : silent front.toList [] = true)
    (more : String) : declaration? (front ++ more) = none := by
  have nothing : "".toList = [] := String.toList_ofList
  rw [← nothing] at done
  have read := declaration?_of_silent done more
  rwa [String.append_empty] at read

theorem declaration?_of_all {line : String}
    (none : (forms.all fun form => (form.read line.toList).isNone) = true) :
    declaration? line = Option.none := by
  rw [declaration?, List.findSome?_eq_none_iff]
  exact fun form member => Option.isNone_iff_eq_none.mp (List.all_eq_true.mp none form member)

theorem declaration?_opened_of_all {header : String}
    (none : (forms.all fun form => (form.read (header.toList ++ [' ', '\x7b'])).isNone) = true) :
    declaration? (opened header) = Option.none := by
  have brace : " \x7b".toList = [' ', '\x7b'] := String.toList_ofList
  rw [declaration?_opened]
  apply declaration?_of_all
  rwa [String.toList_append, brace]

theorem parts_of_mem_words {form : Form} (member : form ∈ forms) {word : String}
    (inside : word ∈ form.words) : Parts word.toList := by
  have all : (forms.all fun form =>
      form.words.all fun word => word.toList.all isNamePart) = true := by decide
  exact List.all_eq_true.mp (List.all_eq_true.mp (List.all_eq_true.mp all form member) word inside)

/-- The words of a form are passed over one by one. -/
theorem nameAfter?_opening {form : Form} (member : form ∈ forms) {words : List String}
    (inside : words ⊆ form.words) (after text : List Char) :
    nameAfter? after words ((words.flatMap fun word => word.toList ++ [' ']) ++ text) =
      nameAfter? after [] text := by
  induction words with
  | nil => rfl
  | cons word words ih =>
    obtain ⟨here, inside⟩ := List.cons_subset.mp inside
    rw [List.flatMap_cons, List.append_assoc, List.append_assoc, List.singleton_append,
      nameAfter?_cons (parts_of_mem_words member here), ih inside]

/-- A line that is written in a form, where no form before it fits, declares its name. -/
theorem declaration?_of_form {i : Nat} {form : Form} {opening name more : String}
    (found : forms[i]? = some form) (whole : form.ending = "")
    (opens : opening.toList = form.words.flatMap fun word => word.toList ++ [' '])
    (others : ((forms.take i).all fun form =>
      settled form.after.toList form.words opening.toList) = true)
    (parts : Parts name.toList) (starts : form.after.toList <+: more.toList) :
    declaration? (opening ++ (name ++ more)) = some (form.role, name) := by
  have member : form ∈ forms := List.mem_of_getElem? found
  have stops : (forms.all fun form => form.after.toList.head?.any (!isNamePart ·)) = true := by
    decide
  have ends : Ends isNamePart more.toList := by
    obtain ⟨rest, rest'⟩ := starts
    have stop := List.all_eq_true.mp stops form member
    cases after : form.after.toList with
    | nil => rw [after] at stop; cases stop
    | cons c after' =>
      rw [after] at stop rest'
      rw [← rest', List.cons_append, ends_cons]
      simpa using stop
  have before : (forms.take i).findSome?
      (fun form => form.read (opening ++ (name ++ more)).toList) = none := by
    rw [List.findSome?_eq_none_iff]
    intro earlier member
    rw [Form.read, String.toList_append,
      nameAfter?_of_settled (List.all_eq_true.mp others earlier member)]
    split <;> rfl
  have here : form.read (opening ++ (name ++ more)).toList = some (form.role, name) := by
    rw [Form.read, whole, if_pos (by simp), String.toList_append, opens,
      nameAfter?_opening member (List.Subset.refl _), String.toList_append,
      nameAfter?_nil parts ends, if_pos (List.isPrefixOf_iff_prefix.mpr starts),
      String.ofList_toList]
    rfl
  have split : forms = forms.take i ++ form :: forms.drop (i + 1) := by
    obtain ⟨inside, rfl⟩ := List.getElem?_eq_some_iff.mp found
    rw [← List.drop_eq_getElem_cons inside, List.take_append_drop]
  rw [declaration?, split, List.findSome?_append, before, Option.none_or, List.findSome?_cons, here]

/-- The words that a declaration can begin with, all of them keywords. -/
def leads : List String := ["pub", "const", "let"]

theorem IsName.notMem_leads {name : String} (named : IsName name) : name ∉ leads := by
  have inside : leads ⊆ keywords := by decide
  exact fun member => named.free (inside member)

/-- A line that begins with a name and none of these words declares a variant or nothing. -/
theorem declaration?_of_word {name rest : String} (parts : Parts name.toList)
    (ends : Ends isNamePart rest.toList) (free : name ∉ leads) :
    declaration? (name ++ rest) =
      if ",".toList.isSuffixOf (name ++ rest).toList ∧ " = ".toList.isPrefixOf rest.toList then
        some (.variant, name) else none := by
  have worded : (forms.dropLast.all fun form => form.words.head?.any leads.contains) = true := by
    decide
  have before : forms.dropLast.findSome? (fun form => form.read (name ++ rest).toList) = none := by
    rw [List.findSome?_eq_none_iff]
    intro form member
    have first := List.all_eq_true.mp worded form member
    rw [Form.read]
    cases words : form.words with
    | nil => rw [words] at first; cases first
    | cons word words' =>
      rw [words] at first
      have other : name.toList ≠ word.toList := by
        intro same
        rw [String.toList_inj.mp same] at free
        exact free (List.contains_iff_mem.mp first)
      rw [String.toList_append, nameAfter?_of_ne parts ends other]
      split <;> rfl
  have split : forms = forms.dropLast ++ [⟨.variant, [], " = ", ","⟩] := rfl
  rw [declaration?, split, List.findSome?_append, before, Option.none_or, List.findSome?_singleton,
    Form.read, String.toList_append, nameAfter?_nil parts ends, String.ofList_toList, ite_and]
  split
  · split <;> rfl
  · rfl

/-! The lines that declare. -/

section

variable {name : String}

theorem prefix_toList_append (front more : String) : front.toList <+: (front ++ more).toList := by
  rw [String.toList_append]
  exact List.prefix_append _ _

theorem suffix_toList_append (front back : String) : back.toList <:+ (front ++ back).toList := by
  rw [String.toList_append]
  exact List.suffix_append _ _

theorem declaration?_field (parts : Parts name.toList) (more : String) :
    declaration? ("pub " ++ (name ++ (": " ++ more))) = some (.field, name) :=
  declaration?_of_form (i := 0) rfl rfl (by decide) (by decide) parts
    (prefix_toList_append _ _)

theorem declaration?_module (parts : Parts name.toList) :
    declaration? (opened ("pub mod " ++ name)) = some (.module, name) := by
  rw [declaration?_opened, String.append_assoc]
  exact declaration?_of_form (i := 1) rfl rfl (by decide) (by decide) parts
    List.prefix_rfl

theorem declaration?_struct (parts : Parts name.toList) :
    declaration? (opened ("pub struct " ++ name)) = some (.type, name) := by
  rw [declaration?_opened, String.append_assoc]
  exact declaration?_of_form (i := 2) rfl rfl (by decide) (by decide) parts
    List.prefix_rfl

theorem declaration?_enum (parts : Parts name.toList) :
    declaration? (opened ("pub enum " ++ name)) = some (.type, name) := by
  rw [declaration?_opened, String.append_assoc]
  exact declaration?_of_form (i := 3) rfl rfl (by decide) (by decide) parts
    List.prefix_rfl

theorem declaration?_id (parts : Parts name.toList) (more : String) :
    declaration? ("pub const " ++ (name ++ (": u16 = " ++ more))) = some (.id, name) :=
  declaration?_of_form (i := 4) rfl rfl (by decide) (by decide) parts
    (prefix_toList_append _ _)

theorem declaration?_minLength (parts : Parts name.toList) (more : String) :
    declaration? ("const " ++ (name ++ (": usize = " ++ more))) = some (.minLength, name) :=
  declaration?_of_form (i := 5) rfl rfl (by decide) (by decide) parts
    (prefix_toList_append _ _)

theorem declaration?_flag (parts : Parts name.toList) :
    declaration? ("let mut " ++ (name ++ " = false;")) = some (.flag, name) :=
  declaration?_of_form (i := 6) rfl rfl (by decide) (by decide) parts
    List.prefix_rfl

/-- A variant is a name that none of the forms leads with. -/
theorem declaration?_variant (named : IsName name) (value : String) :
    declaration? (name ++ (" = " ++ (value ++ ","))) = some (.variant, name) := by
  have ends : Ends isNamePart (" = " ++ (value ++ ",")).toList := by
    rw [String.toList_append]
    exact ends_blank _
  rw [declaration?_of_word named.parts ends named.notMem_leads, if_pos]
  constructor
  · rw [List.isSuffixOf_iff_suffix, ← String.append_assoc, ← String.append_assoc,
      String.toList_append]
    exact List.suffix_append _ _
  · exact List.isPrefixOf_iff_prefix.mpr (prefix_toList_append _ _)

/-! Lines that begin with a name and do not declare it. -/

/-- A name in a list of names declares nothing. -/
theorem declaration?_member (named : IsName name) : declaration? (name ++ ",") = none := by
  have ends : Ends isNamePart ",".toList := ends_cons.mpr (by decide)
  have bare : " = ".toList.isPrefixOf ",".toList = false := by decide
  rw [declaration?_of_word named.parts ends named.notMem_leads, if_neg]
  rw [bare]
  exact fun both => nomatch both.2

theorem readFlag_notMem_leads (f : Field) : readFlag f ∉ leads := by
  have others : ∀ word ∈ leads, ¬ "_read".toList <:+ word.toList := by decide
  exact fun lead => others _ lead (suffix_toList_append _ _)

/-- Setting a flag does not declare it. -/
theorem declaration?_assignment {f : Field} (parts : Parts (readFlag f).toList) :
    declaration? (readFlag f ++ " = true;") = none := by
  have ends : Ends isNamePart " = true;".toList := ends_blank _
  rw [declaration?_of_word parts ends (readFlag_notMem_leads f), if_neg]
  rintro ⟨back, -⟩
  rw [List.isSuffixOf_iff_suffix, String.toList_append] at back
  have short : ¬ ",".toList <:+ " = true;".toList ∧ ¬ " = true;".toList <:+ ",".toList := by decide
  exact (List.suffix_or_suffix_of_suffix back (List.suffix_append _ _)).elim short.1 short.2

theorem isDigit_of_mem_repr {n : Nat} {c : Char} (member : c ∈ (Nat.repr n).toList) :
    c.isDigit = true := by
  rw [Nat.repr, String.toList_ofList] at member
  exact Nat.isDigit_of_mem_toDigits (by decide) (by decide) member

theorem parts_repr (n : Nat) : Parts (Nat.repr n).toList := by
  intro c member
  simp [isNamePart, Char.isAlphanum, isDigit_of_mem_repr member]

/-- The pattern of a match is a number. -/
theorem declaration?_number (n : Int) (more : String) :
    declaration? (toString n ++ (" => Ok(" ++ more)) = none := by
  have ends : Ends isNamePart (" => Ok(" ++ more).toList := by
    rw [String.toList_append]
    exact ends_blank _
  cases n with
  | negSucc n =>
    have minus : toString (Int.negSucc n) = "-" ++ Nat.repr (n + 1) := rfl
    rw [minus, String.append_assoc]
    exact declaration?_of_front (by decide) _
  | ofNat n =>
    have free : Nat.repr n ∉ leads := by
      have words : (leads.all fun word => word.toList.any fun c => !c.isDigit) = true := by decide
      intro lead
      obtain ⟨c, member, other⟩ := List.any_eq_true.mp (List.all_eq_true.mp words _ lead)
      rw [isDigit_of_mem_repr member] at other
      cases other
    have digits : toString (Int.ofNat n) = Nat.repr n := rfl
    rw [digits, declaration?_of_word (parts_repr n) ends free, if_neg]
    rintro ⟨-, front⟩
    rw [List.isPrefixOf_iff_prefix, String.toList_append] at front
    have short : ¬ " = ".toList <+: " => Ok(".toList ∧ ¬ " => Ok(".toList <+: " = ".toList := by
      decide
    exact (List.prefix_or_prefix_of_prefix front (List.prefix_append _ _)).elim short.1 short.2

end

end WireSchema.Code
