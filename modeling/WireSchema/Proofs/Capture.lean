import WireSchema.Proofs.Wording

/-!
Names of a schema beside those of the generator. The words of generated code are numbers, words of
the generator and names that the code declares, so the own words are all that a declared name could
be taken for. No type is called as one that the code refers to, and no constant and no flag as
anything of the generator. Only a variant can be: `Error` then hides the errors of its enum.
-/

namespace WireSchema.Code

open Text Token Token.Rule

variable {s : Schema} {d : Definition} {f : Field} {name word : String}

/-- What a name of the given role could be taken for in the scope that it is declared in. Derived
traits and values are no types, and the members of other types have scopes of their own. A module
has the code inside it and nothing beside it, and a field is only reached through its struct. -/
def ownNames : Role → List String
  | .type => ownTypes ++ ownImports
  | .id | .minLength | .flag => ownWords
  | .variant => ownAssociated
  | .module | .field => []

/-! The front of a type's name. -/

def startsSmall (text : List Char) : Bool := text.head?.any Char.isLower

theorem startsSmall_append {before after : List Char} (front : startsSmall before = false)
    (back : startsSmall after = false) : startsSmall (before ++ after) = false := by
  cases before with
  | nil => exact back
  | cons c before => exact front

theorem startsSmall_flatMap {α : Type} {letters : α → List Char} {l : List α}
    (each : ∀ a ∈ l, startsSmall (letters a) = false) :
    startsSmall (l.flatMap letters) = false := by
  induction l with
  | nil => rfl
  | cons a l ih =>
    obtain ⟨here, each⟩ := List.forall_mem_cons.mp each
    rw [List.flatMap_cons]
    exact startsSmall_append here (ih each)

/-- A capitalized word does not start with a small letter. -/
theorem startsSmall_capitalize {lowerRest : Bool} {cs : List Char} (parts : Parts cs) :
    startsSmall (capitalize lowerRest cs) = false := by
  cases cs with
  | nil => rfl
  | cons c cs =>
    have part := (parts_cons.mp parts).1
    have capital : (upperChar c).head?.any (!·.isLower) = true :=
      forall_ascii (P := fun c => isNamePart c = true →
          (upperChar c).head?.any (!·.isLower) = true)
        (by decide) (toNat_lt_of_isNamePart part) part
    obtain ⟨u, first, other⟩ := (Option.any_eq_true _ _).mp capital
    rw [capitalize, startsSmall, List.head?_append, first]
    simpa using other

/-- No type of generated code starts with a small letter. -/
theorem startsSmall_typeIdent (parts : Parts name.toList) :
    startsSmall (typeIdent name).toList = false := by
  have whole : startsSmall (pascal name).toList = false := by
    rw [pascal, String.toList_ofList, pascalCase]
    split
    · apply startsSmall_flatMap
      intro piece member
      exact startsSmall_capitalize fun c inside =>
        parts c ((mem_splitOn (List.mem_of_mem_filter member)).2 inside)
    · exact startsSmall_capitalize parts
  rw [typeIdent, escapeKeyword]
  split
  · rw [String.toList_append]
    exact startsSmall_append whole (by decide)
  · exact whole

/-- What the types share their scope with is reserved, a keyword or begins with a small letter. -/
theorem typeIdent_notMem_ownNames (named : IsName (typeIdent name)) (parts : Parts name.toList)
    (unreserved : typeIdent name ∉ reservedTypeNames) : typeIdent name ∉ ownNames .type := by
  have covered : ∀ word ∈ ownNames .type, word ∈ reservedTypeNames ∨ word ∈ keywords ∨
      startsSmall word.toList = true := by decide
  intro own
  rcases covered _ own with reserved | keyword | small
  · exact unreserved reserved
  · exact named.free keyword
  · rw [startsSmall_typeIdent parts] at small
    cases small

/-! The back of a constant's or a flag's name. -/

/-- A name whose ending no own word has is none of them. -/
theorem append_notMem_ownWords {suffix : String}
    (free : (ownTable.val.any fun word => suffix.toList.isSuffixOf word) = false) (front : String) :
    front ++ suffix ∉ ownWords := by
  intro own
  rw [List.any_eq_false] at free
  apply free _ (mem_ownWords_iff.mp own)
  rw [List.isSuffixOf_iff_suffix]
  exact suffix_toList_append front suffix

/-- Constants of fields are no words of the generator. -/
theorem fieldConst_notMem_ownWords {suffix : String} (f : Field)
    (free : (ownTable.val.any fun word => ("_" ++ suffix).toList.isSuffixOf word) = false) :
    fieldConst f suffix ∉ ownWords := by
  rw [fieldConst, String.append_assoc]
  exact append_notMem_ownWords free _

/-- Neither are the flags of the read loop. -/
theorem readFlag_notMem_ownWords (f : Field) : readFlag f ∉ ownWords :=
  append_notMem_ownWords (by decide) _

/-- The endings of the two families of constants differ. -/
theorem fieldConst_ne (f g : Field) : fieldConst f "ID" ≠ fieldConst g "MIN_LEN" := by
  have apart : ¬ "_ID".toList <:+ "_MIN_LEN".toList ∧ ¬ "_MIN_LEN".toList <:+ "_ID".toList := by
    decide
  intro same
  have id : "_ID".toList <:+ (fieldConst f "ID").toList := by
    rw [fieldConst, String.append_assoc]
    exact suffix_toList_append _ _
  have minLength : "_MIN_LEN".toList <:+ (fieldConst f "ID").toList := by
    rw [same, fieldConst, String.append_assoc]
    exact suffix_toList_append _ _
  exact (List.suffix_or_suffix_of_suffix id minLength).elim apart.1 apart.2

/-! What the code of a definition declares, by role. -/

theorem mem_declared_type : (.type, word) ∈ declared d ↔ word = typeIdent d.name := by
  simp [declared]

theorem mem_declared_field :
    (.field, word) ∈ declared d ↔ ∃ f ∈ d.fields, fieldIdent f = word := by
  simp [declared]

theorem mem_declared_id :
    (.id, word) ∈ declared d ↔ ∃ f ∈ d.fields, fieldConst f "ID" = word := by
  simp [declared]

theorem mem_declared_minLength : (.minLength, word) ∈ declared d ↔
    ∃ f, (f ∈ d.fields ∧ f.isOptional = false) ∧ fieldConst f "MIN_LEN" = word := by
  simp [declared]

theorem mem_declared_flag : (.flag, word) ∈ declared d ↔ ∃ f ∈ d.fields, readFlag f = word := by
  simp [declared]

theorem mem_declared_variant :
    (.variant, word) ∈ declared d ↔ ∃ e ∈ d.entries, variantIdent e.name = word := by
  simp [declared]

/-- Only as a variant can a name that the code declares be taken for one of the generator. -/
theorem uncaptured (lettered : Lettered d) (named : WellNamed d) {role : Role}
    (member : (role, word) ∈ declared d) (own : word ∈ ownNames role) :
    role = .variant ∧ word = "Error" := by
  cases role with
  | module => cases own
  | field => cases own
  | type =>
    rw [mem_declared_type.mp member] at own
    exact absurd own (typeIdent_notMem_ownNames named.type lettered.name named.unreserved)
  | id =>
    obtain ⟨f, -, rfl⟩ := mem_declared_id.mp member
    exact absurd own (fieldConst_notMem_ownWords f (by decide))
  | minLength =>
    obtain ⟨f, -, rfl⟩ := mem_declared_minLength.mp member
    exact absurd own (fieldConst_notMem_ownWords f (by decide))
  | flag =>
    obtain ⟨f, -, rfl⟩ := mem_declared_flag.mp member
    exact absurd own (readFlag_notMem_ownWords f)
  | variant => exact ⟨rfl, List.mem_singleton.mp own⟩

/-! The words of a document. -/

/-- The names of built-in types are words of the generator. -/
theorem worded_rustPrimitive {known : String → Prop} (p : Primitive) :
    Worded known (rustPrimitive p) := by
  cases p <;> exact worded_of_isFixed (by decide)

/-- The words of a definition's code are known where those are that it declares and the types that
its fields refer to. -/
theorem definitionWords {known : String → Prop} (lettered : Lettered d) (named : WellNamed d)
    (declares : ∀ role word, (role, word) ∈ declared d → known word)
    (refers : ∀ f ∈ d.fields, f.type.isNamed → Worded known (elementType f)) :
    DefinitionWords known d := by
  have worded : ∀ {role : Role} {word : String}, (role, word) ∈ declared d → Parts word.toList →
      Worded known word :=
    fun member parts => worded_of_parts parts (.inr (.inr (declares _ _ member)))
  have fields : ∀ f ∈ d.fields, FieldWords known f := by
    intro f member
    have parts := lettered.fields f member
    refine ⟨worded (mem_declared_field.mpr ⟨f, member, rfl⟩) (named.fields f member).parts, ?_,
      worded (mem_declared_id.mpr ⟨f, member, rfl⟩) (parts_fieldConst parts (by decide)), ?_,
      worded (mem_declared_flag.mpr ⟨f, member, rfl⟩) (parts_readFlag parts)⟩
    · cases type : f.type with
      | primitive p =>
        rw [elementType, type]
        exact worded_rustPrimitive p
      | enum => exact refers f member (by rw [type]; rfl)
      | message => exact refers f member (by rw [type]; rfl)
    · intro required
      exact worded (mem_declared_minLength.mpr ⟨f, ⟨member, required⟩, rfl⟩)
        (parts_fieldConst parts (by decide))
  exact {
    type := worded (mem_declared_type.mpr rfl) named.type.parts
    parts := named.type.parts
    fields := fields
    variants := fun e member =>
      worded (mem_declared_variant.mpr ⟨e, member, rfl⟩) (named.variants e member).parts }

/-- In generated code, behind its header, the words of a line that is no comment are numbers, words
of the generator and names that the code declares. A name that the code declares is none of those
that the generator has in the same scope, unless it is a variant called `Error`. No constant for the
id of a field is one for its shortest length. -/
theorem uncaptured_of_compile {name text code : String} (compiles : compile name text = .ok code) :
    ∃ s modules steps, Schema.parse text = .ok s ∧ modulesOf s = .ok modules ∧
      code = (Listing.ofSteps (headerSteps (some name) ++ steps)).render ∧
      declarations steps = modules.map (fun m => (.module, m)) ++
        (enumsFirst s.definitions).flatMap declared ∧
      Tells (fun word => ∃ role, (role, word) ∈ declarations steps) steps ∧
      ∀ d ∈ s.definitions,
        (∀ role word, (role, word) ∈ declared d → word ∈ ownNames role →
          role = .variant ∧ word = "Error") ∧
        ∀ word, (.id, word) ∈ declared d → (.minLength, word) ∉ declared d := by
  obtain ⟨s, parses, done⟩ := document_of_compile compiles
  obtain ⟨all, built, rendered⟩ := bind_eq_ok_iff.mp done
  have lettered := lettered_of_parse parses
  obtain ⟨modules, steps, found, rfl, read⟩ := declarations_of_documentSteps built lettered
  obtain ⟨-, checked⟩ := checked_of_documentSteps built
  have named : ∀ d ∈ s.definitions, WellNamed d :=
    fun d member => (lettered d member).wellNamed (checked d member)
  have declares : ∀ d ∈ s.definitions, ∀ role word, (role, word) ∈ declared d →
      ∃ role, (role, word) ∈ declarations steps := by
    intro d member role word inside
    refine ⟨role, ?_⟩
    rw [read, List.mem_append, List.mem_flatMap]
    exact .inr ⟨d, mem_enumsFirst.mpr member, inside⟩
  refine ⟨s, modules, steps, parses, found, (Except.ok.inj rendered).symm, read, ?_, ?_⟩
  · apply tells_of_documentSteps built found
    · intro m member
      refine worded_of_parts (isName_of_modulesOf found m member).parts (.inr (.inr ⟨.module, ?_⟩))
      rw [read, List.mem_append, List.mem_map]
      exact .inl ⟨m, member, rfl⟩
    · intro d member
      apply definitionWords (lettered d member) (named d member) (declares d member)
      intro f inside isNamed
      obtain ⟨e, other, same⟩ := exists_typeIdent_of_isNamed parses member inside isNamed
      rw [same]
      exact worded_of_parts (named e other).type.parts
        (.inr (.inr (declares e other .type _ (mem_declared_type.mpr rfl))))
  · intro d member
    refine ⟨fun role word => uncaptured (lettered d member) (named d member), ?_⟩
    intro word id minLength
    obtain ⟨f, -, rfl⟩ := mem_declared_id.mp id
    obtain ⟨g, -, same⟩ := mem_declared_minLength.mp minLength
    exact fieldConst_ne f g same.symm

theorem uncaptured_of_compile_self :
    ∃ code steps, compile "self" selfText = .ok code ∧
      code = (Listing.ofSteps (headerSteps (some "self") ++ steps)).render ∧
      (.type, "Self_") ∈ declarations steps ∧
      Tells (fun word => ∃ role, (role, word) ∈ declarations steps) steps ∧
      ∀ d ∈ selfSchema.definitions, ∀ role word, (role, word) ∈ declared d →
        word ∉ ownNames role := by
  obtain ⟨code, compiles⟩ := self_compiled
  obtain ⟨s, modules, steps, parses, found, rendered, read, tells, each⟩ :=
    uncaptured_of_compile compiles
  obtain rfl := Except.ok.inj (self_parsed.symm.trans parses)
  have bare : ∀ d ∈ selfSchema.definitions, d.entries = [] := by decide
  refine ⟨code, steps, compiles, rendered, ?_, tells, ?_⟩
  · rw [read, List.mem_append]
    exact .inr (by decide)
  · intro d member role word inside own
    obtain ⟨rfl, rfl⟩ := (each d member).1 role word inside own
    obtain ⟨e, entry, -⟩ := mem_declared_variant.mp inside
    rw [bare d member] at entry
    cases entry

/-- A variant that hides the type of errors of its enum. -/
def errorText : String := "enum E \x7b Error; \x7d"

def errorTokens : List Token :=
  [⟨.enum, "enum", 0, ⟨1, 1⟩⟩, ⟨.blank, " ", 4, ⟨1, 5⟩⟩, ⟨.identifier, "E", 5, ⟨1, 6⟩⟩,
    ⟨.blank, " ", 6, ⟨1, 7⟩⟩, ⟨.openBrace, "\x7b", 7, ⟨1, 8⟩⟩, ⟨.blank, " ", 8, ⟨1, 9⟩⟩,
    ⟨.identifier, "Error", 9, ⟨1, 10⟩⟩, ⟨.semicolon, ";", 14, ⟨1, 15⟩⟩,
    ⟨.blank, " ", 15, ⟨1, 16⟩⟩, ⟨.closeBrace, "\x7d", 16, ⟨1, 17⟩⟩, ⟨.finish, "", 17, ⟨1, 18⟩⟩]

def errorSchema : Schema := ⟨[], [⟨"E", ⟨1, 6⟩, .enum [⟨"Error", 0, ⟨1, 10⟩⟩]⟩]⟩

theorem error_parsed : Schema.parse errorText = .ok errorSchema := by
  refine Schema.parse_eq_ok_iff.mpr ⟨errorTokens, lex_eq_ok_iff.mpr (by decide), ?_⟩
  rw [Schema.ofTokens_eq_ok_iff_draft]
  exact ⟨by decide +kernel, by decide +kernel, by decide +kernel,
    errorSchema.issues_eq_nil_iff.mp (by cbv)⟩

theorem uncaptured_of_compile_error :
    ∃ code steps, compile "e.nsd" errorText = .ok code ∧
      code = (Listing.ofSteps (headerSteps (some "e.nsd") ++ steps)).render ∧
      (.variant, "Error") ∈ declarations steps ∧ "Error" ∈ ownNames .variant ∧
      "fn try_from(value: i32) -> Result<Self, Self::Error> \x7b" ∈ Step.writtenAll steps := by
  obtain ⟨steps, built, line⟩ : ∃ steps, documentSteps Facet.all errorSchema (some "e.nsd") =
      .ok (headerSteps (some "e.nsd") ++ steps) ∧
      "fn try_from(value: i32) -> Result<Self, Self::Error> \x7b" ∈ Step.writtenAll steps :=
    ⟨_, rfl, by decide⟩
  have done : document Facet.all errorSchema (some "e.nsd") =
      .ok (Listing.ofSteps (headerSteps (some "e.nsd") ++ steps)).render := by
    rw [document, built]
    rfl
  obtain ⟨modules, steps', -, same, read⟩ :=
    declarations_of_documentSteps built (lettered_of_parse error_parsed)
  refine ⟨_, steps, by simp only [compile, error_parsed, done], rfl, ?_, by decide, line⟩
  rw [List.append_cancel_left same, read, List.mem_append]
  exact .inr (by decide)

end WireSchema.Code
