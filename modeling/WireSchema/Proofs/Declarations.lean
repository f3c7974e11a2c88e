import WireSchema.Proofs.Lines

/-!
Declarations in generated code. What can be read back from the lines behind the header of a document
is its modules, and for each definition its type, its fields with their constants and flags, and its
variants. All of these names passed the checks, or follow from names that did.
-/

namespace WireSchema.Code

open Text Token

mutual

def Step.written : Step → List String
  | .line text => [text]
  | .blank => [""]
  | .indent => []
  | .dedent => []
  | .enter header => [opened header]
  | .leave => ["\x7d"]
  | .leaveWith text => [text]
  | .reenter header => ["\x7d " ++ header ++ " \x7b"]
  | .block header body => opened header :: (Step.writtenAll body ++ ["\x7d"])
  | .append body => Step.writtenAll body

def Step.writtenAll : List Step → List String
  | [] => []
  | s :: steps => s.written ++ Step.writtenAll steps

end

/-! A listing has the lines of its steps, cut at newlines and trimmed. -/

def Listing.texts (l : Listing) : List String := l.lines.toList.map Line.text

/-- The lines that a text becomes. -/
def pieces (text : String) : List String :=
  (text.toList.splitOn '\n').map fun part => String.ofList (trimEnd part)

/-- A line that is added is cut at its newlines. -/
theorem Listing.texts_addLine (l : Listing) (text : String) :
    (l.addLine text).texts = l.texts ++ pieces text := by
  rw [addLine, texts, List.foldl_push_eq_append, Array.toList_append, List.map_append]
  simp [texts, pieces]

/-- A listing that is taken over keeps its lines. -/
theorem Listing.texts_append (l other : Listing) :
    (l.append other).texts = l.texts ++ other.texts := by
  rw [append, ← Array.foldl_toList, texts, texts, texts]
  generalize other.lines.toList = lines
  induction lines generalizing l with
  | nil => simp
  | cons line lines ih =>
    have shifted : (l.addShifted line).lines.toList.map Line.text =
        l.lines.toList.map Line.text ++ [line.text] := by
      rw [addShifted]
      split
      next empty => simp [addBlank, String.isEmpty_iff.mp empty]
      next => simp
    rw [List.foldl_cons, ih, shifted, List.append_assoc]
    rfl

mutual

/-- A step adds the lines that it writes, whatever is there before. -/
theorem Step.texts_run : (s : Step) → (l : Listing) →
    (s.run l).texts = l.texts ++ s.written.flatMap pieces
  | .line text, l => by
    rw [Step.run, Step.written, List.flatMap_singleton, Listing.texts_addLine]
  | .blank, l => by
    have empty : pieces "" = [""] := by decide
    rw [Step.run, Step.written, List.flatMap_singleton, empty]
    simp [Listing.addBlank, Listing.texts]
  | .indent, l => by
    rw [Step.run, Step.written, List.flatMap_nil, List.append_nil]
    rfl
  | .dedent, l => by
    rw [Step.run, Step.written, List.flatMap_nil, List.append_nil]
    rfl
  | .enter header, l => by
    rw [Step.run, Step.written, List.flatMap_singleton]
    exact Listing.texts_addLine l (opened header)
  | .leave, l => by
    rw [Step.run, Step.written, List.flatMap_singleton]
    exact Listing.texts_addLine l.dedent _
  | .leaveWith text, l => by
    rw [Step.run, Step.written, List.flatMap_singleton]
    exact Listing.texts_addLine l.dedent text
  | .reenter header, l => by
    rw [Step.run, Step.written, List.flatMap_singleton]
    exact Listing.texts_addLine l.dedent _
  | .block header body, l => by
    have entered : (l.enter header).texts = l.texts ++ pieces (opened header) :=
      Listing.texts_addLine l (opened header)
    have left : ∀ l : Listing, l.leave.texts = l.texts ++ pieces "\x7d" :=
      fun l => Listing.texts_addLine l.dedent _
    rw [Step.run, left, Step.texts_runAll body, entered, Step.written, List.flatMap_cons,
      List.flatMap_append, List.flatMap_singleton, List.append_assoc, List.append_assoc]
  | .append body, l => by
    have none : Listing.empty.texts = [] := rfl
    rw [Step.run, Listing.texts_append, Step.texts_runAll body, none, Step.written,
      List.nil_append]

theorem Step.texts_runAll : (steps : List Step) → (l : Listing) →
    (Step.runAll steps l).texts = l.texts ++ (Step.writtenAll steps).flatMap pieces
  | [], l => by rw [Step.runAll, Step.writtenAll, List.flatMap_nil, List.append_nil]
  | s :: steps, l => by
    rw [Step.runAll, Step.texts_runAll steps, Step.texts_run s, Step.writtenAll,
      List.flatMap_append, List.append_assoc]

end

/-- A listing has the lines of its steps and no others. -/
theorem Listing.texts_ofSteps (steps : List Step) :
    (Listing.ofSteps steps).texts = (Step.writtenAll steps).flatMap pieces :=
  Step.texts_runAll steps Listing.empty

def declarations (steps : List Step) : List (Role × String) :=
  (Step.writtenAll steps).filterMap declaration?

/-! The lines of steps. -/

section

variable {α : Type} {steps body : List Step} {header line : String} {l : List α}

theorem declarations_nil : declarations [] = [] := rfl

theorem declarations_cons (s : Step) (steps : List Step) :
    declarations (s :: steps) = s.written.filterMap declaration? ++ declarations steps := by
  rw [declarations, Step.writtenAll, List.filterMap_append, declarations]

/-- Steps in a row declare what each of them declares. -/
theorem declarations_append (steps later : List Step) :
    declarations (steps ++ later) = declarations steps ++ declarations later := by
  induction steps with
  | nil => rfl
  | cons s steps ih =>
    rw [List.cons_append, declarations_cons, declarations_cons, ih, List.append_assoc]

theorem declarations_line (line : String) (steps : List Step) :
    declarations (.line line :: steps) = (declaration? line).toList ++ declarations steps := by
  rw [declarations_cons, Step.written]
  cases read : declaration? line <;> simp [read]

theorem declarations_blank (steps : List Step) :
    declarations (.blank :: steps) = declarations steps := by
  have none : [""].filterMap declaration? = [] := by decide
  rw [declarations_cons, Step.written, none, List.nil_append]

theorem declarations_enter (header : String) (steps : List Step) :
    declarations (.enter header :: steps) =
      (declaration? (opened header)).toList ++ declarations steps := by
  rw [declarations_cons, Step.written]
  cases read : declaration? (opened header) <;> simp [read]

theorem declarations_leave (steps : List Step) :
    declarations (.leave :: steps) = declarations steps := by
  have none : ["\x7d"].filterMap declaration? = [] := by decide
  rw [declarations_cons, Step.written, none, List.nil_append]

theorem declarations_reenter (header : String) (steps : List Step) :
    declarations (.reenter header :: steps) = declarations steps := by
  have none : declaration? ("\x7d " ++ header ++ " \x7b") = none := by
    rw [String.append_assoc]
    exact declaration?_of_front (by decide) _
  rw [declarations_cons, Step.written, List.filterMap_cons_none none]
  rfl

/-- A block declares what its header and its body declare. -/
theorem declarations_block (header : String) (body steps : List Step) :
    declarations (.block header body :: steps) =
      (declaration? (opened header)).toList ++ (declarations body ++ declarations steps) := by
  have none : ["\x7d"].filterMap declaration? = [] := by decide
  rw [declarations_cons, Step.written, List.filterMap_cons, List.filterMap_append, none,
    List.append_nil]
  cases read : declaration? (opened header) <;> simp [declarations]

theorem declarations_appended (body steps : List Step) :
    declarations (.append body :: steps) = declarations body ++ declarations steps := by
  rw [declarations_cons, Step.written]
  rfl

/-- Lines that each declare one name declare these names. -/
theorem declarations_lines {text : α → String} {read : α → Role × String}
    (each : ∀ a ∈ l, declaration? (text a) = some (read a)) :
    declarations (l.map fun a => .line (text a)) = l.map read := by
  induction l with
  | nil => rfl
  | cons a l ih =>
    obtain ⟨here, each⟩ := List.forall_mem_cons.mp each
    rw [List.map_cons, declarations_line, here, ih each, List.map_cons]
    rfl

theorem declarations_map_eq_nil {step : α → Step} (each : ∀ a ∈ l, declarations [step a] = []) :
    declarations (l.map step) = [] := by
  induction l with
  | nil => rfl
  | cons a l ih =>
    obtain ⟨here, each⟩ := List.forall_mem_cons.mp each
    rw [List.map_cons, ← List.singleton_append, declarations_append, here, ih each]
    rfl

theorem declarations_flatMap_eq_nil {f : α → List Step} (each : ∀ a ∈ l, declarations (f a) = []) :
    declarations (l.flatMap f) = [] := by
  induction l with
  | nil => rfl
  | cons a l ih =>
    obtain ⟨here, each⟩ := List.forall_mem_cons.mp each
    rw [List.flatMap_cons, declarations_append, here, ih each]
    rfl

end

/-! The code of a definition. -/

@[simp] theorem toString_text (text : String) : toString text = text := rfl

section

variable {d : Definition} {f : Field}

/-- An implementation declares nothing beside its body. -/
theorem declarations_implBlock (d : Definition) (body steps : List Step) :
    declarations (implBlock d body :: steps) = declarations body ++ declarations steps := by
  rw [implBlock, declarations_block, toString_text, toString_text,
    declaration?_opened_of_front (by rw [String.toList_ofList]; decide)]
  rfl

theorem parts_fieldConst {suffix : String} (parts : Parts f.name.toList)
    (tail : Parts suffix.toList) : Parts (fieldConst f suffix).toList := by
  rw [fieldConst, screaming, screamingCase, upper, String.toList_append, String.toList_append,
    String.toList_ofList]
  refine parts_append.mpr ⟨parts_append.mpr ⟨?_, by decide⟩, tail⟩
  exact Parts.flatMap fun c member => parts_upperChar (parts.snakeFrom c member)

theorem parts_readFlag (parts : Parts f.name.toList) : Parts (readFlag f).toList := by
  rw [readFlag, snake, String.toList_append, String.toList_ofList]
  exact parts_append.mpr ⟨parts.snakeFrom, by decide⟩

theorem declarations_dynamicSteps (f : Field) : declarations (dynamicSteps f) = [] := by
  simp (disch := (rw [String.toList_ofList]; decide)) only [dynamicSteps, toString_text,
    String.append_assoc, declarations_line, declarations_block, declaration?_opened_of_front,
    declaration?_of_front, Option.toList_none, List.nil_append, apply_ite declarations,
    declarations_nil, ite_self]

theorem declaration?_writeElement (f : Field) (reference : String) :
    declaration? (writeElement f reference) = none := by
  rw [writeElement]
  split <;> simp (disch := (rw [String.toList_ofList]; decide)) only [toString_text,
    String.append_assoc, declaration?_of_front]

/-- Writing a field declares nothing. -/
theorem declarations_writeFieldSteps (f : Field) : declarations (writeFieldSteps f) = [] := by
  simp (disch := (rw [String.toList_ofList]; decide)) only [writeFieldSteps, writePayloadSteps,
    toString_text, String.append_assoc, declarations_line, declarations_block,
    declaration?_opened_of_front, declaration?_of_front, declaration?_of_all,
    declaration?_writeElement, Option.toList_none, List.nil_append, apply_ite declarations,
    declarations_nil, List.append_nil, List.cons_append, ite_self]

theorem declaration?_populateStatement (f : Field) : declaration? (populateStatement f) = none := by
  simp (disch := (rw [String.toList_ofList]; decide)) only [populateStatement, toString_text,
    String.append_assoc, apply_ite declaration?, declaration?_of_front, ite_self]

theorem declaration?_skipStatement (f : Field) : declaration? (skipStatement f) = none := by
  simp (disch := (rw [String.toList_ofList]; decide)) only [skipStatement, toString_text,
    String.append_assoc, apply_ite declaration?, declaration?_of_front, declaration?_of_all,
    ite_self]

/-- A constructor has arguments, but it declares nothing. -/
theorem declarations_constructorSteps (named : ∀ f ∈ d.fields, IsName (fieldIdent f)) :
    declarations (constructorSteps d) = [] := by
  have members : declarations (d.fields.map fun f => .line (fieldIdent f ++ ",")) = [] := by
    apply declarations_map_eq_nil
    intro f member
    rw [declarations_line, declaration?_member (named f member)]
    rfl
  simp (disch := (rw [String.toList_ofList]; decide)) only [constructorSteps,
    declarations_implBlock, toString_text, String.append_assoc, declarations_line,
    declarations_block, declarations_append, declaration?_opened_of_front,
    declaration?_opened_of_all, declaration?_of_all, members, Option.toList_none, List.nil_append,
    apply_ite declarations, declarations_nil, ite_self]

/-- The struct declares its type, its fields and the constants of their ids. -/
theorem declarations_fieldsSteps (type : Parts (typeIdent d.name).toList)
    (fields : ∀ f ∈ d.fields, Parts (fieldIdent f).toList)
    (names : ∀ f ∈ d.fields, Parts f.name.toList) :
    declarations (fieldsSteps d) = (.type, typeIdent d.name) ::
      (d.fields.map (fun f => (.field, fieldIdent f)) ++
        d.fields.map fun f => (.id, fieldConst f "ID")) := by
  have idents := declarations_lines fun f member =>
    declaration?_field (fields f member) (rustType f ++ ",")
  have ids := declarations_lines fun f member =>
    declaration?_id (parts_fieldConst (names f member) (by decide : Parts "ID".toList))
      (toString f.id.toNat ++ ";")
  simp (disch := (rw [String.toList_ofList]; decide)) only [fieldsSteps, declarations_implBlock,
    toString_text, String.append_assoc, declarations_line, declarations_block, declarations_blank,
    declaration?_of_front, declaration?_of_all, declaration?_struct type, idents, ids,
    Option.toList_none, Option.toList_some, List.nil_append, List.cons_append, declarations_nil,
    List.append_nil]

/-- The sizes declare a constant for each required field. -/
theorem declarations_sizeSteps (names : ∀ f ∈ d.fields, Parts f.name.toList) :
    declarations (sizeSteps d) = (d.fields.filter fun f => !f.isOptional).map
      fun f => (.minLength, fieldConst f "MIN_LEN") := by
  have lengths := declarations_lines (l := d.fields.filter fun f => !f.isOptional) fun f member =>
    declaration?_minLength (parts_fieldConst (names f (List.mem_of_mem_filter member))
      (by decide : Parts "MIN_LEN".toList)) (minLength f ++ ";")
  have dynamic : declarations (d.fields.flatMap dynamicSteps) = [] :=
    declarations_flatMap_eq_nil fun f _ => declarations_dynamicSteps f
  simp (disch := (rw [String.toList_ofList]; decide)) only [sizeSteps, minSizeSteps,
    declarations_implBlock, toString_text, String.append_assoc, declarations_line,
    declarations_block, declarations_blank, declarations_append, declaration?_of_front,
    declaration?_of_all, declaration?_opened_of_all, lengths, dynamic, Option.toList_none,
    List.append_nil, apply_ite declarations, declarations_nil, ite_self]

theorem declarations_serializeSteps (d : Definition) : declarations (serializeSteps d) = [] := by
  have fields : declarations (d.fields.flatMap writeFieldSteps) = [] :=
    declarations_flatMap_eq_nil fun f _ => declarations_writeFieldSteps f
  simp (disch := (rw [String.toList_ofList]; decide)) only [serializeSteps, declarations_implBlock,
    declarations_line, declarations_block, declarations_blank, declarations_append,
    declaration?_opened_of_all, declaration?_of_all, fields, Option.toList_none, List.nil_append,
    apply_ite declarations, declarations_nil, ite_self]

theorem declarations_bindingSteps (d : Definition) : declarations (bindingSteps d) = [] := by
  simp (disch := (rw [String.toList_ofList]; decide)) only [bindingSteps, toString_text,
    declarations_line, declarations_block, declarations_blank, declaration?_opened_of_front,
    declaration?_opened_of_all, declaration?_of_all, Option.toList_none, List.nil_append,
    declarations_nil]

theorem declarations_readFieldSteps (parts : Parts (readFlag f).toList) :
    declarations [readFieldSteps f] = [] := by
  have assigned := declaration?_assignment parts
  simp (disch := (rw [String.toList_ofList]; decide)) only [readFieldSteps, toString_text,
    String.append_assoc, declarations_line, declarations_block, declarations_enter,
    declarations_leave, declarations_reenter, declaration?_opened_of_front, declaration?_of_all,
    declaration?_skipStatement, declaration?_populateStatement, assigned, Option.toList_none,
    List.nil_append, declarations_nil]

/-- The read loop declares a flag for each field. -/
theorem declarations_deserializeSteps (names : ∀ f ∈ d.fields, Parts f.name.toList) :
    declarations (deserializeSteps d) = d.fields.map fun f => (.flag, readFlag f) := by
  have flags := declarations_lines fun f member =>
    declaration?_flag (parts_readFlag (names f member))
  have fields : declarations (d.fields.map readFieldSteps) = [] :=
    declarations_map_eq_nil fun f member =>
      declarations_readFieldSteps (parts_readFlag (names f member))
  have loop : declarations (if d.fields.isEmpty then [.line "let _ = reader;"]
      else readLoopSteps d.fields) = d.fields.map fun f => (.flag, readFlag f) := by
    split
    next none =>
      rw [List.isEmpty_iff.mp none]
      decide
    next =>
      simp (disch := (rw [String.toList_ofList]; decide)) only [readLoopSteps, toString_text,
        String.append_assoc, declarations_line, declarations_block, declarations_append,
        declaration?_opened_of_all, declaration?_of_all, flags, fields, Option.toList_none,
        List.append_nil, declarations_nil]
  simp (disch := (rw [String.toList_ofList]; decide)) only [deserializeSteps,
    declarations_implBlock, declarations_line, declarations_block, declarations_blank,
    declarations_append, declaration?_opened_of_all, declaration?_of_all, loop, Option.toList_none,
    List.nil_append, List.append_nil, declarations_nil]

/-- Variants declare their identifiers, the default one like the others. -/
theorem declarations_variantSteps {entries : List Entry}
    (named : ∀ e ∈ entries, IsName (variantIdent e.name)) :
    declarations (variantSteps entries) =
      entries.map fun e => (.variant, variantIdent e.name) := by
  have lines := declarations_lines fun e member =>
    declaration?_variant (named e member) (toString e.value.toInt)
  rw [← lines, variantSteps]
  simp only [toString_text, String.append_assoc]
  cases entries with
  | nil => rfl
  | cons e entries =>
    have marked : declaration? "#[default]" = none :=
      declaration?_of_all (by rw [String.toList_ofList]; decide)
    simp only [List.map_cons, declarations_line, marked, Option.toList_none, List.nil_append]

/-- The code of an enum declares its type and its variants. -/
theorem declarations_enumSteps {steps : List Step} (done : enumSteps d = .ok steps)
    (type : Parts (typeIdent d.name).toList)
    (named : ∀ e ∈ d.entries, IsName (variantIdent e.name)) :
    declarations steps = (.type, typeIdent d.name) ::
      d.entries.map fun e => (.variant, variantIdent e.name) := by
  have variants := declarations_variantSteps named
  rw [enumSteps] at done
  split at done
  · cases done
  · cases done
    have arms : declarations (d.entries.map fun e => .line (toString e.value.toInt ++
        (" => Ok(" ++ (typeIdent d.name ++ ("::" ++ (variantIdent e.name ++ "),")))))) = [] := by
      apply declarations_map_eq_nil
      intro e _
      rw [declarations_line, declaration?_number]
      rfl
    simp (disch := (rw [String.toList_ofList]; decide)) only [toString_text, String.append_assoc,
      declarations_line, declarations_block, declarations_blank, declarations_append,
      declaration?_opened_of_front, declaration?_opened_of_all, declaration?_of_front,
      declaration?_of_all, declaration?_enum type, variants, arms, Option.toList_none,
      Option.toList_some, List.nil_append, List.cons_append, List.append_nil, declarations_nil]

end

/-- What the code of a definition declares. -/
def declared (d : Definition) : List (Role × String) :=
  (.type, typeIdent d.name) ::
    (d.fields.map (fun f => (Role.field, fieldIdent f)) ++
      d.fields.map (fun f => (Role.id, fieldConst f "ID")) ++
      (d.fields.filter fun f => !f.isOptional).map
        (fun f => (Role.minLength, fieldConst f "MIN_LEN")) ++
      d.fields.map (fun f => (Role.flag, readFlag f)) ++
      d.entries.map fun e => (Role.variant, variantIdent e.name))

theorem declarations_intersperse_blank (steps : List Step) :
    declarations (steps.intersperse .blank) = declarations steps := by
  induction steps with
  | nil => rfl
  | cons s steps ih =>
    cases steps with
    | nil => rfl
    | cons s' steps =>
      rw [List.intersperse_cons_cons, declarations_cons, declarations_blank, ih,
        ← declarations_cons]

/-- The code of a type declares what the definition calls for, in the order of its facets. -/
theorem declarations_typeSteps {s : Schema} {d : Definition} {steps : List Step}
    (done : typeSteps Facet.all s d = .ok steps) (lettered : Lettered d) :
    declarations steps = declared d := by
  rw [typeSteps, then_eq_ok_iff] at done
  obtain ⟨checked, done⟩ := done
  obtain ⟨parts, built, same⟩ := bind_eq_ok_iff.mp done
  cases same
  have named := lettered.wellNamed checked
  rw [declarations_intersperse_blank]
  cases body : d.body with
  | message fields =>
    have facets : Facet.all.filter (Facet.applies · d) =
        [.fields, .constructor, .size, .serialize, .deserialize, .binding] := by
      simp [Facet.all, Facet.applies, Definition.isEnum, body]
    have each : parts = [.append (fieldsSteps d), .append (constructorSteps d),
        .append (sizeSteps d), .append (serializeSteps d), .append (deserializeSteps d),
        .append (bindingSteps d)] := by
      rw [facets] at built
      cases built
      rfl
    have idents : ∀ f ∈ d.fields, Parts (fieldIdent f).toList :=
      fun f member => (named.fields f member).parts
    have bare : d.entries = [] := by rw [Definition.entries, body]
    simp only [each, declarations_appended, declarations_constructorSteps named.fields,
      declarations_fieldsSteps named.type.parts idents lettered.fields,
      declarations_sizeSteps lettered.fields, declarations_serializeSteps,
      declarations_deserializeSteps lettered.fields, declarations_bindingSteps, declarations_nil,
      declared, bare, List.map_nil, List.nil_append, List.append_nil, List.cons_append,
      List.append_assoc]
  | enum entries =>
    have facets : Facet.all.filter (Facet.applies · d) = [.enum] := by
      simp [Facet.all, Facet.applies, Definition.isEnum, body]
    rw [facets, List.mapM_cons, bind_eq_ok_iff] at built
    obtain ⟨part, stepped, rest⟩ := built
    cases rest
    obtain ⟨own, made, same⟩ := bind_eq_ok_iff.mp stepped
    cases same
    have bare : d.fields = [] := by rw [Definition.fields, body]
    simp only [declarations_appended, declarations_enumSteps made named.type.parts named.variants,
      declarations_nil, declared, bare, List.filter_nil, List.map_nil, List.reverse_nil,
      List.nil_append, List.append_nil]

/-- The code of all types declares what their definitions call for. -/
theorem declarations_typesSteps {s : Schema} {definitions : List Definition} {steps : List Step}
    (done : typesSteps Facet.all s definitions = .ok steps)
    (lettered : ∀ d ∈ definitions, Lettered d) :
    declarations steps = definitions.flatMap declared := by
  induction definitions generalizing steps with
  | nil =>
    cases done
    rfl
  | cons d definitions ih =>
    obtain ⟨here, lettered⟩ := List.forall_mem_cons.mp lettered
    rw [typesSteps, bind_eq_ok_iff] at done
    obtain ⟨own, first, done⟩ := done
    obtain ⟨others, later, same⟩ := bind_eq_ok_iff.mp done
    cases same
    rw [declarations_blank, declarations_appended, declarations_typeSteps first here,
      ih later lettered, List.flatMap_cons]

/-- Each module of the namespace is declared where it is entered. -/
theorem declarations_modules {modules : List String} (named : ∀ m ∈ modules, IsName m) :
    declarations (modules.map fun m => .enter s!"pub mod {m}") =
      modules.map fun m => (.module, m) := by
  induction modules with
  | nil => rfl
  | cons m modules ih =>
    obtain ⟨here, named⟩ := List.forall_mem_cons.mp named
    rw [List.map_cons, declarations_enter, ih named]
    simp only [toString_text, declaration?_module here.parts]
    rfl

theorem declarations_leaves (modules : List String) :
    declarations (modules.map fun _ => .leave) = [] :=
  declarations_map_eq_nil fun _ _ => declarations_leave []

/-- The code behind the header declares the modules and, enums first, what the definitions have. -/
theorem declarations_of_documentSteps {s : Schema} {sourceName : Option String} {all : List Step}
    (done : documentSteps Facet.all s sourceName = .ok all)
    (lettered : ∀ d ∈ s.definitions, Lettered d) :
    ∃ modules steps, modulesOf s = .ok modules ∧ all = headerSteps sourceName ++ steps ∧
      declarations steps = modules.map (fun m => (.module, m)) ++
        (enumsFirst s.definitions).flatMap declared := by
  obtain ⟨-, done⟩ := then_eq_ok_iff.mp done
  obtain ⟨body, built, done⟩ := bind_eq_ok_iff.mp done
  obtain ⟨modules, found, same⟩ := bind_eq_ok_iff.mp done
  obtain ⟨types, made, same'⟩ := bind_eq_ok_iff.mp built
  cases same
  cases same'
  have own := declarations_typesSteps made fun d member => lettered d (mem_enumsFirst.mp member)
  have opening := declarations_modules (isName_of_modulesOf found)
  refine ⟨modules, _, found, by rw [List.append_assoc, List.append_assoc], ?_⟩
  simp (disch := (rw [String.toList_ofList]; decide)) only [declarations_append,
    declarations_appended, declarations_line, declaration?_of_all, importLine, opening,
    declarations_leaves, own, Option.toList_none, List.nil_append, List.append_nil,
    declarations_nil]

/-- The checks that a document has passed. -/
theorem checked_of_documentSteps {facets : List Facet} {s : Schema} {sourceName : Option String}
    {steps : List Step} (done : documentSteps facets s sourceName = .ok steps) :
    (s.definitions.map fun d => typeIdent d.name).Nodup ∧
      ∀ d ∈ s.definitions, checkDefinition s d = .ok () := by
  obtain ⟨types, done⟩ := then_eq_ok_iff.mp done
  obtain ⟨body, built, -⟩ := bind_eq_ok_iff.mp done
  obtain ⟨definitions, made, -⟩ := bind_eq_ok_iff.mp built
  refine ⟨(checkTypeIdents_eq_ok_iff.mp types).1, fun d member => ?_⟩
  exact checkDefinition_of_typesSteps made d (mem_enumsFirst.mpr member)

/-- Code that is compiled is the document of the schema that the text spells. -/
theorem document_of_compile {name text code : String} (compiles : compile name text = .ok code) :
    ∃ s, Schema.parse text = .ok s ∧ document Facet.all s (some name) = .ok code := by
  rw [compile] at compiles
  cases parses : Schema.parse text with
  | error e => rw [parses] at compiles; cases compiles
  | ok s =>
    rw [parses] at compiles
    refine ⟨s, rfl, ?_⟩
    cases done : document Facet.all s (some name) with
    | error u => simp only [done] at compiles; cases compiles
    | ok code' => simp only [done] at compiles; cases compiles; rfl

/-- In an accepted schema, a field of a named type refers to the type of a definition. -/
theorem exists_typeIdent_of_isNamed {text : String} {s : Schema}
    (parses : Schema.parse text = .ok s) {d : Definition} (member : d ∈ s.definitions) {f : Field}
    (inside : f ∈ d.fields) (isNamed : f.type.isNamed) :
    ∃ e ∈ s.definitions, elementType f = typeIdent e.name := by
  obtain ⟨tokens, -, accepted⟩ := Schema.parse_eq_ok_iff.mp parses
  obtain ⟨e, found, -⟩ := Schema.bound_of_ofTokens accepted d member f inside isNamed
  have same : e.name = f.typeName := by simpa using List.find?_some found
  refine ⟨e, List.mem_of_find?_eq_some found, ?_⟩
  rw [same, elementType]
  cases type : f.type with
  | primitive p => rw [type] at isNamed; cases isNamed
  | enum => rfl
  | message => rfl

/-- What generated code declares behind its header are the modules of the namespace and, for each
definition, its type, its fields with their constants and flags, and its variants. The modules,
types, fields and variants have names, and what shares a scope has distinct ones. A field of a named
type refers to a type that is declared. -/
theorem wellNamed_of_compile {name text code : String} (compiles : compile name text = .ok code) :
    ∃ s modules steps, Schema.parse text = .ok s ∧ modulesOf s = .ok modules ∧
      code = (Listing.ofSteps (headerSteps (some name) ++ steps)).render ∧
      declarations steps = modules.map (fun m => (.module, m)) ++
        (enumsFirst s.definitions).flatMap declared ∧
      (∀ m ∈ modules, IsName m) ∧
      (s.definitions.map fun d => typeIdent d.name).Nodup ∧
      ∀ d ∈ s.definitions, WellNamed d ∧ ∀ f ∈ d.fields, f.type.isNamed →
        ∃ e ∈ s.definitions, elementType f = typeIdent e.name := by
  obtain ⟨s, parses, done⟩ := document_of_compile compiles
  obtain ⟨all, built, rendered⟩ := bind_eq_ok_iff.mp done
  have lettered := lettered_of_parse parses
  obtain ⟨modules, steps, found, rfl, read⟩ := declarations_of_documentSteps built lettered
  obtain ⟨distinct, checked⟩ := checked_of_documentSteps built
  refine ⟨s, modules, steps, parses, found, (Except.ok.inj rendered).symm, read,
    isName_of_modulesOf found, distinct, ?_⟩
  intro d member
  exact ⟨(lettered d member).wellNamed (checked d member),
    fun f inside => exists_typeIdent_of_isNamed parses member inside⟩

/-- Keywords as the names of a module, a type and a field. -/
def selfText : String := "#namespace=a.mod;message self\x7bint type;int Type2;\x7d"

def selfTokens : List Token :=
  [⟨.hash, "#", 0, ⟨1, 1⟩⟩, ⟨.identifier, "namespace", 1, ⟨1, 2⟩⟩, ⟨.equals, "=", 10, ⟨1, 11⟩⟩,
    ⟨.identifier, "a.mod", 11, ⟨1, 12⟩⟩, ⟨.semicolon, ";", 16, ⟨1, 17⟩⟩,
    ⟨.message, "message", 17, ⟨1, 18⟩⟩, ⟨.blank, " ", 24, ⟨1, 25⟩⟩,
    ⟨.identifier, "self", 25, ⟨1, 26⟩⟩, ⟨.openBrace, "\x7b", 29, ⟨1, 30⟩⟩,
    ⟨.primitive .int, "int", 30, ⟨1, 31⟩⟩, ⟨.blank, " ", 33, ⟨1, 34⟩⟩,
    ⟨.identifier, "type", 34, ⟨1, 35⟩⟩, ⟨.semicolon, ";", 38, ⟨1, 39⟩⟩,
    ⟨.primitive .int, "int", 39, ⟨1, 40⟩⟩, ⟨.blank, " ", 42, ⟨1, 43⟩⟩,
    ⟨.identifier, "Type2", 43, ⟨1, 44⟩⟩, ⟨.semicolon, ";", 48, ⟨1, 49⟩⟩,
    ⟨.closeBrace, "\x7d", 49, ⟨1, 50⟩⟩, ⟨.finish, "", 50, ⟨1, 51⟩⟩]

def selfSchema : Schema :=
  ⟨[⟨"namespace", "a.mod"⟩],
    [⟨"self", ⟨1, 26⟩, .message
      [⟨.primitive .int, "int", "type", 0, false, false, ⟨1, 31⟩⟩,
        ⟨.primitive .int, "int", "Type2", 1, false, false, ⟨1, 40⟩⟩]⟩]⟩

theorem self_parsed : Schema.parse selfText = .ok selfSchema := by
  refine Schema.parse_eq_ok_iff.mpr ⟨selfTokens, lex_eq_ok_iff.mpr (by decide +kernel), ?_⟩
  rw [Schema.ofTokens_eq_ok_iff_draft]
  exact ⟨by decide +kernel, by decide +kernel, by decide +kernel,
    selfSchema.issues_eq_nil_iff.mp (by cbv)⟩

theorem self_compiled : ∃ code, compile "self" selfText = .ok code := by
  obtain ⟨code, done⟩ : ∃ code, document Facet.all selfSchema (some "self") = .ok code := ⟨_, rfl⟩
  exact ⟨code, by simp only [compile, self_parsed, done]⟩

theorem wellNamed_of_compile_self :
    ∃ code steps, compile "self" selfText = .ok code ∧
      code = (Listing.ofSteps (headerSteps (some "self") ++ steps)).render ∧
      declarations steps =
        [(.module, "a"), (.module, "mod_"), (.type, "Self_"), (.field, "type_"),
          (.field, "type2"), (.id, "TYPE_ID"), (.id, "TYPE2_ID"), (.minLength, "TYPE_MIN_LEN"),
          (.minLength, "TYPE2_MIN_LEN"), (.flag, "type_read"), (.flag, "type2_read")] ∧
      (∀ m ∈ ["a", "mod_"], IsName m) ∧ ∀ d ∈ selfSchema.definitions, WellNamed d := by
  obtain ⟨code, compiles⟩ := self_compiled
  obtain ⟨s, modules, steps, parses, found, rendered, read, named, -, each⟩ :=
    wellNamed_of_compile compiles
  obtain rfl := Except.ok.inj (self_parsed.symm.trans parses)
  have inside : modulesOf selfSchema = .ok ["a", "mod_"] := rfl
  obtain rfl := Except.ok.inj (inside.symm.trans found)
  refine ⟨code, steps, compiles, rendered, ?_, named, fun d member => (each d member).1⟩
  rw [read]
  decide +kernel

end WireSchema.Code
