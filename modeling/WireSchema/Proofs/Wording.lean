import WireSchema.Proofs.Vocabulary

/-!
What generated code says. Each line behind the header is a comment, or its words are numbers, words
of the generator and names that the code declares. This is shown along the code: for expressions,
for the code of a field, for that of a definition, and for a document.
-/

namespace WireSchema.Code

open Text Token Token.Rule

section

variable {known : String → Prop} {f : Field} {d : Definition} {reference reader : String}

/-! Expressions. -/

theorem worded_digits (n : Nat) : Worded known (Nat.repr n) := by
  apply worded_of_parts (parts_repr n)
  left
  rw [isNumeral]
  cases letters : (Nat.repr n).toList with
  | nil =>
    rw [Nat.repr, String.toList_ofList] at letters
    exact absurd letters Nat.toDigits_ne_nil
  | cons c rest => exact isDigit_of_mem_repr (by rw [letters]; exact List.mem_cons_self)

theorem worded_intRepr (n : Int) : Worded known n.repr := by
  cases n with
  | ofNat n => exact worded_digits n
  | negSucc n =>
    have minus : (Int.negSucc n).repr = "-" ++ Nat.repr (n + 1) := rfl
    rw [minus, worded_append_of_closes (by decide)]
    exact ⟨worded_of_isFixed (by decide), worded_digits (n + 1)⟩

theorem worded_rustType (element : Worded known (elementType f)) : Worded known (rustType f) := by
  rw [rustType]
  split <;> split <;> simp (disch := (rw [String.toList_ofList]; decide)) [element]

theorem worded_width {width : String} (found : widthConst? f = some width) :
    Worded known width := by
  rw [widthConst?] at found
  split at found <;> first
    | (cases found; exact worded_of_isFixed (by rw [String.toList_ofList]; decide))
    | cases found

theorem worded_elementSize (here : Worded known reference) :
    Worded known (elementSize f reference) := by
  rw [elementSize]
  split
  next width found => exact worded_width found
  next =>
    split <;> simp (disch := (rw [String.toList_ofList]; decide)) [here]

theorem worded_elementsSize (here : Worded known reference) :
    Worded known (elementsSize f reference) := by
  have size : Worded known (elementSize f "item") :=
    worded_elementSize (worded_of_isFixed (by rw [String.toList_ofList]; decide))
  rw [elementsSize]
  split
  next width found =>
    have wide : Worded known width := worded_width found
    simp (disch := (rw [String.toList_ofList]; decide)) [here, wide]
  next =>
    simp (disch := (rw [String.toList_ofList]; decide)) [here, size]

theorem worded_minLength (f : Field) : Worded known (minLength f) := by
  simp only [minLength]
  split
  next length found =>
    have long : Worded known length := by
      split at found
      · cases found
        exact worded_of_isFixed (by rw [String.toList_ofList]; decide)
      · exact worded_width found
    simp (disch := (rw [String.toList_ofList]; decide)) [long]
  next => exact worded_of_isFixed (by rw [String.toList_ofList]; decide)

theorem worded_readElement (element : Worded known (elementType f)) (here : Worded known reader) :
    Worded known (readElement f reader) := by
  rw [readElement]
  split
  next p type =>
    clear type
    cases p <;> simp (disch := (rw [String.toList_ofList]; decide)) [codecSuffix, here]
  all_goals
    simp (disch := (rw [String.toList_ofList]; decide)) [here, element]

theorem worded_readValue (element : Worded known (elementType f)) (here : Worded known reader) :
    Worded known (readValue f reader) := by
  have each : Worded known (readElement f "r") :=
    worded_readElement element (worded_of_isFixed (by decide))
  rw [readValue]
  split
  · simp (disch := (rw [String.toList_ofList]; decide)) [here, each]
  · exact worded_readElement element here

theorem worded_readPayload (element : Worded known (elementType f)) :
    Worded known (readPayload f) := by
  have own : Worded known (readValue f "r") :=
    worded_readValue element (worded_of_isFixed (by decide))
  have direct : Worded known (readValue f "reader") :=
    worded_readValue element (worded_of_isFixed (by decide))
  rw [readPayload]
  split <;> simp (disch := (rw [String.toList_ofList]; decide)) [own, direct]

theorem worded_byValue (here : Worded known reference) : Worded known (byValue reference) := by
  rw [byValue]
  split
  next place whole =>
    rw [Worded, whole, wordsIn_cons (by decide)] at here
    rwa [Worded, String.toList_ofList]
  next =>
    rw [worded_append_of_closes (by decide)]
    exact ⟨worded_of_isFixed (by decide), here⟩

theorem worded_dropWhile (here : Worded known reference) :
    Worded known (String.ofList (reference.toList.dropWhile (· == '&'))) := by
  rw [Worded] at here
  rw [Worded, String.toList_ofList]
  generalize reference.toList = letters at here
  induction letters with
  | nil => exact here
  | cons c letters ih =>
    rw [List.dropWhile_cons]
    split
    next mark =>
      rw [beq_iff_eq.mp mark, wordsIn_cons (by decide)] at here
      exact ih here
    next => exact here

theorem worded_writeElement (here : Worded known reference) :
    Worded known (writeElement f reference) := by
  have value := worded_byValue here
  rw [writeElement]
  split
  next =>
    simp (disch := (rw [String.toList_ofList]; decide)) [here]
  next p type _ =>
    clear type
    cases p <;> simp (disch := (rw [String.toList_ofList]; decide)) [codecSuffix, value]
  all_goals
    simp (disch := (rw [String.toList_ofList]; decide)) [here, value]

/-! The code of a field. -/

/-- The names that a field has in generated code. -/
structure FieldWords (known : String → Prop) (f : Field) : Prop where
  ident : Worded known (fieldIdent f)
  element : Worded known (elementType f)
  id : Worded known (fieldConst f "ID")
  minLength : f.isOptional = false → Worded known (fieldConst f "MIN_LEN")
  flag : Worded known (readFlag f)

theorem tells_dynamicSteps (words : FieldWords known f) : Tells known (dynamicSteps f) := by
  have place : Worded known ("self." ++ fieldIdent f) := by
    rw [worded_append_of_closes (by decide)]
    exact ⟨worded_of_isFixed (by decide), words.ident⟩
  have one : Worded known (elementSize f "value") :=
    worded_elementSize (worded_of_isFixed (by decide))
  have all : Worded known (elementsSize f "value") :=
    worded_elementsSize (worded_of_isFixed (by decide))
  have direct := worded_elementsSize (f := f) place
  rw [dynamicSteps]
  split_ifs <;>
    simp (disch := (rw [String.toList_ofList]; decide)) [place, one, all, direct]

theorem tells_writePayloadSteps (here : Worded known reference) :
    Tells known (writePayloadSteps f reference) := by
  have item : Worded known (writeElement f "item") :=
    worded_writeElement (worded_of_isFixed (by decide))
  have direct := worded_writeElement (f := f) here
  have place := worded_dropWhile here
  rw [writePayloadSteps]
  split <;> simp (disch := (rw [String.toList_ofList]; decide)) [here, item, direct, place]

theorem tells_writeFieldSteps (words : FieldWords known f) : Tells known (writeFieldSteps f) := by
  have place : Worded known ("&self." ++ fieldIdent f) := by
    rw [worded_append_of_closes (by decide)]
    exact ⟨worded_of_isFixed (by decide), words.ident⟩
  have value : Tells known (writePayloadSteps f "value") :=
    tells_writePayloadSteps (worded_of_isFixed (by decide))
  have direct := tells_writePayloadSteps (f := f) place
  rw [writeFieldSteps]
  split <;>
    simp (disch := (rw [String.toList_ofList]; decide)) [words.id, words.ident, value, direct]

theorem tells_readFieldSteps (words : FieldWords known f) : Tells known [readFieldSteps f] := by
  have payload := worded_readPayload words.element
  have skip : Worded known (skipStatement f) := by
    rw [skipStatement]
    split_ifs <;> simp (disch := (rw [String.toList_ofList]; decide)) [payload]
  have populate : Worded known (populateStatement f) := by
    rw [populateStatement]
    split_ifs <;> simp (disch := (rw [String.toList_ofList]; decide)) [payload, words.ident]
  simp (disch := (rw [String.toList_ofList]; decide)) [readFieldSteps, words.id, words.flag, skip,
    populate]

/-! The code of a definition. -/

structure DefinitionWords (known : String → Prop) (d : Definition) : Prop where
  type : Worded known (typeIdent d.name)
  parts : Parts (typeIdent d.name).toList
  fields : ∀ f ∈ d.fields, FieldWords known f
  variants : ∀ e ∈ d.entries, Worded known (variantIdent e.name)

theorem tells_implBlock {body steps : List Step} (words : DefinitionWords known d) :
    Tells known (implBlock d body :: steps) ↔ Tells known body ∧ Tells known steps := by
  simp (disch := (rw [String.toList_ofList]; decide)) [implBlock, words.type]

theorem tells_fieldsSteps (words : DefinitionWords known d) : Tells known (fieldsSteps d) := by
  have members : Tells known (d.fields.map fun f =>
      .line ("pub " ++ (fieldIdent f ++ (": " ++ (rustType f ++ ","))))) := by
    rw [tells_map]
    intro f member
    have own := words.fields f member
    simp (disch := (rw [String.toList_ofList]; decide)) [own.ident, worded_rustType own.element]
  have ids : Tells known (d.fields.map fun f =>
      .line ("pub const " ++ (fieldConst f "ID" ++ (": u16 = " ++
        (f.id.toNat.repr ++ ";"))))) := by
    rw [tells_map]
    intro f member
    have own := words.fields f member
    have number : Worded known f.id.toNat.repr := worded_digits _
    simp (disch := (rw [String.toList_ofList]; decide)) [own.id, number]
  have count : Worded known d.fields.length.repr := worded_digits _
  simp (disch := (rw [String.toList_ofList]; decide)) [fieldsSteps, String.append_assoc,
    tells_implBlock words, words.type, members, ids, count]

theorem tells_constructorSteps (words : DefinitionWords known d) :
    Tells known (constructorSteps d) := by
  have joined : Worded known (String.intercalate ", "
      (d.fields.map fun f => fieldIdent f ++ (": " ++ rustType f))) := by
    apply worded_intercalate (by decide) (by decide) (by decide)
    intro text member
    obtain ⟨f, inside, rfl⟩ := List.mem_map.mp member
    have own := words.fields f inside
    simp (disch := (rw [String.toList_ofList]; decide)) [own.ident, worded_rustType own.element]
  have members : Tells known (d.fields.map fun f => .line (fieldIdent f ++ ",")) := by
    rw [tells_map]
    intro f member
    have own := words.fields f member
    simp (disch := (rw [String.toList_ofList]; decide)) [own.ident]
  simp only [constructorSteps, tells_implBlock words, toString_text, String.append_assoc,
    tells_append]
  split <;> split <;> simp (disch := (rw [String.toList_ofList]; decide)) [joined, members]

theorem tells_minSizeSteps {required : List Field}
    (lengths : ∀ f ∈ required, Worded known (fieldConst f "MIN_LEN")) :
    Tells known (minSizeSteps required) := by
  have constants : Tells known (required.map fun f =>
      .line ("const " ++ (fieldConst f "MIN_LEN" ++ (": usize = " ++ (minLength f ++ ";"))))) := by
    rw [tells_map]
    intro f member
    simp (disch := (rw [String.toList_ofList]; decide)) [lengths f member, worded_minLength]
  have total : Worded known (if required = [] then "0" else String.intercalate " + "
      (required.map fun f => "Self::" ++ fieldConst f "MIN_LEN")) := by
    split
    · exact worded_of_isFixed (by decide)
    · apply worded_intercalate (by decide) (by decide) (by decide)
      intro text member
      obtain ⟨f, inside, rfl⟩ := List.mem_map.mp member
      rw [worded_append_of_closes (by decide)]
      exact ⟨worded_of_isFixed (by decide), lengths f inside⟩
  simp (disch := (rw [String.toList_ofList]; decide)) [minSizeSteps, String.append_assoc,
    Function.comp_def, constants, total]

theorem tells_sizeSteps (words : DefinitionWords known d) : Tells known (sizeSteps d) := by
  have constants : Tells known (minSizeSteps (d.fields.filter fun f => !f.isOptional)) := by
    apply tells_minSizeSteps
    intro f member
    obtain ⟨member, required⟩ := List.mem_filter.mp member
    exact (words.fields f member).minLength (by simpa using required)
  have dynamic : Tells known (d.fields.flatMap dynamicSteps) :=
    tells_flatMap.mpr fun f member => tells_dynamicSteps (words.fields f member)
  simp only [sizeSteps, tells_implBlock words]
  split <;> simp (disch := (rw [String.toList_ofList]; decide)) [constants, dynamic]

theorem tells_serializeSteps (words : DefinitionWords known d) :
    Tells known (serializeSteps d) := by
  have fields : Tells known (d.fields.flatMap writeFieldSteps) :=
    tells_flatMap.mpr fun f member => tells_writeFieldSteps (words.fields f member)
  simp only [serializeSteps, tells_implBlock words]
  split <;> simp (disch := (rw [String.toList_ofList]; decide)) [fields]

theorem tells_deserializeSteps (words : DefinitionWords known d) :
    Tells known (deserializeSteps d) := by
  have flags : Tells known (d.fields.map fun f =>
      .line ("let mut " ++ (readFlag f ++ " = false;"))) := by
    rw [tells_map]
    intro f member
    simp (disch := (rw [String.toList_ofList]; decide)) [(words.fields f member).flag]
  have fields : Tells known (d.fields.map readFieldSteps) :=
    tells_map.mpr fun f member => tells_readFieldSteps (words.fields f member)
  simp only [deserializeSteps, readLoopSteps, tells_implBlock words, toString_text,
    String.append_assoc]
  split <;> simp (disch := (rw [String.toList_ofList]; decide)) [flags, fields]

theorem tells_bindingSteps (words : DefinitionWords known d) : Tells known (bindingSteps d) := by
  simp (disch := (rw [String.toList_ofList]; decide)) [bindingSteps, words.type]

theorem worded_quote {name : String} (parts : Parts name.toList) (here : Worded known name) :
    Worded known (quote name) := by
  have plain : ∀ c ∈ name.toList, escapeChar c = [c] := by
    intro c member
    exact forall_ascii (P := fun c => isNamePart c = true → escapeChar c = [c]) (by decide)
      (toNat_lt_of_isNamePart (parts c member)) (parts c member)
  have same : name.toList.flatMap escapeChar = name.toList := by
    rw [List.flatMap_congr plain]
    simp
  rw [Worded, quote, quoteChars, String.toList_ofList, same, wordsIn_cons (by decide),
    wordsIn_concat (by decide)]
  exact here

theorem tells_enumSteps {steps : List Step} (done : enumSteps d = .ok steps)
    (words : DefinitionWords known d) : Tells known steps := by
  have lines : Tells known (d.entries.map fun e =>
      .line (variantIdent e.name ++ (" = " ++ (e.value.toInt.repr ++ ",")))) := by
    rw [tells_map]
    intro e member
    simp (disch := (rw [String.toList_ofList]; decide)) [words.variants e member,
      worded_intRepr]
  have variants : Tells known (variantSteps d.entries) := by
    simp only [variantSteps, toString_text, String.append_assoc]
    split
    next => exact tells_nil
    next first rest same =>
      rw [tells_line, ← same]
      exact ⟨.inr (worded_of_isFixed (by decide)), lines⟩
  have arms : Tells known (d.entries.map fun e => .line (e.value.toInt.repr ++
      (" => Ok(" ++ (typeIdent d.name ++ ("::" ++ (variantIdent e.name ++ "),")))))) := by
    rw [tells_map]
    intro e member
    simp (disch := (rw [String.toList_ofList]; decide)) [words.type, words.variants e member,
      worded_intRepr]
  have quoted := worded_quote words.parts words.type
  rw [enumSteps] at done
  split at done
  · cases done
  · cases done
    simp (disch := (rw [String.toList_ofList]; decide)) [String.append_assoc, words.type, variants,
      arms, quoted]

theorem tells_facet {facet : Facet} {steps : List Step} (done : facet.steps d = .ok steps)
    (words : DefinitionWords known d) : Tells known steps := by
  cases facet with
  | fields => cases done; exact tells_fieldsSteps words
  | constructor => cases done; exact tells_constructorSteps words
  | size => cases done; exact tells_sizeSteps words
  | serialize => cases done; exact tells_serializeSteps words
  | deserialize => cases done; exact tells_deserializeSteps words
  | binding => cases done; exact tells_bindingSteps words
  | enum => exact tells_enumSteps done words

theorem tells_typeSteps {facets : List Facet} {s : Schema} {steps : List Step}
    (done : typeSteps facets s d = .ok steps) (words : DefinitionWords known d) :
    Tells known steps := by
  rw [typeSteps, then_eq_ok_iff] at done
  obtain ⟨parts, built, same⟩ := bind_eq_ok_iff.mp done.2
  cases same
  rw [tells_intersperse_blank, ← List.map_id parts, tells_map]
  intro part member
  obtain ⟨facet, -, stepped⟩ := exists_of_mem_mapM built member
  obtain ⟨own, made, same⟩ := bind_eq_ok_iff.mp stepped
  cases same
  exact tells_appended.mpr ⟨tells_facet made words, tells_nil⟩

theorem tells_typesSteps {facets : List Facet} {s : Schema} {definitions : List Definition}
    {steps : List Step} (done : typesSteps facets s definitions = .ok steps)
    (words : ∀ d ∈ definitions, DefinitionWords known d) : Tells known steps := by
  induction definitions generalizing steps with
  | nil =>
    cases done
    exact tells_nil
  | cons d definitions ih =>
    obtain ⟨here, words⟩ := List.forall_mem_cons.mp words
    rw [typesSteps, bind_eq_ok_iff] at done
    obtain ⟨own, first, done⟩ := done
    obtain ⟨others, later, same⟩ := bind_eq_ok_iff.mp done
    cases same
    rw [tells_blank, tells_appended]
    exact ⟨tells_typeSteps first here, ih later words⟩

end

/-- What the words of a document are, behind its header. -/
theorem tells_of_documentSteps {known : String → Prop} {facets : List Facet} {s : Schema}
    {sourceName : Option String} {steps : List Step} {modules : List String}
    (done : documentSteps facets s sourceName = .ok (headerSteps sourceName ++ steps))
    (found : modulesOf s = .ok modules) (named : ∀ m ∈ modules, Worded known m)
    (words : ∀ d ∈ s.definitions, DefinitionWords known d) : Tells known steps := by
  obtain ⟨-, done⟩ := then_eq_ok_iff.mp done
  obtain ⟨body, built, done⟩ := bind_eq_ok_iff.mp done
  obtain ⟨modules', found', same⟩ := bind_eq_ok_iff.mp done
  obtain rfl := Except.ok.inj (found.symm.trans found')
  obtain ⟨types, made, same'⟩ := bind_eq_ok_iff.mp built
  cases same'
  have code := Except.ok.inj same
  rw [List.append_assoc, List.append_assoc] at code
  rw [← List.append_cancel_left code]
  have own := tells_typesSteps made fun d member => words d (mem_enumsFirst.mp member)
  have entered : Tells known (modules.map fun m => .enter s!"pub mod {m}") := by
    rw [tells_map]
    intro m member
    simp (disch := (rw [String.toList_ofList]; decide)) [named m member]
  have left : Tells known (modules.map fun _ => .leave) :=
    tells_map.mpr fun _ _ => tells_leave.mpr tells_nil
  rw [tells_append, tells_append]
  refine ⟨entered, ?_, left⟩
  simp (disch := (rw [String.toList_ofList]; decide)) [importLine, own]

end WireSchema.Code
