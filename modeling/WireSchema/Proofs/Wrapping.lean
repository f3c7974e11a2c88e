import WireSchema.Proofs.Declarations

/-!
A namespace moves code and changes nothing in it. A document with a namespace is the document
without one, where behind the header a line opens each module, all that follows stands further to
the right by four blanks for each of them, and as many braces close them.
-/

namespace WireSchema

/-- The same schema outside of all namespaces. -/
def Schema.withoutNamespace (s : Schema) : Schema :=
  ⟨s.defines.filter fun d => d.key != "namespace", s.definitions⟩

namespace Code

open Text Token

/-- A line moves to the right, unless it is empty. -/
def indentLine (width : Nat) (line : List Char) : List Char :=
  if line = [] then [] else List.replicate width ' ' ++ line

def indented (width : Nat) (text : String) : String :=
  String.ofList (['\n'].intercalate ((text.toList.splitOn '\n').map (indentLine width)))

example : indented 2 "a\n\n  b\n" = "  a\n\n    b\n" := by decide

/-- Lines that open modules inside each other, the first of them at this depth. -/
def openings : Nat → List String → String
  | _, [] => ""
  | depth, name :: names =>
    Listing.indentation depth ++ "pub mod " ++ name ++ " \x7b\n" ++ openings (depth + 1) names

/-- Lines that close so many blocks, the outermost at last. -/
def closings : Nat → String
  | 0 => ""
  | depth + 1 => Listing.indentation depth ++ "\x7d\n" ++ closings depth

def headerText (sourceName : Option String) : String :=
  (Listing.ofSteps (headerSteps sourceName)).render

/-! Texts and their lines. -/

section

variable {cs : List Char} {text : String}

theorem trimEnd_append {c : Char} (solid : isBlank c = false) :
    trimEnd (cs ++ [c]) = cs ++ [c] := by
  rw [trimEnd, List.reverse_concat, List.dropWhile_cons_of_neg (by simp [solid]), List.reverse_cons,
    List.reverse_reverse]

theorem notMem_trimEnd {c : Char} (absent : c ∉ cs) : c ∉ trimEnd cs := by
  rw [trimEnd, List.mem_reverse]
  intro member
  exact absent (List.mem_reverse.mp (List.dropWhile_sublist isBlank |>.mem member))

/-- No line of a listing has a newline in it. -/
theorem newline_notMem_ofSteps {steps : List Step} {line : Line}
    (member : line ∈ (Listing.ofSteps steps).lines.toList) : '\n' ∉ line.text.toList := by
  have inside : line.text ∈ (Listing.ofSteps steps).texts := List.mem_map_of_mem member
  rw [Listing.texts_ofSteps] at inside
  obtain ⟨text, -, inside⟩ := List.mem_flatMap.mp inside
  obtain ⟨part, cut, whole⟩ := List.mem_map.mp inside
  rw [← whole, String.toList_ofList]
  exact notMem_trimEnd (mem_splitOn cut).1

@[simp] theorem indentLine_zero (line : List Char) : indentLine 0 line = line := by
  rw [indentLine]
  split
  next empty => rw [empty]
  next => rfl

theorem indentLine_indentLine (width more : Nat) (line : List Char) :
    indentLine width (indentLine more line) = indentLine (width + more) line := by
  by_cases empty : line = []
  · simp [indentLine, empty]
  · simp [indentLine, empty, ← List.replicate_append_replicate]

theorem indented_zero (text : String) : indented 0 text = text := by
  have same : indentLine 0 = id := funext indentLine_zero
  rw [indented, same, List.map_id, List.intercalate_splitOn, String.ofList_toList]

theorem intercalate_concat_nil (lines : List (List Char)) :
    ['\n'].intercalate (lines ++ [[]]) = lines.flatMap fun line => line ++ ['\n'] := by
  induction lines with
  | nil => rfl
  | cons line lines ih =>
    obtain ⟨first, rest, whole⟩ : ∃ first rest, lines ++ [[]] = first :: rest :=
      List.exists_cons_of_ne_nil (by simp)
    rw [List.cons_append, whole, List.intercalate_cons_cons, ← whole, ih, List.flatMap_cons]

/-- In a text that is made of whole lines, each of them moves. -/
theorem toList_indented {lines : List (List Char)} {width : Nat}
    (whole : text.toList = lines.flatMap fun line => line ++ ['\n'])
    (plain : ∀ line ∈ lines, '\n' ∉ line) :
    (indented width text).toList = lines.flatMap fun line => indentLine width line ++ ['\n'] := by
  have cut : text.toList.splitOn '\n' = lines ++ [[]] := by
    rw [whole, ← intercalate_concat_nil]
    apply List.splitOn_intercalate
    · intro line member
      rcases List.mem_append.mp member with member | member
      · exact plain line member
      · rw [List.mem_singleton.mp member]
        exact List.not_mem_nil
    · simp
  have empty : indentLine width [] = [] := if_pos rfl
  rw [indented, String.toList_ofList, cut, List.map_append, List.map_singleton, empty,
    intercalate_concat_nil, List.flatMap_map]

end

/-! The text of a listing. -/

def Line.chars (line : Line) : List Char :=
  indentLine (4 * line.depth) line.text.toList

namespace Listing

theorem toList_renderLine (line : Line) : (renderLine line).toList = line.chars ++ ['\n'] := by
  rw [renderLine, Line.chars, indentLine, indentation]
  by_cases empty : line.text = ""
  · simp [empty]
  · simp [empty]

theorem render_push (l : Listing) (line : Line) (depth : Nat) :
    (Listing.mk (l.lines.push line) depth).render = l.render ++ renderLine line :=
  Array.foldl_push

def rows (l : Listing) : List (List Char) := l.lines.toList.map Line.chars

theorem toList_render (l : Listing) :
    l.render.toList = l.rows.flatMap fun row => row ++ ['\n'] := by
  rw [render, ← Array.foldl_toList, rows, List.flatMap_map]
  suffices ∀ (lines : List Line) (text : String),
      (lines.foldl (fun text line => text ++ renderLine line) text).toList =
        text.toList ++ lines.flatMap fun line => line.chars ++ ['\n'] from this _ _
  intro lines
  induction lines with
  | nil => simp
  | cons line lines ih =>
    intro text
    rw [List.foldl_cons, ih, String.toList_append, toList_renderLine, List.flatMap_cons,
      List.append_assoc]

theorem rows_addLine (l : Listing) (text : String) :
    (l.addLine text).rows =
      l.rows ++ ((pieces text).map String.toList).map (indentLine (4 * l.depth)) := by
  simp [rows, addLine, pieces, Line.chars]

theorem depth_addShifted (l : Listing) (line : Line) : (l.addShifted line).depth = l.depth := by
  rw [addShifted]
  split <;> rfl

theorem rows_addShifted (l : Listing) (line : Line) :
    (l.addShifted line).rows = l.rows ++ [indentLine (4 * l.depth) line.chars] := by
  rw [addShifted]
  by_cases empty : line.text = ""
  · simp [rows, addBlank, Line.chars, indentLine, empty]
  · simp [rows, Line.chars, indentLine_indentLine, empty, Nat.mul_add]

theorem depth_append (l other : Listing) : (l.append other).depth = l.depth := by
  rw [append, ← Array.foldl_toList]
  generalize other.lines.toList = lines
  induction lines generalizing l with
  | nil => rfl
  | cons line lines ih => rw [List.foldl_cons, ih, depth_addShifted]

theorem rows_append (l other : Listing) :
    (l.append other).rows = l.rows ++ other.rows.map (indentLine (4 * l.depth)) := by
  have taken : other.rows = other.lines.toList.map Line.chars := rfl
  rw [append, ← Array.foldl_toList, taken, List.map_map]
  generalize other.lines.toList = lines
  induction lines generalizing l with
  | nil => simp
  | cons line lines ih =>
    rw [List.foldl_cons, ih, rows_addShifted, depth_addShifted, List.append_assoc]
    rfl

/-- A listing in another one is its text, moved to the depth of the other. -/
theorem render_append (l : Listing) {other : Listing}
    (plain : ∀ line ∈ other.lines.toList, '\n' ∉ line.text.toList) :
    (l.append other).render = l.render ++ indented (4 * l.depth) other.render := by
  have single : ∀ row ∈ other.rows, '\n' ∉ row := by
    intro row member
    obtain ⟨line, inside, rfl⟩ := List.mem_map.mp member
    rw [Line.chars, indentLine]
    split
    · exact List.not_mem_nil
    · rw [List.mem_append, not_or]
      refine ⟨fun blank => ?_, plain line inside⟩
      exact absurd (List.eq_of_mem_replicate blank) (by decide)
  apply String.toList_inj.mp
  rw [String.toList_append, toList_indented other.toList_render single, toList_render, toList_render,
    rows_append, List.flatMap_append, List.flatMap_map]

/-- A text without newlines that ends in a solid character becomes one line. -/
theorem render_addLine (l : Listing) {text : String} {front : List Char} {c : Char}
    (whole : text.toList = front ++ [c]) (plain : '\n' ∉ text.toList) (solid : isBlank c = false) :
    (l.addLine text).render = l.render ++ (indentation l.depth ++ text ++ "\n") := by
  have tight : String.ofList (trimEnd text.toList) = text := by
    rw [whole, trimEnd_append solid, ← whole, String.ofList_toList]
  have given : text ≠ "" := by
    rintro rfl
    exact absurd whole (by simp)
  rw [addLine, List.splitOn_eq_singleton plain, List.foldl_cons, List.foldl_nil, render_push, tight,
    renderLine, if_neg (by simpa using given)]

theorem render_enter (l : Listing) {header : String} (plain : '\n' ∉ header.toList)
    (given : header ≠ "") :
    (l.enter header).render = l.render ++ (indentation l.depth ++ header ++ " \x7b\n") := by
  have whole : (header ++ " \x7b").toList = (header.toList ++ [' ']) ++ ['\x7b'] := by
    simp [String.toList_append]
  have single : '\n' ∉ (header ++ " \x7b").toList := by
    simp [String.toList_append, plain]
  have line := l.render_addLine whole single (by decide)
  rw [enter, if_neg (by simpa using given)]
  refine line.trans ?_
  simp only [String.append_assoc]
  rfl

theorem render_leave (l : Listing) :
    l.leave.render = l.render ++ (indentation (l.depth - 1) ++ "\x7d\n") := by
  have whole : "\x7d".toList = [] ++ ['\x7d'] := rfl
  refine (l.dedent.render_addLine whole (by decide) (by decide)).trans ?_
  rw [String.append_assoc]
  rfl

end Listing

/-! The text of modules. -/

theorem Step.runAll_append (steps later : List Step) (l : Listing) :
    Step.runAll (steps ++ later) l = Step.runAll later (Step.runAll steps l) := by
  induction steps generalizing l with
  | nil => rw [List.nil_append, Step.runAll_nil]
  | cons s steps ih => rw [List.cons_append, Step.runAll_cons, Step.runAll_cons, ih]

/-- Steps that open modules write a line for each. -/
theorem render_enters {modules : List String} (named : ∀ m ∈ modules, IsName m) (l : Listing) :
    (Step.runAll (modules.map fun name => .enter ("pub mod " ++ name)) l).render =
        l.render ++ openings l.depth modules ∧
      (Step.runAll (modules.map fun name => .enter ("pub mod " ++ name)) l).depth =
        l.depth + modules.length := by
  induction modules generalizing l with
  | nil => simp [openings]
  | cons name modules ih =>
    obtain ⟨rendered, depth⟩ := ih (fun m member => named m (List.mem_cons_of_mem name member))
      (l.enter ("pub mod " ++ name))
    have plain : '\n' ∉ ("pub mod " ++ name).toList := by
      rw [String.toList_append, List.mem_append, not_or]
      exact ⟨by decide, fun inside =>
        absurd ((named name List.mem_cons_self).parts '\n' inside) (by decide)⟩
    have entered := l.render_enter plain (by simp)
    have deeper : (l.enter ("pub mod " ++ name)).depth = l.depth + 1 := rfl
    rw [List.map_cons, Step.runAll_cons, Step.run, rendered, depth, entered, deeper, openings,
      List.length_cons]
    exact ⟨by simp only [String.append_assoc], by omega⟩

/-- Steps that close blocks write a brace for each. -/
theorem render_leaves {modules : List String} {l : Listing} (deep : l.depth = modules.length) :
    (Step.runAll (modules.map fun _ => .leave) l).render = l.render ++ closings modules.length := by
  induction modules generalizing l with
  | nil => simp [closings]
  | cons name modules ih =>
    rw [List.length_cons] at deep
    have outer : l.leave.depth = modules.length := (congrArg (· - 1) deep).trans (by simp)
    rw [List.map_cons, Step.runAll_cons, Step.run, ih outer, l.render_leave, deep, List.length_cons,
      closings, String.append_assoc]
    rfl

/-- The header ends at depth zero, with a line that closes the comment and a blank one. -/
theorem header_ends (sourceName : Option String) :
    (Listing.ofSteps (headerSteps sourceName)).depth = 0 ∧
      ∃ comment, headerText sourceName = comment ++ "// </auto-generated>\n\n" := by
  obtain ⟨front, whole, level⟩ : ∃ front : List Step,
      headerSteps sourceName = front ++ [.line "// </auto-generated>", .blank] ∧
        (Listing.ofSteps front).depth = 0 := by
    refine ⟨_, rfl, ?_⟩
    cases sourceName with
    | none => rfl
    | some name =>
      dsimp only
      split <;> rfl
  have run : Listing.ofSteps (headerSteps sourceName) =
      ((Listing.ofSteps front).addLine "// </auto-generated>").addBlank := by
    rw [whole, Listing.ofSteps, Step.runAll_append]
    rfl
  have tail : "// </auto-generated>".toList = "// </auto-generated".toList ++ ['>'] := by decide
  refine ⟨by rw [run]; exact level, (Listing.ofSteps front).render, ?_⟩
  rw [headerText, run, Listing.addBlank, Listing.render_push,
    Listing.render_addLine _ tail (by decide) (by decide), level, String.append_assoc]
  rfl

/-! What a namespace does not touch. -/

section

variable (s : Schema)

theorem modulesOf_withoutNamespace : modulesOf s.withoutNamespace = .ok [] := by
  have none : s.withoutNamespace.define? "namespace" = none := by
    simp [Schema.define?, Schema.withoutNamespace]
  rw [modulesOf, Schema.namespace?, none]
  rfl

theorem checkFields_withoutNamespace (owner : String) (idents consts : Taken)
    (fields : List Field) :
    checkFields s.withoutNamespace owner idents consts fields =
      checkFields s owner idents consts fields := by
  have same : checkReference s.withoutNamespace owner = checkReference s owner := rfl
  induction fields generalizing idents consts with
  | nil => rfl
  | cons f fields ih =>
    rw [checkFields, checkFields, same]
    simp only [ih]

theorem typesSteps_withoutNamespace (facets : List Facet) (definitions : List Definition) :
    typesSteps facets s.withoutNamespace definitions = typesSteps facets s definitions := by
  induction definitions with
  | nil => rfl
  | cons d definitions ih =>
    rw [typesSteps, typesSteps, typeSteps, typeSteps, checkDefinition, checkDefinition,
      checkFields_withoutNamespace, ih]

theorem bodySteps_withoutNamespace (facets : List Facet) :
    bodySteps facets s.withoutNamespace = bodySteps facets s := by
  rw [bodySteps, bodySteps, typesSteps_withoutNamespace]
  rfl

end

/-- The text of a document, from its modules and its body. -/
theorem render_document (sourceName : Option String) {modules : List String} (body : List Step)
    (named : ∀ m ∈ modules, IsName m) :
    (Listing.ofSteps (headerSteps sourceName
        ++ modules.map (fun name => Step.enter s!"pub mod {name}")
        ++ [Step.append body]
        ++ modules.map fun _ => Step.leave)).render =
      headerText sourceName ++ openings 0 modules ++
        indented (4 * modules.length) (Listing.ofSteps body).render ++ closings modules.length := by
  obtain ⟨opened, depth⟩ := render_enters named (Listing.ofSteps (headerSteps sourceName))
  rw [(header_ends sourceName).1] at opened depth
  rw [Nat.zero_add] at depth
  generalize inside : Step.runAll (modules.map fun name => .enter ("pub mod " ++ name))
    (Listing.ofSteps (headerSteps sourceName)) = l at opened depth
  have run : Listing.ofSteps (headerSteps sourceName
        ++ modules.map (fun name => Step.enter s!"pub mod {name}")
        ++ [Step.append body]
        ++ modules.map fun _ => Step.leave) =
      Step.runAll (modules.map fun _ => .leave) (l.append (Listing.ofSteps body)) := by
    rw [Listing.ofSteps, Step.runAll_append, Step.runAll_append, Step.runAll_append,
      Step.runAll_cons, Step.runAll_nil, Step.run, ← inside]
    rfl
  rw [run, render_leaves ((l.depth_append _).trans depth),
    l.render_append fun _ member => newline_notMem_ofSteps member, opened, depth]
  rfl

/-- A namespace wraps the document without one into its modules. -/
theorem document_wrapped {facets : List Facet} {s : Schema} {sourceName : Option String}
    {code : String} (done : document facets s sourceName = .ok code) :
    ∃ modules comment part, modulesOf s = .ok modules ∧
      headerText sourceName = comment ++ "// </auto-generated>\n\n" ∧
      document facets s.withoutNamespace sourceName = .ok (headerText sourceName ++ part) ∧
      code = headerText sourceName ++ openings 0 modules ++
        indented (4 * modules.length) part ++ closings modules.length := by
  obtain ⟨comment, header⟩ := (header_ends sourceName).2
  rw [document, bind_eq_ok_iff] at done
  obtain ⟨steps, built, rendered⟩ := done
  rw [documentSteps, then_eq_ok_iff] at built
  obtain ⟨distinct, built⟩ := built
  obtain ⟨body, bodied, built⟩ := bind_eq_ok_iff.mp built
  obtain ⟨modules, found, built⟩ := bind_eq_ok_iff.mp built
  cases built
  refine ⟨modules, comment, (Listing.ofSteps body).render, found, header, ?_, ?_⟩
  · -- outside of all modules, the body moves by nothing
    have plain : (Listing.ofSteps (headerSteps sourceName ++ [] ++ [.append body] ++ [])).render =
        headerText sourceName ++ (Listing.ofSteps body).render := by
      refine (render_document sourceName body fun m none => absurd none List.not_mem_nil).trans ?_
      rw [List.length_nil, Nat.mul_zero, indented_zero, openings, closings, String.append_empty,
        String.append_empty]
    rw [← plain, document, bind_eq_ok_iff]
    refine ⟨_, ?_, rfl⟩
    rw [documentSteps, then_eq_ok_iff]
    refine ⟨distinct, bind_eq_ok_iff.mpr ⟨body, ?_, bind_eq_ok_iff.mpr
      ⟨[], modulesOf_withoutNamespace s, rfl⟩⟩⟩
    rw [bodySteps_withoutNamespace, bodied]
  · rw [← Except.ok.inj rendered]
    exact render_document sourceName body (isName_of_modulesOf found)

/-- Two modules, one of them named by a keyword. -/
theorem document_wrapped_self :
    ∃ code part, document Facet.all selfSchema (some "self") = .ok code ∧
      document Facet.all selfSchema.withoutNamespace (some "self") =
        .ok (headerText (some "self") ++ part) ∧
      code = headerText (some "self") ++ "pub mod a \x7b\n    pub mod mod_ \x7b\n" ++
        indented 8 part ++ "    \x7d\n\x7d\n" := by
  obtain ⟨code, done⟩ : ∃ code, document Facet.all selfSchema (some "self") = .ok code := ⟨_, rfl⟩
  obtain ⟨modules, comment, part, found, -, plain, whole⟩ := document_wrapped done
  have inside : modulesOf selfSchema = .ok ["a", "mod_"] := rfl
  obtain rfl := Except.ok.inj (inside.symm.trans found)
  exact ⟨code, part, done, plain, whole⟩

end Code

end WireSchema
