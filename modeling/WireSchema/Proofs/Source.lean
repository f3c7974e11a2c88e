import WireSchema.Proofs.Wrapping

/-!
The name of the source in a document. It is written into the comment at the top and nowhere else.
A newline in it ends the line of the comment, though, and what follows is no comment unless it
looks like one itself. Where it does, and where there is no newline, documents that differ in the
name of their source differ in comments only.
-/

namespace WireSchema.Code

open Text

/-- The lines of a text; what follows the last newline counts, even if it is empty. -/
def linesOf (text : String) : List (List Char) := text.toList.splitOn '\n'

def isComment (line : List Char) : Bool := ['/', '/'].isPrefixOf line

/-- All lines in front of the first empty one. -/
def opening (lines : List (List Char)) : List (List Char) := lines.takeWhile (· ≠ [])

def Comments (lines : List (List Char)) : Prop := ∀ line ∈ lines, isComment line = true

instance (lines : List (List Char)) : Decidable (Comments lines) :=
  inferInstanceAs (Decidable (∀ line ∈ lines, isComment line = true))

/-- The lines without the comments in front of the first empty one. -/
def uncommented (lines : List (List Char)) : List (List Char) :=
  (opening lines).filter (fun line => !isComment line) ++ lines.dropWhile (· ≠ [])

/-- The name is not written at all, or each line of it after the first is a comment of its own. -/
def StaysInside : Option String → Prop
  | none => True
  | some name =>
    trim name.toList = [] ∨ Comments ((linesOf name).tail.map trimEnd)

instance : DecidablePred StaysInside
  | none => .isTrue trivial
  | some name =>
    inferInstanceAs (Decidable (trim name.toList = [] ∨ Comments ((linesOf name).tail.map trimEnd)))

/-! Texts and their lines. -/

section

variable {lines first source post : List (List Char)} {last front cs : List Char} {c : Char}

theorem splitOn_lines (plain : ∀ line ∈ lines, '\n' ∉ line) (cs : List Char) :
    (lines.flatMap (fun line => line ++ ['\n']) ++ cs).splitOn '\n' = lines ++ cs.splitOn '\n' := by
  induction lines with
  | nil => rfl
  | cons line lines ih =>
    obtain ⟨here, plain⟩ := List.forall_mem_cons.mp plain
    have whole : ∀ c ∈ line, (c == '\n') = false := by
      intro c member
      rw [beq_eq_false_iff_ne]
      rintro rfl
      exact here member
    rw [List.flatMap_cons, List.append_assoc, List.append_assoc, List.singleton_append,
      List.splitOn_eq_splitOnP, List.splitOnP_append_cons_of_forall_mem whole '\n' rfl,
      ← List.splitOn_eq_splitOnP, ih plain, List.cons_append]

/-- What stands in front of a text without a newline belongs to its first line. -/
theorem splitOn_front (plain : '\n' ∉ front) (cs : List Char) :
    (front ++ cs).splitOn '\n' = (cs.splitOn '\n').modifyHead (front ++ ·) := by
  obtain ⟨head, tail, whole⟩ := List.exists_cons_of_ne_nil (List.splitOn_ne_nil '\n' cs)
  induction front with
  | nil => simp [whole]
  | cons c front ih =>
    rw [List.mem_cons, not_or] at plain
    obtain ⟨unlike, plain⟩ := plain
    rw [List.cons_append, List.splitOn_cons_eq_if_modifyHead, ih plain, whole,
      if_neg (by simpa using Ne.symm unlike)]
    rfl

theorem trimEnd_cons (solid : isBlank c = false) (cs : List Char) :
    trimEnd (c :: cs) = c :: trimEnd cs := by
  rw [trimEnd, trimEnd, List.reverse_cons, List.dropWhile_append]
  split
  next none => simp [List.isEmpty_iff.mp none, solid]
  next => simp

theorem isComment_trimEnd (cs : List Char) : isComment (trimEnd ('/' :: '/' :: cs)) = true := by
  rw [trimEnd_cons (by decide), trimEnd_cons (by decide)]
  rfl

theorem ne_nil_of_isComment {line : List Char} (comment : isComment line = true) : line ≠ [] := by
  rintro rfl
  cases comment

theorem comments_append : Comments (lines ++ post) ↔ Comments lines ∧ Comments post :=
  List.forall_mem_append

theorem comments_cons : Comments (cs :: lines) ↔ isComment cs = true ∧ Comments lines :=
  List.forall_mem_cons

theorem Comments.solid (comments : Comments lines) :
    ∀ line ∈ lines, decide (line ≠ []) = true :=
  fun line member => decide_eq_true (ne_nil_of_isComment (comments line member))

theorem opening_append (comments : Comments first) (post : List (List Char)) :
    opening (first ++ post) = first ++ opening post :=
  List.takeWhile_append_of_pos comments.solid

theorem opening_nil_cons (post : List (List Char)) : opening ([] :: post) = [] := by simp [opening]

/-- Comments in front of an empty line are all that is left out. -/
theorem uncommented_append (comments : Comments first) (post : List (List Char)) :
    uncommented (first ++ [] :: post) = [] :: post := by
  have none : first.filter (fun line => !isComment line) = [] := by
    rw [List.filter_eq_nil_iff]
    exact fun line member => by simp [comments line member]
  rw [uncommented, opening_append comments, opening_nil_cons, List.append_nil, none,
    List.dropWhile_append_of_pos comments.solid, List.dropWhile_cons_of_neg (by simp),
    List.nil_append]

/-- Lines that are put into a comment leave it one, and leave the rest as it is, exactly if they are
comments too. -/
theorem comments_iff (comments : Comments first) (closed : isComment last = true) :
    Comments (opening (first ++ (source ++ last :: [] :: post))) ∧
        uncommented (first ++ (source ++ last :: [] :: post)) = [] :: post ↔
      Comments source := by
  induction source generalizing first with
  | nil =>
    have all : Comments (first ++ [last]) :=
      comments_append.mpr ⟨comments, comments_cons.mpr ⟨closed, nofun⟩⟩
    rw [List.nil_append, List.append_cons, opening_append all, opening_nil_cons, List.append_nil]
    exact iff_of_true ⟨all, uncommented_append all post⟩ nofun
  | cons line source ih =>
    rw [comments_cons]
    by_cases comment : isComment line = true
    · have all : Comments (first ++ [line]) :=
        comments_append.mpr ⟨comments, comments_cons.mpr ⟨comment, nofun⟩⟩
      rw [List.cons_append, List.append_cons, ih all]
      exact (and_iff_right comment).symm
    · refine iff_of_false ?_ fun both => comment both.1
      rintro ⟨all, rest⟩
      by_cases empty : line = []
      · -- the comment breaks off here, and its own end is still to come
        rw [empty, List.cons_append, uncommented_append comments] at rest
        have lengths := congrArg List.length rest
        simp at lengths
        omega
      · rw [opening_append comments, comments_append, List.cons_append, opening,
          List.takeWhile_cons_of_pos (by simpa using empty), comments_cons] at all
        exact comment all.2.1

end

/-! The lines of the header. -/

def trimmed (text : String) : List (List Char) := (linesOf text).map trimEnd

theorem newline_notMem_trimmed (text : String) : ∀ line ∈ trimmed text, '\n' ∉ line := by
  intro line member
  obtain ⟨part, cut, rfl⟩ := List.mem_map.mp member
  exact notMem_trimEnd (mem_splitOn cut).1

theorem toList_render_addLine {l : Listing} (flat : l.depth = 0) (text : String) :
    (l.addLine text).render.toList =
      l.render.toList ++ (trimmed text).flatMap fun line => line ++ ['\n'] := by
  have cut : (pieces text).map String.toList = trimmed text := by
    simp [pieces, trimmed, linesOf]
  have still : indentLine (4 * l.depth) = id := by
    rw [flat]
    exact funext indentLine_zero
  rw [Listing.toList_render, Listing.toList_render, Listing.rows_addLine, still, List.map_id, cut,
    List.flatMap_append]

/-- Lines that are added at the left edge are rendered at the end. -/
theorem toList_render_lines (texts : List String) {l : Listing} (flat : l.depth = 0) :
    (Step.runAll (texts.map Step.line) l).render.toList =
      l.render.toList ++ (texts.flatMap trimmed).flatMap fun line => line ++ ['\n'] := by
  induction texts generalizing l with
  | nil => simp
  | cons text texts ih =>
    have still : (l.addLine text).depth = 0 := flat
    rw [List.map_cons, Step.runAll_cons, Step.run, ih still, toList_render_addLine flat,
      List.flatMap_cons, List.flatMap_append, List.append_assoc]

def sourceTexts : Option String → List String
  | none => []
  | some name => if (trim name.toList).isEmpty then [] else ["// Source: " ++ name]

def headerTexts (sourceName : Option String) : List String :=
  ["// <auto-generated>", "// Generated by the nsd compiler. Do not modify!",
    "// Language version: 1"] ++ (sourceTexts sourceName ++ ["// </auto-generated>"])

/-- The header is a few lines and a blank one. -/
theorem headerSteps_eq (sourceName : Option String) :
    headerSteps sourceName = (headerTexts sourceName).map Step.line ++ [Step.blank] := by
  cases sourceName with
  | none => rfl
  | some name =>
    simp only [headerSteps, headerTexts, sourceTexts]
    split <;> rfl

theorem toList_headerText (sourceName : Option String) :
    (headerText sourceName).toList =
      ((headerTexts sourceName).flatMap trimmed ++ [[]]).flatMap fun line => line ++ ['\n'] := by
  have blank (l : Listing) :
      (Step.runAll [.blank] l).render.toList = l.render.toList ++ ['\n'] := by
    rw [Step.runAll_cons, Step.runAll_nil, Step.run, Listing.addBlank, Listing.render_push,
      String.toList_append]
    rfl
  rw [headerText, headerSteps_eq, Listing.ofSteps, Step.runAll_append, blank,
    toList_render_lines _ (show Listing.empty.depth = 0 from rfl), List.flatMap_append]
  rfl

/-- The lines of a document. -/
theorem linesOf_document (sourceName : Option String) (body : String) :
    linesOf (headerText sourceName ++ body) =
      ["// <auto-generated>".toList, "// Generated by the nsd compiler. Do not modify!".toList,
          "// Language version: 1".toList] ++
        ((sourceTexts sourceName).flatMap trimmed ++
          "// </auto-generated>".toList :: [] :: linesOf body) := by
  have plain : ∀ line ∈ (headerTexts sourceName).flatMap trimmed ++ [[]], '\n' ∉ line := by
    refine List.forall_mem_append.mpr ⟨fun line member => ?_, by simp⟩
    obtain ⟨text, -, inside⟩ := List.mem_flatMap.mp member
    exact newline_notMem_trimmed text line inside
  have start : (["// <auto-generated>", "// Generated by the nsd compiler. Do not modify!",
      "// Language version: 1"] : List String).flatMap trimmed =
      ["// <auto-generated>".toList, "// Generated by the nsd compiler. Do not modify!".toList,
          "// Language version: 1".toList] := by decide
  have ending : (["// </auto-generated>"] : List String).flatMap trimmed =
      ["// </auto-generated>".toList] := by decide
  rw [linesOf, String.toList_append, toList_headerText, splitOn_lines plain, headerTexts,
    List.flatMap_append, List.flatMap_append, start, ending]
  simp only [List.append_assoc, List.singleton_append]
  rfl

/-- The lines of the source name are comments exactly if it stays inside its comment. -/
theorem comments_source_iff (sourceName : Option String) :
    Comments ((sourceTexts sourceName).flatMap trimmed) ↔ StaysInside sourceName := by
  cases sourceName with
  | none => exact iff_of_true nofun trivial
  | some name =>
    rw [sourceTexts, StaysInside]
    by_cases blank : trim name.toList = []
    · rw [if_pos (List.isEmpty_iff.mpr blank)]
      exact iff_of_true nofun (Or.inl blank)
    · obtain ⟨head, tail, whole⟩ :=
        List.exists_cons_of_ne_nil (List.splitOn_ne_nil '\n' name.toList)
      have first : isComment (trimEnd ("// Source: ".toList ++ head)) = true :=
        isComment_trimEnd _
      rw [if_neg (by simpa using blank), List.flatMap_singleton, trimmed, linesOf, linesOf,
        String.toList_append, splitOn_front (by decide), whole, List.modifyHead_cons, List.map_cons,
        comments_cons, List.tail_cons, and_iff_right first, or_iff_right blank]

/-! Documents. -/

/-- Behind the header, a document does not depend on the name of the source. -/
theorem document_behind {facets : List Facet} {s : Schema} {sourceName : Option String}
    {code : String} (done : document facets s sourceName = .ok code) :
    ∃ behind, ∀ name, document facets s name = .ok (headerText name ++ behind) := by
  rw [document, bind_eq_ok_iff] at done
  obtain ⟨steps, built, -⟩ := done
  rw [documentSteps, then_eq_ok_iff] at built
  obtain ⟨distinct, built⟩ := built
  obtain ⟨body, bodied, built⟩ := bind_eq_ok_iff.mp built
  obtain ⟨modules, found, -⟩ := bind_eq_ok_iff.mp built
  refine ⟨openings 0 modules ++ indented (4 * modules.length) (Listing.ofSteps body).render ++
    closings modules.length, fun name => ?_⟩
  rw [document, bind_eq_ok_iff]
  refine ⟨_, ?_,
    congrArg Except.ok ((render_document name body (isName_of_modulesOf found)).trans ?_)⟩
  · rw [documentSteps, then_eq_ok_iff]
    exact ⟨distinct, bind_eq_ok_iff.mpr ⟨body, bodied, bind_eq_ok_iff.mpr ⟨modules, found, rfl⟩⟩⟩
  · simp only [String.append_assoc]

/-- A name that stays inside the comment changes nothing else, and no other name does so. -/
theorem comments_document_iff (sourceName : Option String) (behind : String) :
    Comments (opening (linesOf (headerText sourceName ++ behind))) ∧
        uncommented (linesOf (headerText sourceName ++ behind)) = [] :: linesOf behind ↔
      StaysInside sourceName := by
  rw [linesOf_document, comments_iff (by simp [Comments, isComment]) (by decide),
    comments_source_iff]

/-- Two documents of one schema differ in comments only, in front of the first empty line, if the
names of their sources stay inside; against such a document, a name that does not is seen. -/
theorem document_source {facets : List Facet} {s : Schema} {a b : Option String}
    {code other : String} (done : document facets s a = .ok code)
    (done' : document facets s b = .ok other) (inside : StaysInside b) :
    Comments (opening (linesOf other)) ∧
      (StaysInside a ↔
        Comments (opening (linesOf code)) ∧
          uncommented (linesOf code) = uncommented (linesOf other)) := by
  obtain ⟨behind, written⟩ := document_behind done
  obtain rfl := Except.ok.inj (done.symm.trans (written a))
  obtain rfl := Except.ok.inj (done'.symm.trans (written b))
  obtain ⟨comments, rest⟩ := (comments_document_iff b behind).mpr inside
  rw [rest, comments_document_iff]
  exact ⟨comments, Iff.rfl⟩

/-- The second line of the name is a line of the document, and no comment. -/
theorem document_source_broken :
    ∃ code plain, document Facet.all ⟨[], []⟩ (some "a\nb") = .ok code ∧
      document Facet.all ⟨[], []⟩ none = .ok plain ∧ ¬ Comments (opening (linesOf code)) ∧
      uncommented (linesOf code) = ['b'] :: uncommented (linesOf plain) := by
  obtain ⟨plain, done⟩ : ∃ plain, document Facet.all ⟨[], []⟩ none = .ok plain := ⟨_, rfl⟩
  obtain ⟨behind, written⟩ := document_behind done
  have lines : (sourceTexts (some "a\nb")).flatMap trimmed = ["// Source: a".toList, ['b']] := by
    decide
  refine ⟨_, _, written (some "a\nb"), written none, ?_, ?_⟩
  · rw [linesOf_document, lines]
    simp [Comments, opening, isComment]
  · rw [linesOf_document, lines, linesOf_document]
    simp [uncommented, opening, isComment, sourceTexts, List.isPrefixOf]

/-- A name of two lines, the second of which is a comment of its own. -/
theorem document_source_kept :
    ∃ code other, document Facet.all ⟨[], []⟩ (some "a\n// b") = .ok code ∧
      document Facet.all ⟨[], []⟩ (some "c") = .ok other ∧
      Comments (opening (linesOf other)) ∧ Comments (opening (linesOf code)) ∧
      uncommented (linesOf code) = uncommented (linesOf other) := by
  obtain ⟨code, done⟩ : ∃ code, document Facet.all ⟨[], []⟩ (some "a\n// b") = .ok code :=
    ⟨_, rfl⟩
  obtain ⟨other, done'⟩ : ∃ other, document Facet.all ⟨[], []⟩ (some "c") = .ok other := ⟨_, rfl⟩
  have inside : StaysInside (some "a\n// b") := by decide
  have inside' : StaysInside (some "c") := by decide
  obtain ⟨comments, apart⟩ := document_source done done' inside'
  exact ⟨code, other, done, done', comments, apart.mp inside⟩

end WireSchema.Code
