import WireSchema.Proofs.Outputs

/-!
What the file for the code of a schema is called. The schema's name is divided at its last dot,
the stem is joined to the directory, and then the extension of the joined path is replaced. The
last step divides the stem once more. So the file is the stem with the extension of code only where
the stem has no extension itself; and a stem that is a dot is no name, so that the directory's own
name is divided in its place.
-/

namespace WireSchema

/-! Names. -/

/-- A name is its stem alone, or its stem, a dot and its extension. -/
theorem splitName_cases (name : String) :
    splitName name = (name, none) ∨ ∃ stem extension, stem ≠ "" ∧
      name = stem ++ "." ++ extension ∧ splitName name = (stem, some extension) := by
  rw [splitName]
  split
  next => exact .inl rfl
  next =>
    dsimp only
    split
    next => exact .inl rfl
    next => exact .inl rfl
    next dot stem several behind =>
      obtain rfl : dot = '.' := by
        have head := List.head?_dropWhile_not (· != '.') name.toList.reverse
        rw [behind] at head
        simpa using head
      refine .inr ⟨_, _, ?_, ?_, rfl⟩
      · intro empty
        have chars := congrArg String.toList empty
        rw [String.toList_ofList] at chars
        exact several (List.reverse_eq_nil_iff.mp chars)
      · apply String.toList_inj.mp
        have whole := List.takeWhile_append_dropWhile (p := (· != '.')) (l := name.toList.reverse)
        rw [behind] at whole
        conv_lhs => rw [← List.reverse_reverse name.toList, ← whole]
        simp [String.toList_append]

section

variable {name : String}

theorem stemOf_eq (plain : extensionOf name = none) : stemOf name = name := by
  rcases splitName_cases name with alone | ⟨stem, extension, -, -, divided⟩
  · rw [stemOf, alone]
  · rw [extensionOf, divided] at plain
    cases plain

theorem stemOf_ne (divided : extensionOf name ≠ none) : stemOf name ≠ name := by
  rcases splitName_cases name with alone | ⟨stem, extension, -, whole, parts⟩
  · rw [extensionOf, alone] at divided
    exact absurd rfl divided
  · intro same
    rw [stemOf, parts] at same
    change stem = name at same
    have length := congrArg String.length whole
    rw [← same, String.length_append, String.length_append] at length
    have dot : ".".length = 1 := rfl
    omega

/-- A name that is not empty has a stem that is not. -/
theorem stemOf_ne_empty (some : name ≠ "") : stemOf name ≠ "" := by
  rcases splitName_cases name with alone | ⟨stem, extension, filled, -, divided⟩
  · rwa [stemOf, alone]
  · rwa [stemOf, divided]

theorem isStep_eq_false_of_ne (filled : name ≠ "") (still : name ≠ ".") (other : name ≠ "..") :
    Disk.isStep name = false := by
  simp [Disk.isStep, Path.isIdle, filled, still, other]

theorem isStep_rs (stem : String) : Disk.isStep (stem ++ ".rs") = false := by
  have last : (stem ++ ".rs").toList.getLast? = some 's' := by simp [String.toList_append]
  apply isStep_eq_false_of_ne <;> intro same <;> rw [same] at last <;> cases last

end

/-! Paths. -/

namespace Path

variable {p : Path} {name extension : String}

/-- What is trimmed off stays where it is. -/
theorem exists_trimmed (p : Path) :
    ∃ idles, p.pieces = p.trimmed ++ idles ∧ ∀ piece ∈ idles, isIdle piece = true := by
  have trims (pieces : List String) : ∃ idles, pieces = trimIdle pieces ++ idles ∧
      ∀ piece ∈ idles, isIdle piece = true := by
    refine ⟨(pieces.reverse.takeWhile isIdle).reverse, ?_, ?_⟩
    · rw [trimIdle, ← List.reverse_append, List.takeWhile_append_dropWhile, List.reverse_reverse]
    · intro piece member
      exact List.mem_takeWhile_imp (List.mem_reverse.mp member)
  rw [trimmed]
  split
  next first rest _ relative =>
    obtain ⟨idles, whole, idle⟩ := trims rest
    exact ⟨idles, by rw [relative, List.cons_append, ← whole], idle⟩
  next => exact trims _

theorem exists_of_name? (named : p.name? = some name) :
    ∃ above, p.trimmed = above ++ [name] ∧ name ≠ "." ∧ name ≠ ".." := by
  rw [name?, Option.filter_eq_some_iff] at named
  obtain ⟨last, proper⟩ := named
  obtain ⟨above, whole⟩ := List.getLast?_eq_some_iff.mp last
  exact ⟨above, whole, by simpa using proper⟩

theorem name?_join_up (p : Path) : (p.join "..").name? = none := by
  rw [join_eq, name?, trimmed_concat (by decide), List.getLast?_concat]
  rfl

/-- The extension of the last name is replaced, and nothing else. -/
theorem withExtension_join (proper : Disk.isStep name = false) :
    (p.join name).withExtension extension = p.join (stemOf name ++ "." ++ extension) := by
  obtain ⟨moving, -⟩ := isStep_eq_false_iff.mp proper
  rw [join_eq, join_eq, withExtension, name?_concat proper, trimmed_concat moving,
    List.dropLast_concat]

end Path

section

variable {d d' mid : Disk} {p : Path} {l m : Location} {name : String} {pieces : List String}
  {content : ByteArray}

theorem leads_idles {view : Location → Option Shape} {idles : List String}
    (idle : ∀ piece ∈ idles, Path.isIdle piece = true) (leads : Leads view l idles m) : m = l := by
  induction idles generalizing l with
  | nil =>
    cases leads
    rfl
  | cons piece idles ih =>
    obtain ⟨here, idle⟩ := List.forall_mem_cons.mp idle
    cases leads with
    | idle _ _ later => exact ih idle later
    | up _ above _ =>
      rw [above] at here
      cases here
    | down _ proper _ _ =>
      rw [(isStep_eq_false_iff.mp proper).1] at here
      cases here

/-- A path leads to one location at most. -/
theorem leads_unique {top : Node} {k : Location} (first : Leads top.shapeAt l pieces m)
    (second : Leads top.shapeAt l pieces k) : m = k :=
  Except.ok.inj ((Node.follow_eq_ok_iff.mpr first).symm.trans (Node.follow_eq_ok_iff.mpr second))

/-- The last piece on the way to a file is its name. -/
theorem proper_of_leads_file {top : Node} (last : Leads top.shapeAt l [name] m)
    (stands : top.shapeAt m = some (.file content)) : Disk.isStep name = false := by
  cases last with
  | idle inside _ later =>
    cases later
    rw [inside] at stands
    cases stands
  | up inside _ later =>
    cases later
    rcases List.eq_nil_or_concat l with rfl | ⟨above, last, rfl⟩
    · rw [List.dropLast_nil, inside] at stands
      cases stands
    · rw [List.concat_eq_append] at inside stands
      have there := (Node.directory_of_shapeAt_append (Option.isSome_of_eq_some inside)).1
      rw [List.dropLast_concat, there] at stands
      cases stands
  | down _ proper _ _ => exact proper

/-- A path that leads to a file has a name, unless the file is all there is. -/
theorem Disk.exists_name_of_file (root : d.top.shape = .directory)
    (file : d.get p = .ok (.file content)) : ∃ name, p.name? = some name ∧ isStep name = false := by
  obtain ⟨l, located, stands⟩ := get_eq_file_iff.mp file
  obtain ⟨given, leads⟩ := locate_eq_ok_iff.mp located
  obtain ⟨absolute, pieces⟩ := p
  rcases List.eq_nil_or_concat pieces with rfl | ⟨front, name, rfl⟩
  · cases leads
    have top : absolute = true := given.resolve_left fun some => some rfl
    rw [start, if_pos top, Node.shapeAt_nil, root] at stands
    cases stands
  · rw [List.concat_eq_append, leads_append] at leads
    obtain ⟨around, -, last⟩ := leads
    have proper := proper_of_leads_file last stands
    exact ⟨name, by rw [List.concat_eq_append, Path.name?_concat proper], proper⟩

theorem Disk.exists_file_of_readText {text : String} (read : d.readText p = .ok text) :
    ∃ content, d.get p = .ok (.file content) := by
  rw [readText] at read
  rcases found : d.get p with e | (content | entries)
  · rw [found] at read
    cases read
  · exact ⟨content, rfl⟩
  · rw [found] at read
    cases read

/-- What is located under a name stands in the directory that its path leads to. -/
theorem Disk.exists_of_locate_join (proper : isStep name = false)
    (located : d.locate (p.join name) = .ok l) :
    ∃ around, l = around ++ [name] ∧ Leads d.top.shapeAt (d.start p) p.front around ∧
      d.top.shapeAt around = some .directory := by
  rw [Path.join_eq] at located
  obtain ⟨-, leads⟩ := locate_eq_ok_iff.mp located
  obtain ⟨around, front, last⟩ := leads_append.mp leads
  obtain ⟨inside, -, rfl⟩ := (leads_proper proper).mp last
  exact ⟨around, rfl, front, inside⟩

/-! Files of code. -/

/-- Directories and one file were added, so there was a directory for them. -/
theorem Disk.Adds.root {around : Location} {s : Shape} (adds : d.Adds mid)
    (puts : mid.Puts (around ++ [name]) s d') : d.top.shape = .directory := by
  have there := Option.isSome_of_eq_some puts.self
  have after : d'.top.shapeAt [] = some .directory := by
    cases around with
    | nil => exact (Node.directory_of_shapeAt_append there).1
    | cons first rest => exact (Node.directory_of_shapeAt_append (l := []) there).1
  rw [puts.of_ne (by simp)] at after
  rcases adds.view [] with same | ⟨missing, -⟩
  · rw [same, Node.shapeAt_nil] at after
    exact Option.some.inj after
  · rw [Node.shapeAt_nil] at missing
    cases missing

/-- The code goes into the output directory, under the stem of the stem. -/
theorem outputPath_eq {output : Option Path} (named : p.name? = some name)
    (proper : Disk.isStep (stemOf name) = false) :
    outputPath p output = (outputDirectory p output).join (stemOf (stemOf name) ++ ".rs") := by
  rw [outputPath, named, Option.getD_some, Path.withExtension_join proper, String.append_assoc]
  rfl

/-- Where the stem is a dot, the directory's own name gets the extension, and the file is not in the
directory. -/
theorem locate_dot_ne {own : String} (named : (p.join ".").name? = some own)
    (located : d.locate ((p.join ".").withExtension "rs") = .ok l) :
    d.locate (p.join ("." ++ ".rs")) ≠ .ok l := by
  intro same
  obtain ⟨around, rfl, behind, inside⟩ := Disk.exists_of_locate_join (isStep_rs ".") same
  obtain ⟨above, trimmed, still, other⟩ := Path.exists_of_name? named
  have extended : (p.join ".").withExtension "rs" =
      ⟨p.isAbsolute, above ++ [stemOf own ++ ".rs"]⟩ := by
    have absolute : (p.join ".").isAbsolute = p.isAbsolute := by rw [Path.join_eq]
    simp only [Path.withExtension, named, trimmed, List.dropLast_concat, absolute,
      String.append_assoc]
    rfl
  rw [extended] at located
  obtain ⟨-, leads⟩ := Disk.locate_eq_ok_iff.mp located
  obtain ⟨outer, front, last⟩ := leads_append.mp leads
  obtain ⟨-, -, ends⟩ := (leads_proper (isStep_rs _)).mp last
  obtain ⟨rfl, called⟩ := List.append_singleton_inj.mp ends
  -- The directory and what is around it would be one location.
  have whole : Leads d.top.shapeAt (d.start p) (p.join ".").pieces around := by
    rw [Path.join_eq]
    exact leads_append.mpr ⟨around, behind, .idle inside rfl (.nil _)⟩
  obtain ⟨idles, split, idle⟩ := (p.join ".").exists_trimmed
  rw [split, trimmed, List.append_assoc, leads_append] at whole
  obtain ⟨outer, front', last'⟩ := whole
  obtain rfl := leads_unique front front'
  cases last' with
  | idle _ stays _ =>
    obtain rfl : own = "" := by simpa [Path.isIdle, still] using stays
    exact absurd called (by decide)
  | up _ up _ => exact other up
  | down _ _ _ later =>
    have length := congrArg List.length (leads_idles idle later)
    rw [List.length_append, List.length_singleton] at length
    omega

end

/-- When a schema is compiled, one file is written and all others are as they were. It is in the
directory for the code, and named after the stem of the schema's stem, unless the stem is a dot. So
it is named after the stem exactly if the stem is no dot and has no extension of its own. -/
theorem compileFile_names_output {d d' : Disk} {p : Path} {output : Option Path}
    (done : (compileFile output p).exec d = (.ok (), d')) :
    ∃ name code l, p.name? = some name ∧ d.code? p = some code ∧
      d'.locate (outputPath p output) = .ok l ∧ d'.top.shapeAt l = some (.file code.toUTF8) ∧
      (∀ m, m ≠ l → ∀ content, d'.top.shapeAt m = some (.file content) ↔
        d.top.shapeAt m = some (.file content)) ∧
      (stemOf name ≠ "." → outputPath p output =
        (outputDirectory p output).join (stemOf (stemOf name) ++ ".rs")) ∧
      (d'.locate ((outputDirectory p output).join (stemOf name ++ ".rs")) = .ok l ↔
        extensionOf (stemOf name) = none ∧ stemOf name ≠ ".") := by
  have adds := d.adds_ensureDirectories (outputDirectory p output)
  obtain ⟨text, code, mid, read, compiled, made, written⟩ := compileFile_eq_ok_iff.mp done
  rw [made] at adds
  obtain ⟨front, last, around, whole, proper, located, puts⟩ := Disk.write_eq_ok written
  obtain ⟨content, file⟩ := Disk.exists_file_of_readText read
  obtain ⟨name, named, fit⟩ := Disk.exists_name_of_file (adds.root puts) file
  have filled : stemOf name ≠ "" := by
    apply stemOf_ne_empty
    rintro rfl
    cases fit
  -- A path without a name is kept, and its last piece is the stem.
  have kept (unnamed : ((outputDirectory p output).join (stemOf name)).name? = none) :
      Disk.isStep (stemOf name) = false := by
    rw [outputPath, named, Option.getD_some, Path.withExtension, unnamed, Path.join_eq] at whole
    obtain ⟨-, rfl⟩ := List.append_singleton_inj.mp whole
    exact proper
  have away : stemOf name ≠ ".." := by
    intro up
    rw [up] at kept
    exact absurd (kept (Path.name?_join_up _)) (by decide)
  have plain (still : stemOf name ≠ ".") : outputPath p output = _ :=
    outputPath_eq named (isStep_eq_false_of_ne filled still away)
  refine ⟨name, code, around ++ [last], named, ?_, located, puts.self,
    fun m other => adds.file_iff puts other, plain, ?_⟩
  · simp only [Disk.code?, read, compiled, Except.toOption]
  by_cases still : stemOf name = "."
  · simp only [still, ne_eq, not_true_eq_false, and_false, iff_false]
    cases own : ((outputDirectory p output).join ".").name? with
    | none =>
      rw [still] at kept
      exact absurd (kept own) (by decide)
    | some directory =>
      rw [outputPath, named, Option.getD_some, still] at located
      exact locate_dot_ne own located
  · rw [plain still] at located
    constructor
    · intro same
      obtain ⟨_, first, -⟩ := Disk.exists_of_locate_join (isStep_rs _) same
      obtain ⟨_, second, -⟩ := Disk.exists_of_locate_join (isStep_rs _) located
      obtain ⟨-, equal⟩ := List.append_singleton_inj.mp (first.symm.trans second)
      refine ⟨?_, still⟩
      by_contra divided
      exact stemOf_ne divided ((String.append_left_inj _).mp equal).symm
    · rintro ⟨undivided, -⟩
      rwa [stemOf_eq undivided] at located

theorem dotted_first : (compileFile none (dottedPath "a.b.nsd")).exec (dotted []) =
    (.ok (), dotted [("a.rs", .file (bareCode "a.b.nsd").toUTF8)]) :=
  dotted_compiled (.inl rfl) (.inl rfl)

/-- The stem `a.b` has an extension, which is lost. -/
theorem compileFile_names_output_dotted :
    (compileFile none (dottedPath "a.b.nsd")).exec (dotted []) =
        (.ok (), dotted [("a.rs", .file (bareCode "a.b.nsd").toUTF8)]) ∧
      outputPath (dottedPath "a.b.nsd") none = dottedPath "a.rs" ∧
      ∃ l, (dotted [("a.rs", .file (bareCode "a.b.nsd").toUTF8)]).locate (dottedPath "a.rs") =
          .ok l ∧
        (dotted [("a.rs", .file (bareCode "a.b.nsd").toUTF8)]).locate (dottedPath "a.b.rs") ≠
          .ok l := by
  obtain ⟨name, code, l, named, -, located, -, -, plain, whole⟩ :=
    compileFile_names_output dotted_first
  obtain rfl : "a.b.nsd" = name := Option.some.inj named
  have stem : stemOf "a.b.nsd" = "a.b" := by decide
  have directory : outputDirectory (dottedPath "a.b.nsd") none = ⟨false, ["."]⟩ := by decide
  rw [stem, directory] at plain whole
  have short : outputPath (dottedPath "a.b.nsd") none = dottedPath "a.rs" := plain (by decide)
  rw [short] at located
  refine ⟨dotted_first, short, l, located, fun same => ?_⟩
  exact absurd (whole.mp same).1 (by decide)

/-- The code is written, and there is no file with its whole stem. -/
theorem dotted_misnamed :
    (compileFile none (dottedPath "a.b.nsd")).exec (dotted []) =
        (.ok (), dotted [("a.rs", .file (bareCode "a.b.nsd").toUTF8)]) ∧
      (dottedPath "a.b.nsd").name? = some "a.b.nsd" ∧
      (dotted [("a.rs", .file (bareCode "a.b.nsd").toUTF8)]).isFileAt
        ((outputDirectory (dottedPath "a.b.nsd") none).join (stemOf "a.b.nsd" ++ ".rs")) =
          false := by
  have path : (outputDirectory (dottedPath "a.b.nsd") none).join (stemOf "a.b.nsd" ++ ".rs") =
      dottedPath "a.b.rs" := by decide
  rw [path]
  exact ⟨dotted_first, by decide, rfl⟩

end WireSchema
