import WireSchema.Proofs.Outputs

/-!
Runs that fail. A run compiles the schemas that it found one after the other, and they are read from
the disk that the earlier ones have written to. Nothing that is written is a schema, so each of them
fails or does not fail by what it was in the beginning. One that fails before its code is there has
changed nothing, and the run ends with the disk that the earlier ones left.
-/

namespace WireSchema

/-- The code for a schema, or why there is none: its text cannot be read, it has no tokens or spells
no schema, or there is no code for it. -/
def Disk.generate (d : Disk) (p : Path) : Except CommandError String :=
  match d.readText p with
  | .error e => .error (.file e)
  | .ok text =>
    match compile (p.name?.getD "") text with
    | .error e => .error (.compile e)
    | .ok code => .ok code

section

variable {d d' mid : Disk} {p q : Path} {output : Option Path} {e : CommandError}
  {schemas before after : List Path}

/-- What a schema gives depends on nothing but what stands at its path. -/
theorem generate_eq_of_get (same : d'.get p = d.get p) : d'.generate p = d.generate p := by
  rw [Disk.generate, Disk.generate, Disk.readText, Disk.readText, same]

/-- A schema without code leaves the disk as it is. -/
theorem exec_compileFile_of_error (fails : d.generate p = .error e) :
    (compileFile output p).exec d = (.error e, d) := by
  have looked : (get : Task Disk).exec d = (.ok d, d) := rfl
  rw [Disk.generate] at fails
  rw [compileFile, Task.exec_bind, looked]
  dsimp only
  rw [Task.exec_bind]
  cases read : d.readText p with
  | error e' =>
    rw [read] at fails
    cases fails
    rfl
  | ok text =>
    rw [read] at fails
    have taken : (Task.ofFile (.ok text)).exec d = (.ok text, d) := rfl
    rw [taken]
    dsimp only at fails ⊢
    rw [Task.exec_bind]
    cases compiled : compile (p.name?.getD "") text with
    | error e' =>
      rw [compiled] at fails
      cases fails
      rfl
    | ok code =>
      rw [compiled] at fails
      cases fails

/-- After schemas that all compile, a batch goes on with the rest from the disk that they left. -/
theorem exec_compileFiles_append (done : (compileFiles output before).exec d = (.ok (), mid)) :
    (compileFiles output (before ++ after)).exec d = (compileFiles output after).exec mid := by
  induction before generalizing d with
  | nil =>
    obtain rfl := compileFiles_nil_iff.mp done
    rfl
  | cons p before ih =>
    obtain ⟨next, first, later⟩ := compileFiles_cons_iff.mp done
    rw [List.cons_append, compileFiles, Task.exec_bind, first]
    exact ih later

/-- Schemas stay as they are, through any number of others. -/
theorem get_compileFiles (done : (compileFiles output schemas).exec d = (.ok (), d'))
    (source : d.IsSource q) : d'.get q = d.get q := by
  induction schemas generalizing d with
  | nil =>
    obtain rfl := compileFiles_nil_iff.mp done
    rfl
  | cons p schemas ih =>
    obtain ⟨mid, first, later⟩ := compileFiles_cons_iff.mp done
    obtain ⟨source, same⟩ := isSource_compileFile first source
    rw [ih later source, same]

/-- Where a schema fails before there is code for it, and those in front of it have not, the run
ends with the report of that failure and with the disk that those in front have left. The schemas
that are left have not changed: each gives what it would have given in the beginning. No file
differs from the beginning but those of the schemas in front. -/
theorem run_stops_at_failure {arguments : List String} {input : String} {deep : Bool}
    {output : Option String} (tidy : d.top.Tidy)
    (spelled : Command.ofArguments arguments = .ok (.compile input deep output))
    (found : d.discover (Path.ofString input) deep = .ok (before ++ p :: after))
    (earlier : (compileFiles (output.map Path.ofString) before).exec d = (.ok (), mid))
    (fails : mid.generate p = .error e) :
    run arguments d = ⟨1, "", e.message ++ "\n", mid⟩ ∧
      (∀ q ∈ p :: after, d.generate q = mid.generate q) ∧
      ∀ l, (∀ q ∈ before, mid.locate (outputPath q (output.map Path.ofString)) ≠ .ok l) →
        ∀ content, mid.top.shapeAt l = some (.file content) ↔
          d.top.shapeAt l = some (.file content) := by
  have kept : ∀ q ∈ p :: after, mid.get q = d.get q := by
    cases before with
    | nil =>
      obtain rfl := compileFiles_nil_iff.mp earlier
      exact fun _ _ => rfl
    | cons first before =>
      intro q member
      apply get_compileFiles earlier
      exact Disk.isSource_of_discover tidy found q (List.mem_append_right before member)
  have stopped : (compileFiles (output.map Path.ofString) (before ++ p :: after)).exec d =
      (.error e, mid) := by
    rw [exec_compileFiles_append earlier, compileFiles, Task.exec_bind,
      exec_compileFile_of_error fails]
  have performed : (Command.perform (.compile input deep output)).exec d = (.error e, mid) := by
    have looked : (get : Task Disk).exec d = (.ok d, d) := rfl
    have taken : (Task.ofFile (.ok (before ++ p :: after))).exec d =
        (.ok (before ++ p :: after), d) := rfl
    simp only [Command.perform, Task.exec_bind, looked, found, taken, stopped]
  refine ⟨by rw [run_eq spelled, performed], fun q member => ?_, fun l others content => ?_⟩
  · exact (generate_eq_of_get (kept q member)).symm
  · exact file_compileFiles_iff earlier others content

end

def marred (more : List (String × Node)) : Disk :=
  ⟨.directory (("a.nsd", .file ⟨#[]⟩) :: ("b.nsd", .file "@".toUTF8) :: ("c.nsd", .file ⟨#[]⟩) ::
    more), []⟩

theorem marred_tidy : (marred []).top.Tidy := by
  refine .directory (by decide) (by decide) ?_
  simp only [List.forall_mem_cons]
  exact ⟨.file _, .file _, .file _, nofun⟩

/-- All three schemas are found, in order, the broken one among them. -/
theorem marred_found : (marred []).discover (Path.ofString ".") false =
    .ok [dottedPath "a.nsd", dottedPath "b.nsd", dottedPath "c.nsd"] := by
  have input : Path.ofString "." = ⟨false, ["."]⟩ := by decide
  have first : isSchemaName "a.nsd" = true := isSchemaName_of_chars "nsd" (by decide) (by decide)
  have second : isSchemaName "b.nsd" = true := isSchemaName_of_chars "nsd" (by decide) (by decide)
  have third : isSchemaName "c.nsd" = true := isSchemaName_of_chars "nsd" (by decide) (by decide)
  have found : Node.schemasIn false [("a.nsd", .file ⟨#[]⟩), ("b.nsd", .file "@".toUTF8),
      ("c.nsd", .file ⟨#[]⟩)] = [["a.nsd"], ["b.nsd"], ["c.nsd"]] := by
    simp only [Node.schemasIn, first, second, third, if_true]
  have sorted : List.mergeSort [["a.nsd"], ["b.nsd"], ["c.nsd"]] Location.le =
      [["a.nsd"], ["b.nsd"], ["c.nsd"]] := List.mergeSort_of_pairwise (by decide)
  have stands : (marred []).top.find? [] = some (.directory [("a.nsd", .file ⟨#[]⟩),
      ("b.nsd", .file "@".toUTF8), ("c.nsd", .file ⟨#[]⟩)]) := rfl
  rw [input, Disk.discover_of_directory rfl stands, found, sorted]
  rfl

theorem marred_compiled : (compileFiles none [dottedPath "a.nsd"]).exec (marred []) =
    (.ok (), marred [("a.rs", .file (bareCode "a.nsd").toUTF8)]) := by
  refine compileFiles_cons_iff.mpr ⟨_, compileFile_eq_ok_iff.mpr
    ⟨"", bareCode "a.nsd", marred [], rfl, ?_, ?_, ?_⟩, compileFiles_nil_iff.mpr rfl⟩
  · have called : (dottedPath "a.nsd").name?.getD "" = "a.nsd" := by decide
    rw [called, bare_compiled]
  · have directory : outputDirectory (dottedPath "a.nsd") none = ⟨false, ["."]⟩ := by decide
    rw [directory]
    exact ensureDirectories_here _
  · have path : outputPath (dottedPath "a.nsd") none = ⟨false, [".", "a.rs"]⟩ := by decide
    rw [path]
    rfl

/-- Nothing starts with an at sign. -/
theorem marred_fails (more : List (String × Node)) :
    (marred more).generate (dottedPath "b.nsd") =
      .error (.compile (.parse (.lex ⟨0, Place.start, "\"@\""⟩))) := by
  have none : Token.lexeme? ['@'] = none := by decide
  have shown : Text.quote (String.ofList (LexError.excerpt ['@'])) = "\"@\"" := by decide
  have lexes : Token.lex "@" = .error ⟨0, Place.start, "\"@\""⟩ := by
    have chars : "@".toList = ['@'] := rfl
    rw [Token.lex, chars, Token.lexFrom]
    split
    next => rw [shown]; rfl
    next found =>
      rw [none] at found
      cases found
  have read : (marred more).readText (dottedPath "b.nsd") = .ok "@" := rfl
  rw [Disk.generate, read]
  simp only [compile, Schema.parse, Token.tokenize, lexes, Except.map]

/-- The second schema fails: the first has its code, and the third has none. -/
theorem run_stops_at_failure_marred :
    (marred []).discover (Path.ofString ".") false =
        .ok ([dottedPath "a.nsd"] ++ dottedPath "b.nsd" :: [dottedPath "c.nsd"]) ∧
      run ["compile", "-i", "."] (marred []) =
        ⟨1, "", "Syntax error at line 1, column 1: unexpected \"@\"\n",
          marred [("a.rs", .file (bareCode "a.nsd").toUTF8)]⟩ := by
  have stopped := (run_stops_at_failure marred_tidy dotted_spelled marred_found marred_compiled
    (marred_fails _)).1
  have message : (CommandError.compile (.parse (.lex ⟨0, Place.start, "\"@\""⟩))).message ++ "\n" =
      "Syntax error at line 1, column 1: unexpected \"@\"\n" := rfl
  rw [message] at stopped
  exact ⟨marred_found, stopped⟩

end WireSchema
