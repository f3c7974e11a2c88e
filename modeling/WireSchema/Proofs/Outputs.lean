import WireSchema.Command.Run
import WireSchema.Proofs.Acceptance
import WireSchema.Proofs.Discovery
import WireSchema.Proofs.Lexing

/-!
The files that a run leaves. A schema is read as it was in the beginning, whatever has been written
since, because no file of code is one of a schema. The code of a schema is in its file in the end
unless a later schema has the same file: then it is the later code that stays.
-/

namespace WireSchema

section

variable {d : Disk} {p : Path}

/-- The path of a file with the name of a schema. -/
def Disk.IsSource (d : Disk) (p : Path) : Prop :=
  ∃ around name content, d.locate p = .ok (around ++ [name]) ∧ isSchemaName name = true ∧
    d.top.shapeAt (around ++ [name]) = some (.file content)

/-- Behind the first schema, and in a directory from the first on, all that is found are files with
the names of schemas. -/
theorem Disk.isSource_of_discover (tidy : d.top.Tidy) {deep : Bool} {schemas : List Path}
    (found : d.discover p deep = .ok schemas) : ∀ q ∈ schemas.tail, d.IsSource q := by
  rw [discover] at found
  split at found
  next =>
    cases found
    intro q member
    cases member
  next =>
    cases listed : d.list p with
    | error e =>
      rw [listed] at found
      cases found
    | ok entries =>
      rw [listed] at found
      cases found
      intro q member
      obtain ⟨names, inside, rfl⟩ := List.mem_map.mp (List.mem_of_mem_tail member)
      rw [List.mem_mergeSort] at inside
      obtain ⟨l, located, stands⟩ := list_eq_ok_iff.mp listed
      obtain ⟨⟨content, file⟩, -, name, last, schema⟩ :=
        (tidy.of_find? stands).mem_schemasIn_iff.mp inside
      obtain ⟨around, rfl⟩ := List.getLast?_eq_some_iff.mp last
      rw [← Node.shapeAt_append stands] at file
      have there := locate_below tidy located (Option.isSome_of_eq_some file)
      rw [← List.append_assoc] at file there
      exact ⟨l ++ around, name, content, there, schema, file⟩

/-! Files of code. -/

/-- The extension that code has is not that of schemas. -/
theorem isSchemaName_rs (stem : String) : isSchemaName (stem ++ "." ++ "rs") = false := by
  have chars : (stem ++ "." ++ "rs").toList.reverse = 's' :: 'r' :: '.' :: stem.toList.reverse := by
    simp [String.toList_append]
  have other : stem ++ "." ++ "rs" ≠ ".." := by
    intro same
    have last := congrArg (fun name => name.toList.reverse.head?) same
    rw [chars, List.head?_cons] at last
    exact absurd last (by decide)
  rw [isSchemaName, extensionOf, splitName, if_neg other, chars]
  cases stem.toList.reverse with
  | nil => rfl
  | cons c cs =>
    change ((String.ofList ['r', 's']).toLower == "nsd") = false
    rw [beq_eq_false_iff_ne, ne_eq, toLower_eq_nsd_iff]
    decide

theorem isSchemaName_of_pieces_outputPath {output : Option Path} {front : List String}
    {name : String} (whole : (outputPath p output).pieces = front ++ [name])
    (proper : Disk.isStep name = false) : isSchemaName name = false := by
  rw [outputPath, Path.withExtension] at whole
  split at whole
  next unnamed =>
    -- A path without a name ends in a step.
    rw [Path.join_eq] at whole unnamed
    obtain ⟨-, rfl⟩ := List.append_singleton_inj.mp whole
    rw [Path.name?_concat proper] at unnamed
    cases unnamed
  next stem _ =>
    obtain ⟨-, rfl⟩ := List.append_singleton_inj.mp whole
    exact isSchemaName_rs _

end

/-! Steps on the disk that succeed. -/

namespace Task

variable {α β : Type} {a : α} {b : β} {d d' e : Disk}

def exec (x : Task α) (d : Disk) : Except CommandError α × Disk := x.run d

theorem exec_bind (x : Task α) (next : α → Task β) (d : Disk) :
    (x >>= next).exec d =
      match x.exec d with
      | (.ok a, mid) => (next a).exec mid
      | (.error e, mid) => (.error e, mid) := by
  have step : (x >>= next).exec d = ExceptT.bindCont next (x.exec d).1 (x.exec d).2 := rfl
  rw [step]
  rcases x.exec d with ⟨e | a, mid⟩ <;> rfl

theorem bind_eq_ok_iff {x : Task α} {next : α → Task β} : (x >>= next).exec d = (.ok b, d') ↔
    ∃ a mid, x.exec d = (.ok a, mid) ∧ (next a).exec mid = (.ok b, d') := by
  rw [exec_bind]
  rcases x.exec d with ⟨e | a, mid⟩ <;> simp

theorem pure_eq_ok_iff {a' : α} : (pure a : Task α).exec d = (.ok a', d') ↔ a = a' ∧ d = d' := by
  have step : (pure a : Task α).exec d = (.ok a, d) := rfl
  simp [step]

theorem ofFile_eq_ok_iff {r : Except FileError α} :
    (ofFile r).exec d = (.ok a, d') ↔ r = .ok a ∧ d = d' := by
  cases r with
  | error e =>
    have step : (ofFile (.error e : Except FileError α)).exec d = (.error (.file e), d) := rfl
    simp [step]
  | ok a' => simp [ofFile, pure_eq_ok_iff]

theorem ofCompile_eq_ok_iff {r : Except CompileError α} :
    (ofCompile r).exec d = (.ok a, d') ↔ r = .ok a ∧ d = d' := by
  cases r with
  | error e =>
    have step : (ofCompile (.error e : Except CompileError α)).exec d = (.error (.compile e), d) :=
      rfl
    simp [step]
  | ok a' => simp [ofCompile, pure_eq_ok_iff]

theorem get_eq_ok_iff : (get : Task Disk).exec d = (.ok e, d') ↔ d = e ∧ d = d' := by
  have step : (get : Task Disk).exec d = (.ok d, d) := rfl
  simp [step]

theorem set_eq_ok_iff {u : PUnit} : (set e : Task PUnit).exec d = (.ok u, d') ↔ e = d' := by
  have step : (set e : Task PUnit).exec d = (.ok u, e) := rfl
  simp [step]

end Task

section

variable {d d' e : Disk} {p q : Path} {l : Location} {output : Option Path}

/-- The code for a schema as it is on the disk. -/
def Disk.code? (d : Disk) (p : Path) : Option String :=
  match d.readText p with
  | .ok text => (compile (p.name?.getD "") text).toOption
  | .error _ => none

/-- A file is compiled by reading it, generating its code, making the directory and writing. -/
theorem compileFile_eq_ok_iff : (compileFile output p).exec d = (.ok (), d') ↔
    ∃ text code mid, d.readText p = .ok text ∧ compile (p.name?.getD "") text = .ok code ∧
      d.ensureDirectories (outputDirectory p output) = (.ok (), mid) ∧
      mid.write (outputPath p output) code.toUTF8 = .ok d' := by
  simp only [compileFile, Task.bind_eq_ok_iff, Task.ofFile_eq_ok_iff, Task.ofCompile_eq_ok_iff,
    Task.get_eq_ok_iff, Task.set_eq_ok_iff]
  constructor
  · rintro ⟨_, _, ⟨rfl, rfl⟩, text, _, ⟨read, rfl⟩, code, _, ⟨compiled, rfl⟩, _, _, ⟨rfl, rfl⟩, _,
      _, rfl, _, _, ⟨made, rfl⟩, _, _, ⟨written, rfl⟩, rfl⟩
    exact ⟨text, code, _, read, compiled, Prod.ext made rfl, written⟩
  · rintro ⟨text, code, mid, read, compiled, made, written⟩
    refine ⟨d, d, ⟨rfl, rfl⟩, text, d, ⟨read, rfl⟩, code, d, ⟨compiled, rfl⟩, d, d, ⟨rfl, rfl⟩, ?_⟩
    rw [made]
    exact ⟨(), mid, rfl, (), mid, ⟨rfl, rfl⟩, d', mid, ⟨written, rfl⟩, rfl⟩

/-- Compiling one schema puts its code where its path then leads, which is no place of a schema.
Apart from that, directories are added at most. -/
theorem compileFile_puts (done : (compileFile output p).exec d = (.ok (), d')) :
    ∃ code mid around name, d.code? p = some code ∧ isSchemaName name = false ∧
      d'.locate (outputPath p output) = .ok (around ++ [name]) ∧ d.Adds mid ∧
      mid.Puts (around ++ [name]) (.file code.toUTF8) d' := by
  have adds := d.adds_ensureDirectories (outputDirectory p output)
  obtain ⟨text, code, mid, read, compiled, made, written⟩ := compileFile_eq_ok_iff.mp done
  rw [made] at adds
  obtain ⟨front, name, around, whole, proper, located, puts⟩ := Disk.write_eq_ok written
  refine ⟨code, mid, around, name, ?_, isSchemaName_of_pieces_outputPath whole proper, located,
    adds, puts⟩
  simp only [Disk.code?, read, compiled, Except.toOption]

/-- Compiling a file removes nothing from the disk. -/
theorem grows_compileFile (done : (compileFile output p).exec d = (.ok (), d')) : d.Grows d' := by
  obtain ⟨_, mid, _, _, -, -, -, adds, puts⟩ := compileFile_puts done
  exact adds.grows.trans puts.grows

/-- The files afterwards are those from before, that of the schema apart. -/
theorem file_compileFile_iff (done : (compileFile output p).exec d = (.ok (), d'))
    (other : d'.locate (outputPath p output) ≠ .ok l) (content : ByteArray) :
    d'.top.shapeAt l = some (.file content) ↔ d.top.shapeAt l = some (.file content) := by
  obtain ⟨_, mid, around, name, -, -, located, adds, puts⟩ := compileFile_puts done
  apply adds.file_iff puts
  rintro rfl
  exact other located

theorem code?_eq_of_get (same : d'.get p = d.get p) : d'.code? p = d.code? p := by
  rw [Disk.code?, Disk.code?, Disk.readText, Disk.readText, same]

/-- Schemas stay, and so does what they hold. -/
theorem isSource_compileFile (done : (compileFile output p).exec d = (.ok (), d'))
    (source : d.IsSource q) : d'.IsSource q ∧ d'.get q = d.get q := by
  obtain ⟨around, name, content, located, schema, stands⟩ := source
  have located' := (grows_compileFile done).locate located
  have stands' : d'.top.shapeAt (around ++ [name]) = some (.file content) := by
    refine (file_compileFile_iff done (fun same => ?_) content).mpr stands
    obtain ⟨_, _, around', name', -, other, written, -⟩ := compileFile_puts done
    obtain ⟨-, rfl⟩ := List.append_singleton_inj.mp (Except.ok.inj (written.symm.trans same))
    rw [schema] at other
    cases other
  have before : d.get q = .ok (.file content) := Disk.get_eq_file_iff.mpr ⟨_, located, stands⟩
  have after : d'.get q = .ok (.file content) := Disk.get_eq_file_iff.mpr ⟨_, located', stands'⟩
  exact ⟨⟨around, name, content, located', schema, stands'⟩, after.trans before.symm⟩

/-! Runs. -/

variable {schemas : List Path}

theorem compileFiles_nil_iff : (compileFiles output []).exec d = (.ok (), d') ↔ d = d' := by
  rw [compileFiles, Task.pure_eq_ok_iff]
  simp

theorem compileFiles_cons_iff :
    (compileFiles output (p :: schemas)).exec d = (.ok (), d') ↔
      ∃ mid, (compileFile output p).exec d = (.ok (), mid) ∧
        (compileFiles output schemas).exec mid = (.ok (), d') := by
  rw [compileFiles, Task.bind_eq_ok_iff]
  exact ⟨fun ⟨_, mid, steps⟩ => ⟨mid, steps⟩, fun ⟨mid, steps⟩ => ⟨(), mid, steps⟩⟩

/-- Compiling many files removes nothing either. -/
theorem grows_compileFiles (done : (compileFiles output schemas).exec d = (.ok (), d')) :
    d.Grows d' := by
  induction schemas generalizing d with
  | nil =>
    obtain rfl := compileFiles_nil_iff.mp done
    exact Disk.Grows.refl d
  | cons p schemas ih =>
    obtain ⟨mid, first, later⟩ := compileFiles_cons_iff.mp done
    exact (grows_compileFile first).trans (ih later)

/-- The same for any number of schemas. -/
theorem file_compileFiles_iff (done : (compileFiles output schemas).exec d = (.ok (), d'))
    (others : ∀ q ∈ schemas, d'.locate (outputPath q output) ≠ .ok l) (content : ByteArray) :
    d'.top.shapeAt l = some (.file content) ↔ d.top.shapeAt l = some (.file content) := by
  induction schemas generalizing d with
  | nil => rw [compileFiles_nil_iff.mp done]
  | cons p schemas ih =>
    obtain ⟨mid, first, later⟩ := compileFiles_cons_iff.mp done
    obtain ⟨other, others⟩ := List.forall_mem_cons.mp others
    rw [ih later others, file_compileFile_iff first]
    exact fun same => other ((grows_compileFiles later).locate same)

/-- The last schema with a file has its code there. -/
theorem compileFiles_last (done : (compileFiles output schemas).exec d = (.ok (), d'))
    (sources : ∀ q ∈ schemas.tail, d.IsSource q) {before after : List Path}
    (whole : schemas = before ++ p :: after) :
    ∃ l code, d'.locate (outputPath p output) = .ok l ∧ d.code? p = some code ∧
      ((∀ q ∈ after, d'.locate (outputPath q output) ≠ .ok l) →
        d'.top.shapeAt l = some (.file code.toUTF8)) := by
  induction schemas generalizing d before with
  | nil => simp at whole
  | cons first schemas ih =>
    obtain ⟨mid, step, later⟩ := compileFiles_cons_iff.mp done
    cases before with
    | nil =>
      obtain ⟨rfl, rfl⟩ := List.cons.inj whole
      obtain ⟨code, _, around, name, generated, -, located, -, puts⟩ := compileFile_puts step
      refine ⟨_, code, (grows_compileFiles later).locate located, generated, ?_⟩
      exact fun others => (file_compileFiles_iff later others _).mpr puts.self
    | cons b before =>
      obtain ⟨rfl, rest⟩ := List.cons.inj whole
      have kept := fun q member => isSource_compileFile step (sources q member)
      obtain ⟨l, code, located, generated, last⟩ :=
        ih later (fun q member => (kept q (List.mem_of_mem_tail member)).1) rest
      refine ⟨l, code, located, ?_, last⟩
      rw [← code?_eq_of_get (kept p (by simp [rest])).2, generated]

/-- The file of a schema holds the code for it as it was in the beginning. -/
def Disk.Keeps (d final : Disk) (output : Option Path) (p : Path) : Prop :=
  ∃ code, d.code? p = some code ∧ final.get (outputPath p output) = .ok (.file code.toUTF8)

/-- The code of both schemas goes to one file. -/
def Disk.SharesFile (d : Disk) (output : Option Path) (p q : Path) : Prop :=
  d.locate (outputPath p output) = d.locate (outputPath q output)

theorem Disk.SharesFile.get_eq (shares : d.SharesFile output p q) :
    d.get (outputPath p output) = d.get (outputPath q output) := by
  rw [Disk.get, Disk.get, shares]

/-- The code of a schema is kept if no later one shares its file. -/
theorem keeps_last (done : (compileFiles output schemas).exec d = (.ok (), d'))
    (sources : ∀ q ∈ schemas.tail, d.IsSource q) {before after : List Path}
    (whole : schemas = before ++ p :: after)
    (last : ∀ q ∈ after, ¬ d'.SharesFile output p q) : d.Keeps d' output p := by
  obtain ⟨l, code, located, generated, stands⟩ := compileFiles_last done sources whole
  have others : ∀ q ∈ after, d'.locate (outputPath q output) ≠ .ok l :=
    fun q member same => last q member (located.trans same.symm)
  exact ⟨code, generated, Disk.get_eq_file_iff.mpr ⟨l, located, stands others⟩⟩

/-- Where schemas of one file have the same code, each is kept as the last of them is. -/
theorem keeps_of_agree (done : (compileFiles output schemas).exec d = (.ok (), d'))
    (sources : ∀ q ∈ schemas.tail, d.IsSource q)
    (agree : schemas.Pairwise fun p q => d'.SharesFile output p q → d.code? p = d.code? q)
    {before after : List Path} (whole : schemas = before ++ p :: after) : d.Keeps d' output p := by
  induction size : after.length using Nat.strongRecOn generalizing p before after with
  | _ n ih =>
    by_cases later : ∃ q ∈ after, d'.SharesFile output p q
    · obtain ⟨q, member, shares⟩ := later
      obtain ⟨front, rest, rfl⟩ := List.append_of_mem member
      have fewer : rest.length < n := by
        rw [← size, List.length_append, List.length_cons]
        omega
      obtain ⟨code, generated, stands⟩ : d.Keeps d' output q :=
        ih _ fewer (by rw [whole, ← List.cons_append, ← List.append_assoc]) rfl
      have ordered := agree
      rw [whole, List.pairwise_append, List.pairwise_cons] at ordered
      refine ⟨code, ?_, ?_⟩
      · rw [ordered.2.1.1 q member shares, generated]
      · rw [shares.get_eq, stands]
    · exact keeps_last done sources whole fun q member shares => later ⟨q, member, shares⟩

/-- Schemas whose code is kept in one file have the same code. -/
theorem agree_of_keeps (kept : ∀ p ∈ schemas, d.Keeps d' output p) :
    schemas.Pairwise fun p q => d'.SharesFile output p q → d.code? p = d.code? q := by
  apply List.pairwise_of_forall_mem_list
  intro p member q member' shares
  obtain ⟨code, generated, stands⟩ := kept p member
  obtain ⟨code', generated', stands'⟩ := kept q member'
  rw [shares.get_eq, stands', Except.ok.injEq, Node.file.injEq] at stands
  rw [generated, generated']
  exact congrArg some (String.toByteArray_inj.mp stands).symm

theorem perform_compile_iff {input printed : String} {deep : Bool} {output : Option String} :
    (Command.perform (.compile input deep output)).exec d = (.ok printed, d') ↔
      printed = "" ∧ ∃ schemas, d.discover (Path.ofString input) deep = .ok schemas ∧
        (compileFiles (output.map Path.ofString) schemas).exec d = (.ok (), d') := by
  simp only [Command.perform, Task.bind_eq_ok_iff, Task.ofFile_eq_ok_iff, Task.get_eq_ok_iff,
    Task.pure_eq_ok_iff]
  constructor
  · rintro ⟨_, _, ⟨rfl, rfl⟩, schemas, _, ⟨found, rfl⟩, _, _, done, rfl, rfl⟩
    exact ⟨rfl, schemas, found, done⟩
  · rintro ⟨rfl, schemas, found, done⟩
    exact ⟨d, d, ⟨rfl, rfl⟩, schemas, d, ⟨found, rfl⟩, (), d', done, rfl, rfl⟩

/-- A run performs the command that its arguments spell and reports how that went. -/
theorem run_eq {arguments : List String} {command : Command}
    (spelled : Command.ofArguments arguments = .ok command) :
    run arguments d =
      match command.perform.exec d with
      | (.ok printed, d') => ⟨0, printed, "", d'⟩
      | (.error e, d') => ⟨1, "", e.message ++ "\n", d'⟩ := by
  simp only [run, spelled]
  rfl

/-- A run that succeeds has compiled all that was found. -/
theorem exists_of_run_compile {arguments : List String} {input : String} {deep : Bool}
    {output : Option String}
    (spelled : Command.ofArguments arguments = .ok (.compile input deep output))
    (success : (run arguments d).exit = 0) :
    ∃ schemas, d.discover (Path.ofString input) deep = .ok schemas ∧
      (compileFiles (output.map Path.ofString) schemas).exec d =
        (.ok (), (run arguments d).disk) := by
  rw [run_eq spelled] at success ⊢
  rcases performed : (Command.perform (.compile input deep output)).exec d with ⟨e | printed, d'⟩
  · rw [performed] at success
    cases success
  · exact (perform_compile_iff.mp performed).2

/-- When a run of the compiler succeeds, each schema that was found has its code in its file, unless
a later one has the same file. So no code is lost exactly if schemas of one file have the same
code. -/
theorem run_keeps_last {arguments : List String} {input : String} {deep : Bool}
    {output : Option String} (tidy : d.top.Tidy)
    (spelled : Command.ofArguments arguments = .ok (.compile input deep output))
    (success : (run arguments d).exit = 0) :
    ∃ schemas, d.discover (Path.ofString input) deep = .ok schemas ∧
      (∀ before p after, schemas = before ++ p :: after →
        (∀ q ∈ after, ¬ (run arguments d).disk.SharesFile (output.map Path.ofString) p q) →
        d.Keeps (run arguments d).disk (output.map Path.ofString) p) ∧
      ((∀ p ∈ schemas, d.Keeps (run arguments d).disk (output.map Path.ofString) p) ↔
        schemas.Pairwise fun p q =>
          (run arguments d).disk.SharesFile (output.map Path.ofString) p q →
            d.code? p = d.code? q) := by
  obtain ⟨schemas, found, done⟩ := exists_of_run_compile spelled success
  have sources := Disk.isSource_of_discover tidy found
  refine ⟨schemas, found, fun _ _ _ => keeps_last done sources, agree_of_keeps, ?_⟩
  intro agree p member
  obtain ⟨before, after, whole⟩ := List.append_of_mem member
  exact keeps_of_agree done sources agree whole

end

theorem bare_parsed : Schema.parse "" = .ok ⟨[], []⟩ := by
  refine Schema.parse_eq_ok_iff.mpr
    ⟨[⟨.finish, "", 0, ⟨1, 1⟩⟩], Token.lex_eq_ok_iff.mpr (by decide +kernel), ?_⟩
  rw [Schema.ofTokens_eq_ok_iff_draft]
  exact ⟨by decide +kernel, by decide +kernel, by decide +kernel,
    (Schema.issues_eq_nil_iff ⟨[], []⟩).mp (by cbv)⟩

def bareCode (name : String) : String :=
  (Code.Listing.ofSteps (Code.headerSteps (some name) ++ [] ++
    [Code.Step.append [.line "#[allow(unused_imports)]", .line Code.importLine]] ++ [])).render

theorem bare_compiled (name : String) : compile name "" = .ok (bareCode name) := by
  have built : Code.documentSteps Code.Facet.all ⟨[], []⟩ (some name) =
      .ok (Code.headerSteps (some name) ++ [] ++
        [Code.Step.append [.line "#[allow(unused_imports)]", .line Code.importLine]] ++ []) := by
    rw [Code.documentSteps]
    rfl
  have done : Code.document Code.Facet.all ⟨[], []⟩ (some name) = .ok (bareCode name) := by
    rw [Code.document, built, bareCode]
    rfl
  simp only [compile, bare_parsed, done]

/-- The working directory is there. -/
theorem ensureDirectories_here (entries : List (String × Node)) :
    Disk.ensureDirectories ⟨.directory entries, []⟩ ⟨false, ["."]⟩ =
      (.ok (), ⟨.directory entries, []⟩) := by
  have kept : Disk.ensureDirectory ⟨.directory entries, []⟩ ⟨false, ["."]⟩ =
      .ok ⟨.directory entries, []⟩ := rfl
  rw [Disk.ensureDirectories, kept]
  rfl

/-- Two schemas whose stems differ behind a dot only, and what else there is. -/
def dotted (more : List (String × Node)) : Disk :=
  ⟨.directory (("a.b.nsd", .file ⟨#[]⟩) :: ("a.c.nsd", .file ⟨#[]⟩) :: more), []⟩

def dottedPath (name : String) : Path := ⟨false, [".", name]⟩

theorem dotted_tidy : (dotted []).top.Tidy := by
  refine .directory (by decide) (by decide) fun entry member => ?_
  simp only [List.mem_cons, List.not_mem_nil, or_false] at member
  rcases member with rfl | rfl <;> exact .file _

theorem dotted_found : (dotted []).discover (Path.ofString ".") false =
    .ok [dottedPath "a.b.nsd", dottedPath "a.c.nsd"] := by
  have input : Path.ofString "." = ⟨false, ["."]⟩ := by decide
  have found : Node.schemasIn false [("a.b.nsd", .file ⟨#[]⟩), ("a.c.nsd", .file ⟨#[]⟩)] =
      [["a.b.nsd"], ["a.c.nsd"]] := by
    have first : isSchemaName "a.b.nsd" = true :=
      isSchemaName_of_chars "nsd" (by decide) (by decide)
    have second : isSchemaName "a.c.nsd" = true :=
      isSchemaName_of_chars "nsd" (by decide) (by decide)
    simp only [Node.schemasIn, first, second, if_true]
  have sorted : List.mergeSort [["a.b.nsd"], ["a.c.nsd"]] Location.le =
      [["a.b.nsd"], ["a.c.nsd"]] := List.mergeSort_of_pairwise (by decide)
  have stands : (dotted []).top.find? [] =
      some (.directory [("a.b.nsd", .file ⟨#[]⟩), ("a.c.nsd", .file ⟨#[]⟩)]) := rfl
  rw [input, Disk.discover_of_directory rfl stands, found, sorted]
  rfl

section

variable {name : String} (named : name = "a.b.nsd" ∨ name = "a.c.nsd")

include named

theorem dotted_read (more : List (String × Node)) :
    (dotted more).readText (dottedPath name) = .ok "" := by
  rcases named with rfl | rfl <;> rfl

theorem dotted_generated : compile ((dottedPath name).name?.getD "") "" = .ok (bareCode name) := by
  have called : (dottedPath name).name?.getD "" = name := by
    rcases named with rfl | rfl <;> decide
  rw [called, bare_compiled]

/-- Both have the same file. -/
theorem dotted_outputPath : outputPath (dottedPath name) none = ⟨false, [".", "a.rs"]⟩ := by
  rcases named with rfl | rfl <;> decide

theorem dotted_compiled {old : List (String × Node)}
    (before : old = [] ∨ ∃ content, old = [("a.rs", .file content)]) :
    (compileFile none (dottedPath name)).exec (dotted old) =
      (.ok (), dotted [("a.rs", .file (bareCode name).toUTF8)]) := by
  have directory : outputDirectory (dottedPath name) none = ⟨false, ["."]⟩ := by
    rcases named with rfl | rfl <;> decide
  have made : (dotted old).ensureDirectories ⟨false, ["."]⟩ = (.ok (), dotted old) :=
    ensureDirectories_here _
  have written : (dotted old).write ⟨false, [".", "a.rs"]⟩ (bareCode name).toUTF8 =
      .ok (dotted [("a.rs", .file (bareCode name).toUTF8)]) := by
    rcases before with rfl | ⟨content, rfl⟩ <;> rfl
  refine compileFile_eq_ok_iff.mpr ⟨"", bareCode name, dotted old, dotted_read named old,
    dotted_generated named, ?_, ?_⟩
  · rw [directory, made]
  · rw [dotted_outputPath named, written]

end

theorem dotted_spelled :
    Command.ofArguments ["compile", "-i", "."] = .ok (.compile "." false none) := by
  decide +kernel

theorem dotted_run : run ["compile", "-i", "."] (dotted []) =
    ⟨0, "", "", dotted [("a.rs", .file (bareCode "a.c.nsd").toUTF8)]⟩ := by
  have first := dotted_compiled (.inl rfl) (.inl rfl)
  have second := dotted_compiled (.inr rfl) (.inr ⟨(bareCode "a.b.nsd").toUTF8, rfl⟩)
  have performed : (Command.perform (.compile "." false none)).exec (dotted []) =
      (.ok "", dotted [("a.rs", .file (bareCode "a.c.nsd").toUTF8)]) := by
    refine perform_compile_iff.mpr ⟨rfl, _, dotted_found, ?_⟩
    exact compileFiles_cons_iff.mpr ⟨_, first, compileFiles_cons_iff.mpr
      ⟨_, second, compileFiles_nil_iff.mpr rfl⟩⟩
  rw [run_eq dotted_spelled, performed]

theorem run_keeps_last_dotted :
    (run ["compile", "-i", "."] (dotted [])).exit = 0 ∧
      (dotted []).Keeps (run ["compile", "-i", "."] (dotted [])).disk none
        (dottedPath "a.c.nsd") := by
  have success : (run ["compile", "-i", "."] (dotted [])).exit = 0 := by rw [dotted_run]
  obtain ⟨schemas, found, last, -⟩ := run_keeps_last dotted_tidy dotted_spelled success
  obtain rfl := Except.ok.inj (dotted_found.symm.trans found)
  exact ⟨success, last [dottedPath "a.b.nsd"] (dottedPath "a.c.nsd") [] rfl nofun⟩

/-- The code of the first is lost, and the run succeeds all the same. -/
theorem dotted_lost :
    (run ["compile", "-i", "."] (dotted [])).exit = 0 ∧
      (dotted []).discover (Path.ofString ".") false =
        .ok [dottedPath "a.b.nsd", dottedPath "a.c.nsd"] ∧
      ¬ (dotted []).Keeps (run ["compile", "-i", "."] (dotted [])).disk none
        (dottedPath "a.b.nsd") := by
  rw [dotted_run]
  refine ⟨rfl, dotted_found, ?_⟩
  rintro ⟨code, generated, stands⟩
  have own : (dotted []).code? (dottedPath "a.b.nsd") = some (bareCode "a.b.nsd") := by
    rw [Disk.code?, dotted_read (.inl rfl)]
    simp only [dotted_generated (.inl rfl), Except.toOption]
  have left : (dotted [("a.rs", .file (bareCode "a.c.nsd").toUTF8)]).get ⟨false, [".", "a.rs"]⟩ =
      .ok (.file (bareCode "a.c.nsd").toUTF8) := rfl
  have distinct : bareCode "a.b.nsd" ≠ bareCode "a.c.nsd" := by decide +kernel
  rw [own, Option.some.injEq] at generated
  rw [dotted_outputPath (.inl rfl), left, Except.ok.injEq, Node.file.injEq] at stands
  exact distinct (generated.trans (String.toByteArray_inj.mp stands).symm)

end WireSchema
