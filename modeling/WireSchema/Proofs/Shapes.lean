import Mathlib.Data.List.Basic
import WireSchema.Files.Disk

/-!
What stands where in a tree of files. A tree is seen as a function from locations, and paths are
followed in that view alone. So what a change of the tree leaves alone is said once, about the view,
and holds for all that goes by path.
-/

namespace WireSchema

/-- What stands at a location, without what is below it. -/
inductive Shape where
  | file (content : ByteArray)
  | directory

def Node.shape : Node → Shape
  | .file content => .file content
  | .directory _ => .directory

def Node.shapeAt (n : Node) (l : Location) : Option Shape := (n.find? l).map Node.shape

namespace Node

variable {n new : Node} {name : String} {l around : Location} {content : ByteArray}

/-- A location is looked up step by step. -/
theorem find?_append (n : Node) (l m : Location) :
    n.find? (l ++ m) = (n.find? l).bind (find? · m) := by
  induction l generalizing n with
  | nil => simp
  | cons name l ih =>
    cases n with
    | file => rfl
    | directory entries =>
      rw [List.cons_append, find?_cons, find?_cons, Option.bind_assoc]
      simp only [ih]

@[simp] theorem shapeAt_nil (n : Node) : n.shapeAt [] = some n.shape := by simp [shapeAt]

@[simp] theorem shapeAt_file (content : ByteArray) (name : String) (l : Location) :
    (file content).shapeAt (name :: l) = none := rfl

theorem shapeAt_directory (entries : List (String × Node)) (name : String) (l : Location) :
    (directory entries).shapeAt (name :: l) = (entries.lookup name).bind (shapeAt · l) := by
  rw [shapeAt, find?_cons]
  cases entries.lookup name <;> rfl

theorem find?_eq_file_iff : n.find? l = some (file content) ↔
    n.shapeAt l = some (.file content) := by
  rw [shapeAt]
  rcases n.find? l with - | (c | entries) <;> simp [shape]

theorem find?_eq_directory_iff : (∃ entries, n.find? l = some (directory entries)) ↔
    n.shapeAt l = some .directory := by
  rw [shapeAt]
  rcases n.find? l with - | (c | entries) <;> simp [shape]

/-- What is above something is a directory, and there is something on the way. -/
theorem directory_of_shapeAt_append {m : Location}
    (there : (n.shapeAt (l ++ name :: m)).isSome) :
    n.shapeAt l = some .directory ∧ (n.shapeAt (l ++ [name])).isSome := by
  simp only [shapeAt, find?_append, Option.isSome_map] at there ⊢
  generalize n.find? l = above at there ⊢
  rcases above with - | (c | entries)
  · cases there
  · cases there
  · refine ⟨rfl, ?_⟩
    rw [Option.bind_some, find?_cons] at there ⊢
    cases found : entries.lookup name with
    | none => rw [found] at there; cases there
    | some m => simp

/-- A file or an empty directory in place of a file or of nothing changes the view there and nowhere
else. -/
theorem shapeAt_put (parent : n.shapeAt around = some .directory)
    (free : n.shapeAt (around ++ [name]) ≠ some .directory)
    (bare : ∀ x m, new.shapeAt (x :: m) = none) (l : Location) :
    (n.put (around ++ [name]) new).shapeAt l =
      if l = around ++ [name] then some new.shape else n.shapeAt l := by
  induction around generalizing n l with
  | nil =>
    cases n with
    | file => simp [shape] at parent
    | directory entries =>
      cases l with
      | nil => simp [put, shape]
      | cons x m =>
        rw [List.nil_append, put, put, shapeAt_directory, shapeAt_directory]
        by_cases same : x = name
        · subst same
          rw [lookup_setEntry_self, Option.bind_some]
          cases m with
          | nil => simp
          | cons y m =>
            rw [bare, if_neg (by simp)]
            rw [List.nil_append, shapeAt_directory] at free
            generalize entries.lookup x = old at free ⊢
            rcases old with - | (c | below)
            · rfl
            · rfl
            · simp [shape] at free
        · rw [lookup_setEntry_of_ne same, if_neg (by simp [same])]
  | cons a around ih =>
    cases n with
    | file => cases parent
    | directory entries =>
      rw [List.cons_append, shapeAt_directory] at free
      rw [shapeAt_directory] at parent
      obtain ⟨below, found, inside⟩ := Option.bind_eq_some_iff.mp parent
      rw [found, Option.bind_some] at free
      cases l with
      | nil => simp [put, shape]
      | cons x m =>
        rw [List.cons_append, put, found, shapeAt_directory, shapeAt_directory]
        by_cases same : x = a
        · subst same
          rw [lookup_setEntry_self, Option.bind_some, Option.getD_some, ih inside free, found]
          simp
        · rw [lookup_setEntry_of_ne same, if_neg (by simp [same])]

end Node

/-! Following a path. -/

/-- The pieces lead from one location to another. -/
inductive Leads (view : Location → Option Shape) : Location → List String → Location → Prop
  | nil (l : Location) : Leads view l [] l
  | idle {l m : Location} {piece : String} {rest : List String} (inside : view l = some .directory)
    (idle : Path.isIdle piece = true) (later : Leads view l rest m) :
    Leads view l (piece :: rest) m
  | up {l m : Location} {piece : String} {rest : List String} (inside : view l = some .directory)
    (above : piece = "..") (later : Leads view l.dropLast rest m) : Leads view l (piece :: rest) m
  | down {l m : Location} {piece : String} {rest : List String}
    (inside : view l = some .directory) (proper : Disk.isStep piece = false)
    (there : (view (l ++ [piece])).isSome) (later : Leads view (l ++ [piece]) rest m) :
    Leads view l (piece :: rest) m

section

variable {view view' : Location → Option Shape} {l m k : Location} {pieces more : List String}
  {piece : String}

/-- A path leads on where directories stay and nothing goes. -/
theorem Leads.mono (directories : ∀ l, view l = some .directory → view' l = some .directory)
    (present : ∀ l, (view l).isSome → (view' l).isSome) (leads : Leads view l pieces m) :
    Leads view' l pieces m := by
  induction leads with
  | nil l => exact .nil l
  | idle inside idle _ ih => exact .idle (directories _ inside) idle ih
  | up inside above _ ih => exact .up (directories _ inside) above ih
  | down inside proper there _ ih =>
    exact .down (directories _ inside) proper (present _ there) ih

/-- A path leads on from where its front leads. -/
theorem leads_append : Leads view l (pieces ++ more) k ↔
    ∃ m, Leads view l pieces m ∧ Leads view m more k := by
  constructor
  · intro leads
    induction pieces generalizing l with
    | nil => exact ⟨l, .nil l, leads⟩
    | cons piece pieces ih =>
      cases leads with
      | idle inside idle later =>
        obtain ⟨m, front, back⟩ := ih later
        exact ⟨m, .idle inside idle front, back⟩
      | up inside above later =>
        obtain ⟨m, front, back⟩ := ih later
        exact ⟨m, .up inside above front, back⟩
      | down inside proper there later =>
        obtain ⟨m, front, back⟩ := ih later
        exact ⟨m, .down inside proper there front, back⟩
  · rintro ⟨m, front, back⟩
    induction front with
    | nil => exact back
    | idle inside idle _ ih => exact .idle inside idle (ih back)
    | up inside above _ ih => exact .up inside above (ih back)
    | down inside proper there _ ih => exact .down inside proper there (ih back)

theorem isStep_eq_false_iff :
    Disk.isStep piece = false ↔ Path.isIdle piece = false ∧ piece ≠ ".." := by
  simp [Disk.isStep]

theorem leads_proper (proper : Disk.isStep piece = false) : Leads view l [piece] m ↔
    view l = some .directory ∧ (view (l ++ [piece])).isSome ∧ m = l ++ [piece] := by
  obtain ⟨moving, other⟩ := isStep_eq_false_iff.mp proper
  constructor
  · intro leads
    cases leads with
    | idle _ idle _ => rw [moving] at idle; cases idle
    | up _ above _ => exact absurd above other
    | down inside _ there later =>
      cases later
      exact ⟨inside, there, rfl⟩
  · rintro ⟨inside, there, rfl⟩
    exact .down inside proper there (.nil _)

theorem leads_empty : Leads view l [""] m ↔ view l = some .directory ∧ m = l := by
  constructor
  · intro leads
    cases leads with
    | idle inside _ later =>
      cases later
      exact ⟨inside, rfl⟩
    | up _ above _ => exact absurd above (by decide)
    | down _ proper _ _ => exact absurd proper (by decide)
  · rintro ⟨inside, rfl⟩
    exact .idle inside rfl (.nil _)

end

/-- Following pieces succeeds exactly where they lead. -/
theorem Node.follow_eq_ok_iff {top : Node} {l m : Location} {pieces : List String} :
    top.follow l pieces = .ok m ↔ Leads top.shapeAt l pieces m := by
  induction pieces generalizing l with
  | nil =>
    rw [follow]
    constructor
    · intro same
      cases same
      exact .nil _
    · intro leads
      cases leads
      rfl
  | cons piece rest ih =>
    have below : ∀ {entries : List (String × Node)}, top.find? l = some (directory entries) →
        top.shapeAt (l ++ [piece]) = (entries.lookup piece).map shape := by
      intro entries found
      rw [shapeAt, find?_append, found, Option.bind_some, find?_cons]
      cases entries.lookup piece <;> simp
    constructor
    · intro follows
      rw [follow] at follows
      split at follows
      next entries found =>
        have inside := find?_eq_directory_iff.mp ⟨entries, found⟩
        split at follows
        next idle => exact .idle inside idle (ih.mp follows)
        next moving =>
        split at follows
        next above => exact .up inside above (ih.mp follows)
        next other =>
        split at follows
        next there =>
          refine .down inside (isStep_eq_false_iff.mpr ⟨by simpa using moving, other⟩) ?_
            (ih.mp follows)
          rwa [below found, Option.isSome_map]
        next => cases follows
      next => cases follows
    · intro leads
      have inside : top.shapeAt l = some .directory := by cases leads <;> assumption
      obtain ⟨entries, found⟩ := find?_eq_directory_iff.mpr inside
      rw [follow, found]
      cases leads with
      | idle _ idle later => simp only [idle, if_true, ih.mpr later]
      | up _ above later =>
        subst above
        exact ih.mpr later
      | down _ proper there later =>
        obtain ⟨moving, other⟩ := isStep_eq_false_iff.mp proper
        rw [below found, Option.isSome_map] at there
        simp only [moving, other, there, if_true, if_false, Bool.false_eq_true, ih.mpr later]

namespace Disk

variable {d d' e : Disk} {p : Path} {l : Location} {content : ByteArray}

theorem locate_eq_ok_iff : d.locate p = .ok l ↔
    (p.pieces ≠ [] ∨ p.isAbsolute = true) ∧ Leads d.top.shapeAt (d.start p) p.pieces l := by
  rw [locate, ← Node.follow_eq_ok_iff]
  split
  next nowhere => simp_all
  next somewhere =>
    have given : p.pieces ≠ [] ∨ p.isAbsolute = true := by
      by_contra nowhere
      simp_all
    simp only [given, true_and]

theorem get_eq_file_iff : d.get p = .ok (.file content) ↔
    ∃ l, d.locate p = .ok l ∧ d.top.shapeAt l = some (.file content) := by
  rw [get]
  cases d.locate p with
  | error e => simp [bind, Except.bind]
  | ok l =>
    simp only [bind, Except.bind, Except.ok.injEq, exists_eq_left', ← Node.find?_eq_file_iff]
    cases d.top.find? l <;> simp

/-! Changes of the disk. -/

/-- Directories stay, and nothing goes. -/
structure Grows (d d' : Disk) : Prop where
  here : d'.here = d.here
  directories : ∀ l, d.top.shapeAt l = some .directory → d'.top.shapeAt l = some .directory
  present : ∀ l, (d.top.shapeAt l).isSome → (d'.top.shapeAt l).isSome

theorem Grows.refl (d : Disk) : d.Grows d := ⟨rfl, fun _ => id, fun _ => id⟩

theorem Grows.trans (first : d.Grows d') (second : d'.Grows e) : d.Grows e :=
  ⟨second.here.trans first.here, fun l inside => second.directories l (first.directories l inside),
    fun l there => second.present l (first.present l there)⟩

theorem Grows.start (grows : d.Grows d') (p : Path) : d'.start p = d.start p := by
  rw [Disk.start, Disk.start, grows.here]

/-- Paths lead where they did. -/
theorem Grows.locate (grows : d.Grows d') (found : d.locate p = .ok l) : d'.locate p = .ok l := by
  obtain ⟨given, leads⟩ := locate_eq_ok_iff.mp found
  refine locate_eq_ok_iff.mpr ⟨given, ?_⟩
  rw [grows.start]
  exact leads.mono grows.directories grows.present

/-- Directories are added where nothing was. -/
structure Adds (d d' : Disk) : Prop where
  here : d'.here = d.here
  view : ∀ l, d'.top.shapeAt l = d.top.shapeAt l ∨
    d.top.shapeAt l = none ∧ d'.top.shapeAt l = some .directory

theorem Adds.refl (d : Disk) : d.Adds d := ⟨rfl, fun _ => .inl rfl⟩

theorem Adds.of_shapeAt (adds : d.Adds d') {s : Shape} (there : d.top.shapeAt l = some s) :
    d'.top.shapeAt l = some s := by
  rcases adds.view l with same | ⟨missing, -⟩
  · rw [same, there]
  · rw [there] at missing
    cases missing

/-- What only adds directories grows. -/
theorem Adds.grows (adds : d.Adds d') : d.Grows d' := by
  refine ⟨adds.here, fun l inside => adds.of_shapeAt inside, fun l there => ?_⟩
  obtain ⟨s, there⟩ := Option.isSome_iff_exists.mp there
  rw [adds.of_shapeAt there]
  rfl

theorem Adds.trans (first : d.Adds d') (second : d'.Adds e) : d.Adds e := by
  refine ⟨second.here.trans first.here, fun l => ?_⟩
  rcases first.view l with same | ⟨missing, made⟩
  · rw [← same]
    exact second.view l
  · exact .inr ⟨missing, second.of_shapeAt made⟩

/-- One place changes that is no directory. -/
structure Puts (d : Disk) (l : Location) (s : Shape) (d' : Disk) : Prop where
  here : d'.here = d.here
  free : d.top.shapeAt l ≠ some .directory
  view : ∀ m, d'.top.shapeAt m = if m = l then some s else d.top.shapeAt m

theorem Puts.self {s : Shape} (puts : d.Puts l s d') : d'.top.shapeAt l = some s := by
  rw [puts.view, if_pos rfl]

/-- Elsewhere nothing is changed. -/
theorem Puts.of_ne {s : Shape} (puts : d.Puts l s d') {m : Location} (other : m ≠ l) :
    d'.top.shapeAt m = d.top.shapeAt m := by
  rw [puts.view, if_neg other]

/-- Directories and one place are all that differs, so other files are as they were. -/
theorem Adds.file_iff {mid : Disk} {s : Shape} (adds : d.Adds mid) (puts : mid.Puts l s d')
    {m : Location} (other : m ≠ l) (content : ByteArray) :
    d'.top.shapeAt m = some (.file content) ↔ d.top.shapeAt m = some (.file content) := by
  rw [puts.of_ne other]
  rcases adds.view m with same | ⟨missing, made⟩
  · rw [same]
  · rw [missing, made]
    simp

theorem Puts.grows {s : Shape} (puts : d.Puts l s d') : d.Grows d' := by
  refine ⟨puts.here, fun m inside => ?_, fun m there => ?_⟩
  · rw [puts.of_ne, inside]
    rintro rfl
    exact puts.free inside
  · rw [puts.view]
    split
    · rfl
    · exact there

/-- Putting a file or an empty directory into a directory changes that location only. -/
theorem puts_put {around : Location} {name : String} (new : Node)
    (inside : d.top.shapeAt around = some .directory)
    (free : d.top.shapeAt (around ++ [name]) ≠ some .directory)
    (bare : ∀ x m, new.shapeAt (x :: m) = none) :
    d.Puts (around ++ [name]) new.shape (d.put (around ++ [name]) new) :=
  ⟨rfl, free, Node.shapeAt_put inside free bare⟩

theorem holder_eq_ok {pieces : List String} {around : Location} {name : String}
    (held : d.holder p pieces = .ok (around, name)) (proper : isStep name = false) :
    ∃ front, pieces = front ++ [name] ∧ Leads d.top.shapeAt (d.start p) front around ∧
      d.top.shapeAt around = some .directory := by
  rw [holder] at held
  split at held
  next =>
    cases held
    cases proper
  next last ends =>
    cases follows : d.top.follow (d.start p) pieces.dropLast with
    | error e =>
      rw [follows] at held
      cases held
    | ok l =>
      rw [follows] at held
      simp only [bind, Except.bind] at held
      split at held
      next entries found =>
        cases held
        refine ⟨pieces.dropLast, ?_, Node.follow_eq_ok_iff.mp follows,
          Node.find?_eq_directory_iff.mp ⟨entries, found⟩⟩
        exact (List.dropLast_append_getLast? _ ends).symm
      next => cases held

/-- A write puts a file where the path then leads. -/
theorem write_eq_ok (written : d.write p content = .ok d') :
    ∃ front name around, p.pieces = front ++ [name] ∧ isStep name = false ∧
      d'.locate p = .ok (around ++ [name]) ∧ d.Puts (around ++ [name]) (.file content) d' := by
  rw [write] at written
  cases held : d.holder p p.pieces with
  | error e =>
    rw [held] at written
    cases written
  | ok place =>
    obtain ⟨around, name⟩ := place
    rw [held] at written
    simp only [bind, Except.bind] at written
    split at written
    next => cases written
    next proper =>
    rw [Bool.not_eq_true] at proper
    split at written
    next => cases written
    next free =>
    cases written
    obtain ⟨front, whole, leads, inside⟩ := holder_eq_ok held proper
    have puts := puts_put (.file content) inside
      (fun directory => by
        obtain ⟨entries, found⟩ := Node.find?_eq_directory_iff.mpr directory
        exact free entries found) fun _ _ => rfl
    refine ⟨front, name, around, whole, proper, ?_, puts⟩
    refine locate_eq_ok_iff.mpr ⟨.inl (by simp [whole]), ?_⟩
    rw [whole, leads_append, puts.grows.start]
    refine ⟨around, leads.mono puts.grows.directories puts.grows.present, ?_⟩
    exact (leads_proper proper).mpr
      ⟨puts.grows.directories _ inside, by rw [puts.self]; rfl, rfl⟩

/-- Making a directory adds no more than it. -/
theorem adds_makeDirectory (made : d.makeDirectory p = .ok d') : d.Adds d' := by
  rw [makeDirectory] at made
  cases held : d.holder p (dropSlashes p.pieces) with
  | error e =>
    rw [held] at made
    cases made
  | ok place =>
    obtain ⟨around, name⟩ := place
    rw [held] at made
    simp only [bind, Except.bind] at made
    split at made
    next => cases made
    next proper =>
    cases made
    simp only [Bool.or_eq_true, not_or, Bool.not_eq_true, Option.isSome_eq_false_iff,
      Option.isNone_iff_eq_none] at proper
    obtain ⟨proper, missing⟩ := proper
    obtain ⟨front, -, -, inside⟩ := holder_eq_ok held proper
    have absent : d.top.shapeAt (around ++ [name]) = none := by rw [Node.shapeAt, missing]; rfl
    have puts := puts_put (.directory []) inside (by rw [absent]; exact nofun) fun _ _ => rfl
    refine ⟨rfl, fun l => ?_⟩
    by_cases same : l = around ++ [name]
    · subst same
      exact .inr ⟨absent, puts.self⟩
    · exact .inl (puts.of_ne same)

theorem adds_ensureDirectory (made : d.ensureDirectory p = .ok d') : d.Adds d' := by
  rw [ensureDirectory] at made
  split at made
  next made' =>
    cases made
    exact adds_makeDirectory made'
  next =>
    split at made
    · cases made
      exact Adds.refl d
    · cases made

/-- Also where the directory is refused in the end. -/
theorem adds_ensureDirectories (d : Disk) (p : Path) : d.Adds (d.ensureDirectories p).2 := by
  fun_induction ensureDirectories d p with
  | case1 => exact Adds.refl d
  | case2 p _ d' made => exact adds_ensureDirectory made
  | case3 => exact Adds.refl d
  | case4 p _ _ above _ _ e d' refused ih =>
    rw [refused] at ih
    exact ih
  | case5 p _ _ above _ _ d' done e made ih =>
    rw [done] at ih
    exact ih.trans (adds_ensureDirectory made)
  | case6 p _ _ above _ _ d' done e refused ih =>
    rw [done] at ih
    exact ih
  | case7 => exact Adds.refl d

end Disk

end WireSchema
