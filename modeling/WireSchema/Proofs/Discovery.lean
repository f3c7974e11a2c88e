import Mathlib.Data.List.Induction
import WireSchema.Proofs.Shapes

/-!
What a search for schemas finds. Each of its steps lists one directory, and how a directory is
listed is up to the file system. What is found is told from the view of the tree alone: a location
is found if a file stands there that has the name of a schema, and if it is in the directory itself
or the search is deep. Sorted by the pieces of its location, each file has one place among the
others, so no order of listing shows in the result.
-/

namespace WireSchema

/-! Locations that are found. -/

theorem toLower_eq_nsd_iff {extension : String} : extension.toLower = "nsd" ↔
    extension.toList.map Char.toLower = ['n', 's', 'd'] := by
  rw [← String.toList_inj]
  exact Eq.congr_left String.toList_map

/-- The extension of a schema may be spelled with capitals. -/
theorem isSchemaName_of_chars {name : String} (extension : String)
    (divided : extensionOf name = some extension)
    (chars : extension.toList.map Char.toLower = ['n', 's', 'd']) : isSchemaName name = true := by
  rw [isSchemaName, divided]
  exact beq_iff_eq.mpr (toLower_eq_nsd_iff.mpr chars)

namespace Node

/-- Names in a directory are distinct, and none is a step. -/
inductive Tidy : Node → Prop
  | file (content : ByteArray) : Tidy (.file content)
  | directory {entries : List (String × Node)} (distinct : (entries.map Prod.fst).Nodup)
    (proper : ∀ entry ∈ entries, Disk.isStep entry.1 = false)
    (below : ∀ entry ∈ entries, Tidy entry.2) : Tidy (.directory entries)

variable {n m : Node} {entries : List (String × Node)} {name : String} {l : Location} {deep : Bool}

/-- Where names are distinct, an entry is found by its name. -/
theorem lookup_of_mem (distinct : (entries.map Prod.fst).Nodup) {entry : String × Node}
    (member : entry ∈ entries) : entries.lookup entry.1 = some entry.2 := by
  induction entries with
  | nil => cases member
  | cons first rest ih =>
    rw [List.map_cons, List.nodup_cons] at distinct
    rcases List.mem_cons.mp member with rfl | member
    · exact List.lookup_cons_self
    · have other : (entry.1 == first.1) = false := by
        rw [beq_eq_false_iff_ne]
        intro same
        exact distinct.1 (same ▸ List.mem_map_of_mem member)
      rw [List.lookup_cons, other]
      exact ih distinct.2 member

theorem mem_of_lookup (here : entries.lookup name = some n) : (name, n) ∈ entries := by
  obtain ⟨before, after, rfl, -⟩ := List.lookup_eq_some_iff.mp here
  simp

/-- What stands in a tidy tree is tidy. -/
theorem Tidy.of_find? (tidy : n.Tidy) (found : n.find? l = some m) : m.Tidy := by
  induction l generalizing n with
  | nil =>
    rw [find?_nil] at found
    cases found
    exact tidy
  | cons name l ih =>
    cases tidy with
    | file => cases found
    | directory distinct proper below =>
      rw [find?_cons] at found
      obtain ⟨node, here, found⟩ := Option.bind_eq_some_iff.mp found
      exact ih (below (name, node) (mem_of_lookup here)) found

/-- No name on the way to something is a step. -/
theorem Tidy.proper (tidy : n.Tidy) (there : (n.shapeAt l).isSome) :
    ∀ name ∈ l, Disk.isStep name = false := by
  induction l generalizing n with
  | nil => exact nofun
  | cons name l ih =>
    cases tidy with
    | file => cases there
    | directory distinct proper below =>
      rw [shapeAt_directory, Option.isSome_iff_exists] at there
      obtain ⟨shape, there⟩ := there
      obtain ⟨node, here, there⟩ := Option.bind_eq_some_iff.mp there
      have member := mem_of_lookup here
      exact List.forall_mem_cons.mpr
        ⟨proper _ member, ih (below _ member) (Option.isSome_of_eq_some there)⟩

/-- In an entry with this name, the location behind it is that of a schema. -/
def Yields (deep : Bool) (name : String) : Node → Location → Prop
  | .file _, l => isSchemaName name = true ∧ l = []
  | .directory inner, l => deep = true ∧ l ∈ schemasIn deep inner

/-- A location is found below the entry that it starts with. -/
theorem mem_schemasIn_iff : l ∈ schemasIn deep entries ↔
    ∃ entry ∈ entries, ∃ k, l = entry.1 :: k ∧ entry.2.Yields deep entry.1 k := by
  induction entries with
  | nil => simp [schemasIn]
  | cons entry rest ih =>
    obtain ⟨name, node⟩ := entry
    rw [List.exists_mem_cons_iff, ← ih]
    cases node with
    | file content =>
      have own : (∃ k, l = name :: k ∧ (file content).Yields deep name k) ↔
          isSchemaName name = true ∧ l = [name] := by
        constructor
        · rintro ⟨k, rfl, schema, rfl⟩
          exact ⟨schema, rfl⟩
        · rintro ⟨schema, rfl⟩
          exact ⟨[], rfl, schema, rfl⟩
      rw [own, schemasIn]
      split
      next schema => simp [schema]
      next other => simp [other]
    | directory inner =>
      rw [schemasIn]
      split
      next deeper =>
        subst deeper
        have own : (∃ k, l = name :: k ∧ (directory inner).Yields true name k) ↔
            l ∈ (schemasIn true inner).map (name :: ·) := by
          simp [Yields, List.mem_map, and_comm, eq_comm]
        rw [own, List.mem_append]
      next shallow => simp [Yields, shallow]

theorem Tidy.of_entries (tidy : (Node.directory entries).Tidy) :
    (entries.map Prod.fst).Nodup ∧ ∀ entry ∈ entries, entry.2.Tidy := by
  cases tidy with
  | directory distinct _ below => exact ⟨distinct, below⟩

theorem Tidy.tail {entry : String × Node} (tidy : (Node.directory (entry :: entries)).Tidy) :
    (Node.directory entries).Tidy := by
  cases tidy with
  | directory distinct proper below =>
    exact .directory (List.nodup_cons.mp distinct).2 (List.forall_mem_cons.mp proper).2
      (List.forall_mem_cons.mp below).2

/-- A search finds the files with the names of schemas, in the directory itself or, where it is
deep, at any depth below it. -/
theorem Tidy.mem_schemasIn_iff (tidy : (Node.directory entries).Tidy) :
    l ∈ schemasIn deep entries ↔
      (∃ content, (Node.directory entries).shapeAt l = some (.file content)) ∧
        (deep = true ∨ l.length = 1) ∧ ∃ name ∈ l.getLast?, isSchemaName name = true := by
  induction l generalizing entries with
  | nil => simp [Node.mem_schemasIn_iff, shape]
  | cons name l ih =>
    obtain ⟨distinct, below⟩ := tidy.of_entries
    have entry : name :: l ∈ schemasIn deep entries ↔
        ∃ node, entries.lookup name = some node ∧ node.Yields deep name l := by
      rw [Node.mem_schemasIn_iff]
      constructor
      · rintro ⟨entry, member, k, same, yields⟩
        cases same
        exact ⟨entry.2, lookup_of_mem distinct member, yields⟩
      · rintro ⟨node, here, yields⟩
        exact ⟨_, mem_of_lookup here, l, rfl, yields⟩
    rw [entry, shapeAt_directory]
    cases here : entries.lookup name with
    | none => simp
    | some node =>
      cases node with
      | file content => cases l <;> simp [Yields, shape]
      | directory inner =>
        have inside := ih (below _ (mem_of_lookup here))
        cases l with
        | nil => simp [Yields, inside, shape]
        | cons next l => cases deep <;> simp [Yields, inside]

/-- In a tidy directory no location is found twice. -/
theorem Tidy.nodup_schemasIn (tidy : (Node.directory entries).Tidy) :
    (schemasIn deep entries).Nodup := by
  -- The names of the entries tell apart what is found in them.
  have apart {name : String} {node : Node} {rest : List (String × Node)}
      (tidy : (Node.directory ((name, node) :: rest)).Tidy) (l : Location) :
      name :: l ∉ schemasIn deep rest := by
    intro found
    obtain ⟨entry, member, k, same, -⟩ := Node.mem_schemasIn_iff.mp found
    cases same
    exact (List.nodup_cons.mp tidy.of_entries.1).1 (List.mem_map.mpr ⟨entry, member, rfl⟩)
  fun_induction schemasIn deep entries with
  | case1 => exact List.nodup_nil
  | case2 name content rest schema ih => exact List.nodup_cons.mpr ⟨apart tidy [], ih tidy.tail⟩
  | case3 name content rest other ih => exact ih tidy.tail
  | case4 name inner rest deeper ihInner ihRest =>
    have inside : ((schemasIn deep inner).map (name :: ·)).Nodup :=
      List.Pairwise.map _ (fun _ _ differ same => differ (List.cons.inj same).2)
        (ihInner (tidy.of_entries.2 _ List.mem_cons_self))
    refine List.nodup_append.mpr ⟨inside, ihRest tidy.tail, ?_⟩
    rintro l found l' found' rfl
    obtain ⟨k, -, rfl⟩ := List.mem_map.mp found
    exact apart tidy k found'
  | case5 name inner rest shallow ih => exact ih tidy.tail

end Node

/-! The order of paths. -/

/-- A part of a path that counts. Pieces that stay where they are do not, but for a dot in front. -/
inductive Component where
  | root
  | current
  | parent
  | name (s : String)
  deriving DecidableEq

namespace Component

def ofPiece? (piece : String) : Option Component :=
  if Path.isIdle piece then none else if piece = ".." then some .parent else some (.name piece)

def rank : Component → Nat
  | .root => 0
  | .current => 1
  | .parent => 2
  | .name _ => 3

/-- Names stand behind all else, in their own order. -/
def isBefore : Component → Component → Bool
  | .name x, .name y => x < y
  | a, b => a.rank < b.rank

end Component

namespace Path

def components (p : Path) : List Component :=
  (if p.isAbsolute then [.root] else if p.pieces.head? = some "." then [.current] else []) ++
    p.pieces.filterMap Component.ofPiece?

/-- The order of the components, from the first on. A path stands before those that go on from
it. -/
def isBefore (p q : Path) : Bool := p.components.lex q.components Component.isBefore

def extension? (p : Path) : Option String := p.name?.bind extensionOf

variable {p : Path} {name : String} {names : List String}

def front (p : Path) : List String :=
  if p.pieces.getLast? = some "" then p.pieces.dropLast else p.pieces

theorem join_eq (p : Path) (name : String) : p.join name = ⟨p.isAbsolute, p.front ++ [name]⟩ := by
  rw [join, front]
  split <;> rfl

theorem trimIdle_concat {pieces : List String} {piece : String} (moving : isIdle piece = false) :
    trimIdle (pieces ++ [piece]) = pieces ++ [piece] := by
  rw [trimIdle, List.reverse_append, List.reverse_singleton, List.singleton_append,
    List.dropWhile_cons_of_neg (by simp [moving])]
  simp

theorem trimmed_concat {absolute : Bool} {pieces : List String} {piece : String}
    (moving : isIdle piece = false) :
    trimmed ⟨absolute, pieces ++ [piece]⟩ = pieces ++ [piece] := by
  cases absolute with
  | true => exact trimIdle_concat moving
  | false =>
    cases pieces with
    | nil => rfl
    | cons first rest =>
      rw [trimmed]
      exact congrArg (first :: ·) (trimIdle_concat moving)

theorem name?_concat {absolute : Bool} {pieces : List String} {piece : String}
    (proper : Disk.isStep piece = false) : name? ⟨absolute, pieces ++ [piece]⟩ = some piece := by
  obtain ⟨moving, other⟩ := isStep_eq_false_iff.mp proper
  have still : piece ≠ "." := by
    rintro rfl
    cases moving
  simp [name?, trimmed_concat moving, still, other]

/-- Joining a name to a path adds it as the last component. -/
theorem components_join (proper : Disk.isStep name = false) :
    (p.join name).components = p.components ++ [.name name] := by
  obtain ⟨moving, other⟩ := isStep_eq_false_iff.mp proper
  have last : Component.ofPiece? name = some (.name name) := by
    simp [Component.ofPiece?, moving, other]
  have dot : name ≠ "." := by
    rintro rfl
    cases moving
  have passed : p.front.filterMap Component.ofPiece? = p.pieces.filterMap Component.ofPiece? := by
    rw [front]
    split
    next slash =>
      conv_rhs => rw [← List.dropLast_append_getLast? _ slash]
      simp [Component.ofPiece?, isIdle]
    next => rfl
  have head : (p.front ++ [name]).head? = some "." ↔ p.pieces.head? = some "." := by
    rw [front]
    rcases p.pieces with - | ⟨first, - | ⟨second, rest⟩⟩
    · simp [dot]
    · by_cases slash : first = "" <;> simp [slash, dot]
    · split <;> simp
  simp only [components, join_eq, List.filterMap_append, passed, head]
  simp [last]

/-- Joining names one after the other adds all of them. -/
theorem components_foldl_join (proper : ∀ name ∈ names, Disk.isStep name = false) :
    (names.foldl join p).components = p.components ++ names.map .name := by
  induction names generalizing p with
  | nil => simp
  | cons name names ih =>
    obtain ⟨fit, fits⟩ := List.forall_mem_cons.mp proper
    rw [List.foldl_cons, ih fits, components_join fit]
    simp

end Path

namespace Location

theorem le_cons_cons {x y : String} {l m : Location} :
    le (x :: l) (y :: m) = true ↔ x < y ∨ x = y ∧ le l m = true := by
  simp [le]

/-- Any two locations can be compared. -/
theorem le_total (l m : Location) : (le l m || le m l) = true := by
  rw [Bool.or_eq_true]
  induction l generalizing m with
  | nil => exact .inl rfl
  | cons x l ih =>
    cases m with
    | nil => exact .inr rfl
    | cons y m =>
      rw [le_cons_cons, le_cons_cons]
      by_cases first : x < y
      · exact .inl (.inl first)
      · by_cases second : y < x
        · exact .inr (.inl second)
        · obtain rfl := String.le_antisymm (String.not_lt.mp second) (String.not_lt.mp first)
          exact (ih m).imp (fun le => .inr ⟨rfl, le⟩) fun le => .inr ⟨rfl, le⟩

theorem le_trans (l m k : Location) (first : le l m = true) (second : le m k = true) :
    le l k = true := by
  induction l generalizing m k with
  | nil => rfl
  | cons x l ih =>
    cases m with
    | nil => cases first
    | cons y m =>
      cases k with
      | nil => cases second
      | cons z k =>
        rw [le_cons_cons] at *
        rcases first with less | ⟨rfl, first⟩
        · rcases second with less' | ⟨rfl, -⟩
          · exact .inl (String.lt_trans less less')
          · exact .inl less
        · exact second.imp id fun ⟨same, second⟩ => ⟨same, ih m k first second⟩

/-- Locations that are in order both ways are equal. -/
theorem le_antisymm (l m : Location) (first : le l m = true) (second : le m l = true) : l = m := by
  induction l generalizing m with
  | nil =>
    cases m with
    | nil => rfl
    | cons => cases second
  | cons x l ih =>
    cases m with
    | nil => cases first
    | cons y m =>
      rw [le_cons_cons] at first second
      rcases first with less | ⟨rfl, first⟩
      · rcases second with less' | ⟨rfl, -⟩
        · exact absurd less' (String.lt_asymm less)
        · exact absurd less (String.lt_irrefl _)
      · rcases second with less | ⟨-, second⟩
        · exact absurd less (String.lt_irrefl _)
        · rw [ih m first second]

/-- The order of locations is that of the paths that lead there from one directory. -/
theorem isBefore_foldl_join {l m : Location} {p : Path} (le : le l m = true) (differ : l ≠ m)
    (proper : ∀ name ∈ l, Disk.isStep name = false)
    (proper' : ∀ name ∈ m, Disk.isStep name = false) :
    (l.foldl Path.join p).isBefore (m.foldl Path.join p) = true := by
  rw [Path.isBefore, Path.components_foldl_join proper, Path.components_foldl_join proper']
  induction p.components with
  | cons c cs ih => rw [List.cons_append, List.cons_append, List.cons_lex_cons, ih]; simp
  | nil =>
    rw [List.nil_append, List.nil_append]
    clear proper proper'
    induction l generalizing m with
    | nil =>
      cases m with
      | nil => exact absurd rfl differ
      | cons => rfl
    | cons x l ih =>
      cases m with
      | nil => cases le
      | cons y m =>
        rw [le_cons_cons] at le
        rw [List.map_cons, List.map_cons, List.cons_lex_cons]
        rcases le with less | ⟨rfl, le⟩
        · simp [Component.isBefore, less]
        · rw [ih le fun same => differ (congrArg _ same)]
          simp

end Location

/-! Paths below a directory. -/

section

variable {d : Disk} {p q : Path} {l m : Location} {names : List String} {name : String}
  {entries : List (String × Node)} {deep : Bool}

/-- The names above something lead to it. -/
theorem leads_names (proper : ∀ name ∈ names, Disk.isStep name = false)
    (there : (d.top.shapeAt (l ++ names)).isSome) : Leads d.top.shapeAt l names (l ++ names) := by
  induction names generalizing l with
  | nil =>
    rw [List.append_nil]
    exact .nil l
  | cons name names ih =>
    obtain ⟨fit, fits⟩ := List.forall_mem_cons.mp proper
    obtain ⟨inside, next⟩ := Node.directory_of_shapeAt_append there
    rw [List.append_cons] at there ⊢
    exact .down inside fit next (ih fits there)

/-- A path that is joined to another leads on from where that one leads. -/
theorem locate_join (found : d.locate p = .ok l) (leads : Leads d.top.shapeAt l [name] m) :
    d.locate (p.join name) = .ok m := by
  obtain ⟨-, front⟩ := Disk.locate_eq_ok_iff.mp found
  rw [Disk.locate_eq_ok_iff, Path.join]
  split
  next slash =>
    refine ⟨.inl (by simp), leads_append.mpr ⟨l, ?_, leads⟩⟩
    rw [← List.dropLast_append_getLast? _ slash, leads_append] at front
    obtain ⟨k, front, empty⟩ := front
    obtain ⟨-, rfl⟩ := leads_empty.mp empty
    exact front
  next => exact ⟨.inl (by simp), leads_append.mpr ⟨l, front, leads⟩⟩

theorem locate_foldl_join (found : d.locate p = .ok l) (leads : Leads d.top.shapeAt l names m) :
    d.locate (names.foldl Path.join p) = .ok m := by
  induction names generalizing p l with
  | nil =>
    cases leads
    exact found
  | cons name names ih =>
    rw [← List.singleton_append, leads_append] at leads
    obtain ⟨k, first, later⟩ := leads
    exact ih (locate_join found first) later

/-- What can be listed is a directory. -/
theorem Disk.list_eq_ok_iff : d.list p = .ok entries ↔
    ∃ l, d.locate p = .ok l ∧ d.top.find? l = some (.directory entries) := by
  rw [list, Disk.get]
  cases d.locate p with
  | error e => simp [bind, Except.bind]
  | ok l =>
    rcases stands : d.top.find? l with - | (content | listed) <;> simp [bind, Except.bind, stands]

/-- Whether a path is a directory is told by the view. -/
theorem Disk.isDirectoryAt_iff (found : d.locate p = .ok l) :
    d.isDirectoryAt p = true ↔ d.top.shapeAt l = some .directory := by
  rw [isDirectoryAt, Disk.get, found, Node.shapeAt]
  rcases stands : d.top.find? l with - | (content | listed) <;>
    simp [bind, Except.bind, stands, Node.isFile, Node.shape]

/-- What stands below a directory is reached by joining the names on the way. -/
theorem Disk.locate_below (tidy : d.top.Tidy) (located : d.locate p = .ok l)
    (there : (d.top.shapeAt (l ++ names)).isSome) :
    d.locate (names.foldl Path.join p) = .ok (l ++ names) :=
  locate_foldl_join located (leads_names (List.forall_mem_append.mp (tidy.proper there)).2 there)

/-- The names that a directory lists are those under which something stands. -/
theorem Node.Tidy.mem_iff {n : Node} (tidy : n.Tidy)
    (stands : n.find? l = some (.directory entries)) :
    (∃ node, (name, node) ∈ entries) ↔ (n.shapeAt (l ++ [name])).isSome := by
  rw [shapeAt, find?_append, stands, Option.bind_some, find?_cons]
  constructor
  · rintro ⟨node, member⟩
    simp [lookup_of_mem (tidy.of_find? stands).of_entries.1 member]
  · intro there
    cases here : entries.lookup name with
    | none => simp [here] at there
    | some node => exact ⟨node, mem_of_lookup here⟩

/-- The path is that of an entry of the directory or, where the search is deep, of an entry of a
directory in it. -/
inductive Disk.LiesIn (d : Disk) (deep : Bool) (p : Path) : Path → Prop
  | entry {entries : List (String × Node)} {name : String} {node : Node}
    (listed : d.list p = .ok entries) (member : (name, node) ∈ entries) :
    LiesIn d deep p (p.join name)
  | further {q : Path} {entries : List (String × Node)} {name : String} {node : Node}
    (deeper : deep = true) (inside : LiesIn d deep p q) (listed : d.list q = .ok entries)
    (member : (name, node) ∈ entries) : LiesIn d deep p (q.join name)

/-- What lies in a directory stands at a location below that of the directory. -/
theorem Disk.liesIn_iff (tidy : d.top.Tidy) (located : d.locate p = .ok l) :
    d.LiesIn deep p q ↔ ∃ names, names ≠ [] ∧ (deep = true ∨ names.length = 1) ∧
      (d.top.shapeAt (l ++ names)).isSome ∧ q = names.foldl Path.join p := by
  constructor
  · intro lies
    induction lies with
    | @entry entries name node listed member =>
      obtain ⟨l', located', stands⟩ := list_eq_ok_iff.mp listed
      obtain rfl := Except.ok.inj (located.symm.trans located')
      exact ⟨[name], by simp, .inr rfl, (tidy.mem_iff stands).mp ⟨node, member⟩, rfl⟩
    | @further q entries name node deeper inside listed member ih =>
      obtain ⟨names, -, -, there, rfl⟩ := ih
      obtain ⟨l', located', stands⟩ := list_eq_ok_iff.mp listed
      obtain rfl := Except.ok.inj ((locate_below tidy located there).symm.trans located')
      refine ⟨names ++ [name], by simp, .inl deeper, ?_, ?_⟩
      · rw [← List.append_assoc]
        exact (tidy.mem_iff stands).mp ⟨node, member⟩
      · rw [List.foldl_append]
        rfl
  · rintro ⟨names, some, depth, there, rfl⟩
    induction names using List.reverseRecOn with
    | nil => exact absurd rfl some
    | append_singleton names name ih =>
      -- What is above it is a directory that has it among its entries.
      rw [← List.append_assoc] at there
      obtain ⟨inside, -⟩ := Node.directory_of_shapeAt_append there
      obtain ⟨entries, stands⟩ := Node.find?_eq_directory_iff.mpr inside
      obtain ⟨node, member⟩ := (tidy.mem_iff stands).mpr there
      have above : (d.top.shapeAt (l ++ names)).isSome := by rw [inside]; rfl
      have listed := list_eq_ok_iff.mpr ⟨_, locate_below tidy located above, stands⟩
      rw [List.foldl_append]
      by_cases first : names = []
      · subst first
        exact .entry listed member
      · rw [List.length_append, List.length_singleton] at depth
        have deeper : deep = true := depth.resolve_right fun one => first
          (List.length_eq_zero_iff.mp (by omega))
        exact .further deeper (ih first (.inl deeper) above) listed member

def Path.IsSchema (p : Path) : Prop := ∃ extension ∈ p.extension?, extension.toLower = "nsd"

/-- Whether a path that is found is a schema is told by its last name. -/
theorem Path.isSchema_foldl_join (proper : ∀ name ∈ names, Disk.isStep name = false)
    (last : name ∈ names.getLast?) :
    (names.foldl Path.join p).IsSchema ↔ isSchemaName name = true := by
  obtain ⟨before, rfl⟩ := List.getLast?_eq_some_iff.mp last
  rw [List.foldl_append, List.foldl_cons, List.foldl_nil, Path.join_eq, IsSchema, extension?,
    name?_concat (proper name (by simp)), Option.bind_some, isSchemaName]
  cases extensionOf name <;> simp

/-- For a directory, what is found in it is sorted and joined to its path. -/
theorem Disk.discover_of_directory (located : d.locate p = .ok l)
    (stands : d.top.find? l = some (.directory entries)) :
    d.discover p deep =
      .ok (((Node.schemasIn deep entries).mergeSort Location.le).map (·.foldl Path.join p)) := by
  have listed := list_eq_ok_iff.mpr ⟨l, located, stands⟩
  have directory : d.isFileAt p = false := by
    rw [isFileAt, Disk.get, located]
    simp [bind, Except.bind, stands, Node.isFile]
  rw [discover, directory, listed]
  rfl

/-- The view below a location is the view of what stands there. -/
theorem Node.shapeAt_append {n m : Node} (stands : n.find? l = some m) (k : Location) :
    n.shapeAt (l ++ k) = m.shapeAt k := by
  rw [shapeAt, find?_append, stands]
  rfl

/-- What is found are the files in the directory that have the extension of schemas. -/
theorem Disk.mem_discovered_iff (tidy : d.top.Tidy) (located : d.locate p = .ok l)
    (stands : d.top.find? l = some (.directory entries)) :
    (∃ names ∈ Node.schemasIn deep entries, names.foldl Path.join p = q) ↔
      d.LiesIn deep p q ∧ d.isDirectoryAt q = false ∧ q.IsSchema := by
  have whole := Node.shapeAt_append stands
  rw [liesIn_iff tidy located]
  simp only [(tidy.of_find? stands).mem_schemasIn_iff, ← whole]
  constructor
  · rintro ⟨names, ⟨⟨content, file⟩, depth, name, last, schema⟩, rfl⟩
    have there : (d.top.shapeAt (l ++ names)).isSome := by rw [file]; rfl
    have proper := (List.forall_mem_append.mp (tidy.proper there)).2
    refine ⟨⟨names, ?_, depth, there, rfl⟩, ?_, (Path.isSchema_foldl_join proper last).mpr schema⟩
    · rintro rfl
      cases last
    · rw [← Bool.not_eq_true, isDirectoryAt_iff (locate_below tidy located there), file]
      exact nofun
  · rintro ⟨⟨names, some, depth, there, rfl⟩, file, schema⟩
    have proper := (List.forall_mem_append.mp (tidy.proper there)).2
    have last := List.getLast?_eq_some_getLast some
    refine ⟨names, ⟨?_, depth, _, last, (Path.isSchema_foldl_join proper last).mp schema⟩, rfl⟩
    rw [← Bool.not_eq_true, isDirectoryAt_iff (locate_below tidy located there)] at file
    obtain ⟨content | -, stands⟩ := Option.isSome_iff_exists.mp there
    · exact ⟨content, stands⟩
    · exact absurd stands file

/-- They are in the order of their paths, and none comes twice. -/
theorem Disk.sorted_discovered (tidy : d.top.Tidy)
    (stands : d.top.find? l = some (.directory entries)) :
    (((Node.schemasIn deep entries).mergeSort Location.le).map (·.foldl Path.join p)).Pairwise
      fun q r => q.isBefore r = true := by
  have inner := tidy.of_find? stands
  have proper (names : Location) (found : names ∈ Node.schemasIn deep entries) :
      ∀ name ∈ names, isStep name = false := by
    obtain ⟨⟨content, file⟩, -⟩ := inner.mem_schemasIn_iff.mp found
    exact inner.proper (by rw [file]; rfl)
  have ordered := List.pairwise_mergeSort Location.le_trans Location.le_total
    (Node.schemasIn deep entries)
  have distinct : ((Node.schemasIn deep entries).mergeSort Location.le).Nodup :=
    (List.mergeSort_perm _ _).nodup_iff.mpr inner.nodup_schemasIn
  rw [List.pairwise_map]
  refine (ordered.and distinct).imp_of_mem fun first second ⟨le, differ⟩ => ?_
  rw [List.mem_mergeSort] at first second
  exact Location.isBefore_foldl_join le differ (proper _ first) (proper _ second)

end

/-- The same tree with its directories listed in other orders. -/
inductive Node.Reordered : Node → Node → Prop
  | listing {entries others : List (String × Node)} (perm : entries.Perm others) :
    Reordered (.directory entries) (.directory others)
  | inside {before after : List (String × Node)} {name : String} {n m : Node}
    (inner : Reordered n m) : Reordered (.directory (before ++ (name, n) :: after))
      (.directory (before ++ (name, m) :: after))
  | trans {n m k : Node} (first : Reordered n m) (second : Reordered m k) : Reordered n k

namespace Node

variable {n m : Node} {entries others before after : List (String × Node)} {name : String}

/-- Where names are distinct, looking a name up is looking for its entry. -/
theorem lookup_eq_some_iff_mem (distinct : (entries.map Prod.fst).Nodup) :
    entries.lookup name = some n ↔ (name, n) ∈ entries :=
  ⟨mem_of_lookup, lookup_of_mem distinct⟩

/-- The order of a listing does not show in the view. -/
theorem shapeAt_perm (distinct : (entries.map Prod.fst).Nodup) (perm : entries.Perm others) :
    (directory others).shapeAt = (directory entries).shapeAt := by
  have distinct' := (perm.map Prod.fst).nodup_iff.mp distinct
  funext l
  cases l with
  | nil => simp [shape]
  | cons name l =>
    have same : others.lookup name = entries.lookup name := by
      apply Option.ext
      intro node
      rw [lookup_eq_some_iff_mem distinct, lookup_eq_some_iff_mem distinct', perm.mem_iff]
    rw [shapeAt_directory, shapeAt_directory, same]

/-- Of what stands under a name, only its own view shows. -/
theorem shapeAt_exchange (distinct : ((before ++ (name, n) :: after).map Prod.fst).Nodup)
    (distinct' : ((before ++ (name, m) :: after).map Prod.fst).Nodup)
    (same : m.shapeAt = n.shapeAt) :
    (directory (before ++ (name, m) :: after)).shapeAt =
      (directory (before ++ (name, n) :: after)).shapeAt := by
  funext l
  cases l with
  | nil => simp [shape]
  | cons x l =>
    rw [shapeAt_directory, shapeAt_directory]
    by_cases here : x = name
    · subst here
      have old := (lookup_eq_some_iff_mem distinct).mpr (show (x, n) ∈ _ by simp)
      have new := (lookup_eq_some_iff_mem distinct').mpr (show (x, m) ∈ _ by simp)
      rw [old, new]
      exact congrFun same l
    · have other : (x == name) = false := by simpa using here
      simp [List.lookup_append, List.lookup_cons, other]

/-- A tree in another order is as tidy as before and looks the same. -/
theorem Reordered.view (reordered : n.Reordered m) (tidy : n.Tidy) :
    m.Tidy ∧ m.shapeAt = n.shapeAt := by
  induction reordered with
  | @listing entries others perm =>
    cases tidy with
    | directory distinct proper below =>
      refine ⟨.directory ((perm.map Prod.fst).nodup_iff.mp distinct) ?_ ?_,
        shapeAt_perm distinct perm⟩
      · exact fun entry member => proper entry (perm.mem_iff.mpr member)
      · exact fun entry member => below entry (perm.mem_iff.mpr member)
  | @inside before after name n m inner ih =>
    cases tidy with
    | directory distinct proper below =>
      obtain ⟨tidy, same⟩ := ih (below (name, n) (by simp))
      have names : (before ++ (name, m) :: after).map Prod.fst =
          (before ++ (name, n) :: after).map Prod.fst := by simp
      have distinct' := names ▸ distinct
      simp only [List.forall_mem_append, List.forall_mem_cons] at proper below
      refine ⟨.directory distinct' ?_ ?_, shapeAt_exchange distinct distinct' same⟩
      · simpa only [List.forall_mem_append, List.forall_mem_cons] using proper
      · simp only [List.forall_mem_append, List.forall_mem_cons]
        exact ⟨below.1, tidy, below.2.2⟩
  | trans _ _ first second =>
    obtain ⟨tidy, same⟩ := first tidy
    obtain ⟨tidy, same'⟩ := second tidy
    exact ⟨tidy, same'.trans same⟩

end Node

theorem Disk.exists_of_isDirectoryAt {d : Disk} {p : Path} (directory : d.isDirectoryAt p = true) :
    ∃ l entries, d.locate p = .ok l ∧ d.top.find? l = some (.directory entries) := by
  cases located : d.locate p with
  | error e =>
    rw [isDirectoryAt, Disk.get, located] at directory
    cases directory
  | ok l =>
    obtain ⟨entries, stands⟩ :=
      Node.find?_eq_directory_iff.mpr ((isDirectoryAt_iff located).mp directory)
    exact ⟨l, entries, rfl, stands⟩

/-- A search looks at what stands where, and at nothing else. -/
theorem Disk.discover_reordered {d : Disk} {p : Path} {deep : Bool} (tidy : d.top.Tidy)
    (directory : d.isDirectoryAt p = true) {top : Node} (reordered : d.top.Reordered top) :
    Disk.discover ⟨top, d.here⟩ p deep = d.discover p deep := by
  obtain ⟨tidy', view⟩ := reordered.view tidy
  obtain ⟨l, entries, located, stands⟩ := exists_of_isDirectoryAt directory
  have located' : Disk.locate ⟨top, d.here⟩ p = .ok l := by
    obtain ⟨given, leads⟩ := locate_eq_ok_iff.mp located
    refine locate_eq_ok_iff.mpr ⟨given, ?_⟩
    rw [view]
    exact leads
  obtain ⟨entries', stands'⟩ : ∃ entries', top.find? l = some (.directory entries') := by
    rw [Node.find?_eq_directory_iff, view, ← Node.find?_eq_directory_iff]
    exact ⟨entries, stands⟩
  have inner := tidy.of_find? stands
  have inner' := tidy'.of_find? stands'
  have perm : (Node.schemasIn deep entries').Perm (Node.schemasIn deep entries) := by
    rw [List.perm_ext_iff_of_nodup inner'.nodup_schemasIn inner.nodup_schemasIn]
    intro names
    rw [inner'.mem_schemasIn_iff, inner.mem_schemasIn_iff, ← Node.shapeAt_append stands,
      ← Node.shapeAt_append stands', view]
  have sorted (found : List Location) := List.pairwise_mergeSort Location.le_trans
    Location.le_total found
  have same : (Node.schemasIn deep entries').mergeSort Location.le =
      (Node.schemasIn deep entries).mergeSort Location.le := by
    refine List.Perm.eq_of_pairwise (fun l m _ _ => Location.le_antisymm l m) (sorted _)
      (sorted _) ?_
    exact (List.mergeSort_perm _ _).trans (perm.trans (List.mergeSort_perm _ _).symm)
  rw [discover_of_directory located stands, discover_of_directory located' stands', same]

/-- A search of a directory gives its schemas in the order of their paths and each of them once.
They are the paths in it that lead to no directory and have the extension of schemas. The order in
which directories are listed has no part in it. -/
theorem Disk.discover_exact {d : Disk} {p : Path} (tidy : d.top.Tidy)
    (directory : d.isDirectoryAt p = true) (deep : Bool) :
    ∃ schemas, d.discover p deep = .ok schemas ∧
      schemas.Pairwise (fun q r => q.isBefore r = true) ∧
      (∀ q, q ∈ schemas ↔ d.LiesIn deep p q ∧ d.isDirectoryAt q = false ∧ q.IsSchema) ∧
      ∀ top, d.top.Reordered top → Disk.discover ⟨top, d.here⟩ p deep = .ok schemas := by
  obtain ⟨l, entries, located, stands⟩ := exists_of_isDirectoryAt directory
  have found : d.discover p deep = _ := discover_of_directory located stands
  refine ⟨_, found, sorted_discovered tidy stands, fun q => ?_, fun top reordered => ?_⟩
  · rw [List.mem_map]
    simp only [List.mem_mergeSort]
    exact mem_discovered_iff tidy located stands
  · rw [discover_reordered tidy directory reordered, found]

/-- A schema, and another in a directory that has the name of one. -/
def shelf (listing : List (String × Node) → List (String × Node)) : Disk :=
  ⟨.directory (listing [("notes.txt", .file ⟨#[]⟩), ("b.nsd", .directory [("C.NSD", .file ⟨#[]⟩)]),
    ("a.nsd", .file ⟨#[]⟩)]), []⟩

theorem shelf_tidy : (shelf id).top.Tidy := by
  refine .directory (by decide) (by decide) ?_
  simp only [List.forall_mem_cons, id]
  refine ⟨.file _, .directory (by decide) (by decide) ?_, .file _, nofun⟩
  simp only [List.forall_mem_cons]
  exact ⟨.file _, nofun⟩

/-- The inner schema is found and the directory is not, also where the listing is turned round. -/
theorem Disk.discover_exact_shelf :
    (shelf id).top.Tidy ∧ (shelf id).isDirectoryAt ⟨false, ["."]⟩ = true ∧
      ∃ schemas, (shelf id).discover ⟨false, ["."]⟩ true = .ok schemas ∧
        ⟨false, [".", "b.nsd", "C.NSD"]⟩ ∈ schemas ∧ ⟨false, [".", "b.nsd"]⟩ ∉ schemas ∧
        (shelf List.reverse).discover ⟨false, ["."]⟩ true = .ok schemas := by
  have directory : (shelf id).isDirectoryAt ⟨false, ["."]⟩ = true := rfl
  obtain ⟨schemas, found, -, member, steady⟩ := discover_exact shelf_tidy directory true
  refine ⟨shelf_tidy, directory, schemas, found, (member _).mpr ⟨?_, rfl, "NSD", ?_, ?_⟩, ?_,
    steady _ (.listing (List.reverse_perm _).symm)⟩
  · have outer : (shelf id).LiesIn true ⟨false, ["."]⟩ ⟨false, [".", "b.nsd"]⟩ :=
      .entry rfl (List.mem_cons_of_mem _ List.mem_cons_self)
    exact .further rfl outer rfl List.mem_cons_self
  · decide
  · exact toLower_eq_nsd_iff.mpr (by decide)
  · rw [member]
    rintro ⟨-, file, -⟩
    cases file

end WireSchema
