import WireSchema.Proofs.Naming

/-!
Case of ASCII names. Snake casing makes capitals small and puts underscores in front of some of
them, and that is all: what it gives it gives again, and a name can be told from it up to case and
underscores. Constants in capitals tell no more and no less, because capitals can be made small
again. So two fields share the flag of the read loop exactly where they share a constant.
-/

namespace WireSchema.Code

open Text Token

variable {c : Char} {cs : List Char}

def Ascii (cs : List Char) : Prop := ∀ c ∈ cs, c.toNat < 128

instance (cs : List Char) : Decidable (Ascii cs) :=
  decidable_of_iff (cs.all (fun c => decide (c.toNat < 128)) = true) (by simp [Ascii])

theorem Parts.ascii (parts : Parts cs) : Ascii cs :=
  fun c member => toNat_lt_of_isNamePart (parts c member)

/-- ASCII without capitals. -/
def Uncapital (cs : List Char) : Prop := ∀ c ∈ cs, c.toNat < 128 ∧ isUpper c = false

def unmarked (cs : List Char) : List Char := cs.filter (· != '_')

/-- What is left of a name where neither case nor underscores count. -/
def folded (name : String) : List Char := unmarked (name.toList.map Char.toLower)

/-! Characters. -/

def runImage (runs : List CaseRun) (c : Char) : Char :=
  match CaseRun.find? runs c.toNat with
  | some r => Char.ofNat (c.toNat + r.shift).toNat
  | none => c

/-- No character of ASCII becomes several. -/
theorem mapCase_of_ascii (runs : List CaseRun) {expansions : List (Nat × List Nat)}
    (beyond : ∀ p ∈ expansions, 128 ≤ p.1) (ascii : c.toNat < 128) :
    mapCase runs expansions c = [runImage runs c] := by
  have single : expansions.lookup c.toNat = none := by
    rw [List.lookup_eq_none_iff]
    intro p member
    have far := beyond p member
    rw [bne_iff_ne]
    omega
  rw [mapCase, runImage]
  cases CaseRun.find? runs c.toNat with
  | some r => rfl
  | none => rw [single]

/-- Within ASCII, a letter has one small letter. -/
theorem lowerChar_of_ascii (ascii : c.toNat < 128) : lowerChar c = [c.toLower] := by
  rw [lowerChar, mapCase_of_ascii lowerRuns (by decide) ascii]
  exact forall_ascii (P := fun c => [runImage lowerRuns c] = [c.toLower]) (by decide) ascii

theorem upperChar_of_ascii (ascii : c.toNat < 128) : upperChar c = [c.toUpper] := by
  rw [upperChar, mapCase_of_ascii upperRuns (by decide) ascii]
  exact forall_ascii (P := fun c => [runImage upperRuns c] = [c.toUpper]) (by decide) ascii

theorem toLower_of_small (ascii : c.toNat < 128) (small : isUpper c = false) : c.toLower = c :=
  forall_ascii (P := fun c => isUpper c = false → c.toLower = c) (by decide) ascii small

/-- Within ASCII, what is put into small letters has no capitals left. -/
theorem uncapital_toLower (ascii : c.toNat < 128) :
    c.toLower.toNat < 128 ∧ isUpper c.toLower = false :=
  forall_ascii (P := fun c => c.toLower.toNat < 128 ∧ isUpper c.toLower = false) (by decide) ascii

/-- A small letter comes back from its capital. -/
theorem toLower_toUpper (ascii : c.toNat < 128) (small : isUpper c = false) :
    c.toUpper.toLower = c :=
  forall_ascii (P := fun c => isUpper c = false → c.toUpper.toLower = c) (by decide) ascii small

/-! Texts. -/

theorem upper_of_ascii (ascii : Ascii cs) : upper cs = cs.map Char.toUpper := by
  induction cs with
  | nil => rfl
  | cons c cs ih =>
    obtain ⟨here, others⟩ := List.forall_mem_cons.mp ascii
    rw [upper, List.flatMap_cons, upperChar_of_ascii here, List.map_cons]
    exact congrArg (c.toUpper :: ·) (ih others)

/-- A text without capitals comes back from its capitals. -/
theorem toLower_upper (small : Uncapital cs) : (upper cs).map Char.toLower = cs := by
  have back : cs.map (Char.toLower ∘ Char.toUpper) = cs.map id :=
    List.map_congr_left fun c member => toLower_toUpper (small c member).1 (small c member).2
  rw [upper_of_ascii fun c member => (small c member).1, List.map_map, back, List.map_id]

/-- Snake case has no capitals. -/
theorem uncapital_snakeCase (ascii : Ascii cs) : Uncapital (snakeCase cs) := by
  refine forall_mem_snakeFrom (by decide) (fun c member small => ⟨ascii c member, small⟩) ?_
  intro c member
  rw [lowerChar_of_ascii (ascii c member)]
  exact List.forall_mem_singleton.mpr (uncapital_toLower (ascii c member))

/-- Without capitals there is nothing to do. -/
theorem snakeFrom_of_small {previous : Option Char} (small : ∀ c ∈ cs, isUpper c = false) :
    snakeFrom previous cs = cs := by
  induction cs generalizing previous with
  | nil => rfl
  | cons c cs ih =>
    obtain ⟨here, others⟩ := List.forall_mem_cons.mp small
    rw [snakeFrom, if_neg (by simp [here]), ih others]

/-- The next character becomes small, and an underscore may go before it. -/
theorem snakeFrom_cons (previous : Option Char) (ascii : c.toNat < 128) :
    snakeFrom previous (c :: cs) =
      (if isUpper c && startsWord previous cs then ['_'] else []) ++
        c.toLower :: snakeFrom (some c) cs := by
  rw [snakeFrom]
  by_cases capital : isUpper c = true
  · rw [if_pos capital, lowerChar_of_ascii ascii, capital, List.append_assoc]
    rfl
  · rw [if_neg capital, toLower_of_small ascii (by simpa using capital)]
    simp [capital]

theorem unmarked_append (cs ds : List Char) : unmarked (cs ++ ds) = unmarked cs ++ unmarked ds :=
  List.filter_append cs ds

theorem unmarked_cons (c : Char) (cs : List Char) :
    unmarked (c :: cs) = unmarked [c] ++ unmarked cs :=
  unmarked_append [c] cs

/-- Beside underscores, snake case is the name in small letters. -/
theorem unmarked_snakeFrom {previous : Option Char} (ascii : Ascii cs) :
    unmarked (snakeFrom previous cs) = unmarked (cs.map Char.toLower) := by
  induction cs generalizing previous with
  | nil => rfl
  | cons c cs ih =>
    obtain ⟨here, others⟩ := List.forall_mem_cons.mp ascii
    have mark : unmarked (if isUpper c && startsWord previous cs then ['_'] else []) = [] := by
      split <;> rfl
    rw [snakeFrom_cons previous here, unmarked_append, mark, List.nil_append, unmarked_cons,
      ih others, List.map_cons, unmarked_cons c.toLower (cs.map _)]

/-! Names. -/

theorem readFlag_eq_iff {f g : Field} : readFlag f = readFlag g ↔ snake f.name = snake g.name :=
  (append_injective "_read").eq_iff

/-- Capitals tell snake case names apart as well as these do themselves. -/
theorem fieldConst_eq_iff {f g : Field} {suffix : String} (first : Ascii f.name.toList)
    (second : Ascii g.name.toList) :
    fieldConst f suffix = fieldConst g suffix ↔ snake f.name = snake g.name := by
  constructor
  · intro same
    have capitals : upper (snakeCase f.name.toList) = upper (snakeCase g.name.toList) :=
      String.ofList_injective (append_injective "_" (append_injective suffix same))
    rw [snake, snake, ← toLower_upper (uncapital_snakeCase first), capitals,
      toLower_upper (uncapital_snakeCase second)]
  · intro same
    have snakes : snakeCase f.name.toList = snakeCase g.name.toList := String.ofList_injective same
    rw [fieldConst, fieldConst, screaming, screaming, screamingCase, screamingCase, snakes]

/-- A folded name is its snake case without the underscores. -/
theorem folded_eq_unmarked {name : String} (ascii : Ascii name.toList) :
    folded name = unmarked (snake name).toList := by
  rw [folded, snake, String.toList_ofList, snakeCase, unmarked_snakeFrom ascii]

/-- Snake casing of ASCII loses nothing but case, and names of fields that are made from it clash
only where case and underscores are all that tells the fields apart. -/
theorem snake_loses_case_only :
    (∀ s : String, Ascii s.toList →
      (∀ c ∈ (snake s).toList, isUpper c = false) ∧
        unmarked (snake s).toList = unmarked (s.toList.map Char.toLower) ∧
        snake (snake s) = snake s) ∧
      ∀ f g : Field, Ascii f.name.toList → Ascii g.name.toList →
        (readFlag f = readFlag g ∨ fieldConst f "ID" = fieldConst g "ID" →
          folded f.name = folded g.name) ∧
        (readFlag f = readFlag g ↔ fieldConst f "ID" = fieldConst g "ID") := by
  constructor
  · intro s ascii
    have small : ∀ c ∈ (snake s).toList, isUpper c = false := by
      rw [snake, String.toList_ofList]
      exact fun c member => (uncapital_snakeCase ascii c member).2
    refine ⟨small, (folded_eq_unmarked ascii).symm, ?_⟩
    have again : snakeCase (snake s).toList = (snake s).toList := snakeFrom_of_small small
    rw [snake, again, String.ofList_toList]
  · intro f g first second
    have constants : fieldConst f "ID" = fieldConst g "ID" ↔ snake f.name = snake g.name :=
      fieldConst_eq_iff first second
    refine ⟨fun clash => ?_, readFlag_eq_iff.trans constants.symm⟩
    have same : snake f.name = snake g.name := clash.elim readFlag_eq_iff.mp constants.mp
    rw [folded_eq_unmarked first, folded_eq_unmarked second, same]

def sessionField (name : String) : Field :=
  ⟨.primitive .int, "int", name, 0, false, false, ⟨1, 13⟩⟩

/-- Two spellings of one name, with an acronym in the first and an underscore in the second. -/
theorem snake_loses_case_only_session :
    Ascii "sessionID".toList ∧ Ascii "Session_Id".toList ∧
      (∀ c ∈ (snake "sessionID").toList, isUpper c = false) ∧
      unmarked (snake "sessionID").toList = unmarked ("sessionID".toList.map Char.toLower) ∧
      snake (snake "sessionID") = snake "sessionID" ∧
      readFlag (sessionField "sessionID") = readFlag (sessionField "Session_Id") ∧
      fieldConst (sessionField "sessionID") "ID" = fieldConst (sessionField "Session_Id") "ID" ∧
      folded "sessionID" = folded "Session_Id" := by
  have first : Ascii "sessionID".toList := by decide
  have second : Ascii "Session_Id".toList := by decide
  have same : readFlag (sessionField "sessionID") = readFlag (sessionField "Session_Id") := by
    decide
  obtain ⟨small, kept, again⟩ := snake_loses_case_only.1 "sessionID" first
  obtain ⟨clash, both⟩ :=
    snake_loses_case_only.2 (sessionField "sessionID") (sessionField "Session_Id") first second
  exact ⟨first, second, small, kept, again, same, both.mp same, clash (.inl same)⟩

end WireSchema.Code
