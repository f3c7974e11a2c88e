import WireSchema.Proofs.Defaults
import WireSchema.Proofs.Records
import WireSchema.Proofs.Writing

/-!
From a message to bytes and back, for the messages of every accepted schema. Reading what was
written gives the message, whatever the order of its records and, where no value is absent, whatever
stands behind them.
-/

namespace WireSchema

namespace Schema

/-- A lawful schema reads what it writes. -/
theorem Lawful.readable {s : Schema} (lawful : s.Lawful) (bound : s.Bound) : s.Readable where
  grounded := lawful.grounded bound
  distinct := by
    intro name
    rw [fieldsOf]
    split
    next d found => exact (lawful.bodies d (List.mem_of_find?_eq_some found)).ids
    next => exact List.nodup_nil

theorem Lawful.fieldsOf_of_mem {s : Schema} (lawful : s.Lawful) {d : Definition}
    (member : d ∈ s.definitions) : s.fieldsOf d.name = d.fields := by
  rw [fieldsOf, definition?_of_mem lawful.names member]

/-- What was written are the records, and every length fits its two bytes. -/
theorem records_of_serialize {s : Schema} {fields : List Field} {values : List Value}
    {b : Array UInt8} (admitted : s.admitsAll fields values)
    (written : s.serialize fields values = .ok b) :
    (s.records fields values).flatten = b.toList ∧ ∀ n ∈ s.lengths fields values, n ≤ 65535 := by
  obtain ⟨bytes, fit⟩ := (serialize_eq_ok_iff admitted).mp written
  exact ⟨bytes.symm, fit⟩

/-- Records in another order are as many bytes. -/
theorem length_permuted_records {s : Schema} {fields : List Field} {values : List Value}
    {b : Array UInt8} {p : List (List UInt8)} (admitted : s.admitsAll fields values)
    (written : s.serialize fields values = .ok b) (order : p.Perm (s.records fields values)) :
    p.flatten.length = b.size := by
  rw [← Array.length_toList, ← (records_of_serialize admitted written).1]
  exact order.flatten.length_eq

end Schema

/-- The tokens of the three definitions of `forest`, and the end of the text. -/
def forestTokens : List Token :=
  [⟨.enum, "enum", 0, ⟨1, 1⟩⟩, ⟨.identifier, "Hue", 5, ⟨1, 6⟩⟩, ⟨.openBrace, "\x7b", 9, ⟨1, 10⟩⟩,
    ⟨.identifier, "red", 11, ⟨1, 12⟩⟩, ⟨.semicolon, ";", 14, ⟨1, 15⟩⟩,
    ⟨.identifier, "green", 16, ⟨1, 17⟩⟩, ⟨.equals, "=", 22, ⟨1, 23⟩⟩,
    ⟨.number, "4", 24, ⟨1, 25⟩⟩, ⟨.semicolon, ";", 25, ⟨1, 26⟩⟩,
    ⟨.closeBrace, "\x7d", 27, ⟨1, 28⟩⟩, ⟨.message, "message", 29, ⟨2, 1⟩⟩,
    ⟨.identifier, "Leaf", 37, ⟨2, 9⟩⟩, ⟨.openBrace, "\x7b", 42, ⟨2, 14⟩⟩,
    ⟨.primitive .double, "double", 44, ⟨2, 16⟩⟩, ⟨.identifier, "weight", 51, ⟨2, 23⟩⟩,
    ⟨.semicolon, ";", 57, ⟨2, 29⟩⟩, ⟨.closeBrace, "\x7d", 59, ⟨2, 31⟩⟩,
    ⟨.message, "message", 61, ⟨3, 1⟩⟩, ⟨.identifier, "Tree", 69, ⟨3, 9⟩⟩,
    ⟨.openBrace, "\x7b", 74, ⟨3, 14⟩⟩, ⟨.primitive .string, "string", 78, ⟨4, 3⟩⟩,
    ⟨.identifier, "label", 85, ⟨4, 10⟩⟩, ⟨.semicolon, ";", 90, ⟨4, 15⟩⟩,
    ⟨.identifier, "Hue", 94, ⟨5, 3⟩⟩, ⟨.question, "?", 97, ⟨5, 6⟩⟩,
    ⟨.identifier, "hue", 99, ⟨5, 8⟩⟩, ⟨.semicolon, ";", 102, ⟨5, 11⟩⟩,
    ⟨.identifier, "Leaf", 106, ⟨6, 3⟩⟩, ⟨.identifier, "leaf", 111, ⟨6, 8⟩⟩,
    ⟨.equals, "=", 116, ⟨6, 13⟩⟩, ⟨.number, "7", 118, ⟨6, 15⟩⟩, ⟨.semicolon, ";", 119, ⟨6, 16⟩⟩,
    ⟨.identifier, "Tree", 123, ⟨7, 3⟩⟩, ⟨.brackets, "[]", 127, ⟨7, 7⟩⟩,
    ⟨.identifier, "branches", 130, ⟨7, 10⟩⟩, ⟨.semicolon, ";", 138, ⟨7, 18⟩⟩,
    ⟨.closeBrace, "\x7d", 140, ⟨8, 1⟩⟩, ⟨.finish, "", 142, ⟨9, 1⟩⟩]

def oakBytes : Array UInt8 :=
  #[0, 0, 3, 0, 111, 0, 97, 0, 107, 0,
    1, 0, 1, 4, 0, 0, 0,
    7, 0, 10, 0, 0, 0, 0, 0, 0, 0, 0, 0, 8, 64,
    3, 0, 1, 0, 22, 0, 0, 0, 0, 0, 7, 0, 10, 0, 0, 0, 0, 0, 0, 0, 0, 0, 0, 0, 3, 0, 0, 0]

theorem admitsAll_oak : forest.admitsAll treeFields oak := by decide

theorem serialize_oak : forest.serialize treeFields oak = .ok oakBytes := by cbv

/-- A schema is accepted if its draft is what the tokens say and neither has issues. -/
theorem Schema.ofTokens_of_draft {tokens : List Token} {s : Schema}
    (draft : (Parser.document tokens).1 = s.draft) (quiet : (Parser.document tokens).2.isEmpty)
    (known : s.draft.unresolvedIssues = []) (bound : s.draft.resolve = s) (legal : s.issues = []) :
    ofTokens tokens = .ok s := by
  rw [ofTokens_eq_ok_iff_draft, draft]
  exact ⟨List.isEmpty_iff.mp quiet, known, bound, s.issues_eq_nil_iff.mp legal⟩

theorem forest_accepted : Schema.ofTokens forestTokens = .ok forest :=
  Schema.ofTokens_of_draft (by decide +kernel) (by decide +kernel) rfl (by decide) (by cbv)

namespace Schema

section

variable {tokens : List Token} {s : Schema} {d : Definition} {m v : List Value} {b : Array UInt8}
  {p : List (List UInt8)}

/-- The written records, in any order, fill a message of their type with what was written. -/
theorem unpack_records (accepted : ofTokens tokens = .ok s) (member : d ∈ s.definitions)
    (admitted : s.admitsAll d.fields m) (written : s.serialize d.fields m = .ok b)
    (start : s.admitsAll d.fields v) (order : p.Perm (s.records d.fields m)) :
    s.unpack d.fields v p.flatten 0 b.size = (.ok b.size, Value.ontoAll m v) := by
  have lawful := lawful_of_ofTokens accepted
  have readable := lawful.readable (bound_of_ofTokens accepted)
  obtain ⟨-, fit⟩ := records_of_serialize admitted written
  rw [← length_permuted_records admitted written order]
  rw [← lawful.fieldsOf_of_mem member] at admitted start order fit ⊢
  exact unpack_perm readable admitted start fit order

/-- The written records, in any order, are read as the message that was written. -/
theorem deserialize_records (accepted : ofTokens tokens = .ok s) (member : d ∈ s.definitions)
    (admitted : s.admitsAll d.fields m) (written : s.serialize d.fields m = .ok b)
    (order : p.Perm (s.records d.fields m)) :
    s.deserialize d.name p.flatten 0 b.size = .ok m := by
  have lawful := lawful_of_ofTokens accepted
  have grounded := lawful.grounded (bound_of_ofTokens accepted) d.name
  have fields := lawful.fieldsOf_of_mem member
  rw [fields] at grounded
  rw [deserialize, fields, unpack_records accepted member admitted written grounded.1 order]
  exact congrArg Except.ok (grounded.2 m admitted)

/-- What was written is read as the same message, and reading it into any message of its type takes
all of the bytes. -/
theorem deserialize_serialize (accepted : ofTokens tokens = .ok s) (member : d ∈ s.definitions)
    (admitted : s.admitsAll d.fields m) (written : s.serialize d.fields m = .ok b) :
    s.deserialize d.name b.toList 0 b.size = .ok m ∧
      ∀ v, s.admitsAll d.fields v → (s.unpack d.fields v b.toList 0 b.size).1 = .ok b.size := by
  obtain ⟨bytes, -⟩ := records_of_serialize admitted written
  rw [← bytes]
  refine ⟨deserialize_records accepted member admitted written (List.Perm.refl _), ?_⟩
  intro v start
  rw [unpack_records accepted member admitted written start (List.Perm.refl _)]

theorem deserialize_serialize_oak :
    ofTokens forestTokens = .ok forest ∧ forest.serialize treeFields oak = .ok oakBytes ∧
      forest.deserialize "Tree" oakBytes.toList 0 59 = .ok oak ∧
      (forest.unpack treeFields oak oakBytes.toList 0 59).1 = .ok 59 := by
  have law := deserialize_serialize (d := ⟨"Tree", ⟨3, 9⟩, .message treeFields⟩) forest_accepted
    (by decide) admitsAll_oak serialize_oak
  exact ⟨forest_accepted, serialize_oak, law.1, law.2 oak admitsAll_oak⟩

/-- The records that make up the bytes of a message may stand in any order: reading them takes as
many bytes, leaves any message of the type in the same state, and gives the message itself where it
is read anew. -/
theorem unpack_permuted_records (accepted : ofTokens tokens = .ok s) (member : d ∈ s.definitions)
    (admitted : s.admitsAll d.fields m) (written : s.serialize d.fields m = .ok b)
    (start : s.admitsAll d.fields v) (order : p.Perm (s.records d.fields m)) :
    (s.records d.fields m).flatten = b.toList ∧ p.flatten.length = b.size ∧
      (∃ final, s.unpack d.fields v b.toList 0 b.size = (.ok b.size, final) ∧
        s.unpack d.fields v p.flatten 0 p.flatten.length = (.ok b.size, final)) ∧
      s.deserialize d.name p.flatten 0 p.flatten.length = .ok m := by
  obtain ⟨bytes, -⟩ := records_of_serialize admitted written
  rw [length_permuted_records admitted written order, ← bytes]
  exact ⟨rfl, rfl,
    ⟨Value.ontoAll m v, unpack_records accepted member admitted written start (List.Perm.refl _),
      unpack_records accepted member admitted written start order⟩,
    deserialize_records accepted member admitted written order⟩

def elm : List Value :=
  [.scalar (.string "elm"), .absent, .message [.scalar (.double 1)], .array []]

theorem unpack_reversed_oak :
    ofTokens forestTokens = .ok forest ∧ forest.serialize treeFields oak = .ok oakBytes ∧
      forest.admitsAll treeFields elm ∧
      (∃ final, forest.unpack treeFields elm oakBytes.toList 0 59 = (.ok 59, final) ∧
        forest.unpack treeFields elm (forest.records treeFields oak).reverse.flatten 0 59 =
          (.ok 59, final)) ∧
      forest.deserialize "Tree" (forest.records treeFields oak).reverse.flatten 0 59 = .ok oak := by
  have start : forest.admitsAll treeFields elm := by decide
  obtain ⟨-, size, read⟩ := unpack_permuted_records
    (d := ⟨"Tree", ⟨3, 9⟩, .message treeFields⟩) forest_accepted (by decide) admitsAll_oak
    serialize_oak start (List.reverse_perm _)
  rw [size] at read
  exact ⟨forest_accepted, serialize_oak, start, read⟩

/-- A message without absent values marks its own end: whatever stands behind its bytes, a new
message of its type reads just these and is the message that was written. -/
theorem unpack_complete (accepted : ofTokens tokens = .ok s) (member : d ∈ s.definitions)
    (admitted : s.admitsAll d.fields m) (complete : ∀ x ∈ m, x.isAbsent = false)
    (written : s.serialize d.fields m = .ok b) (rest : List UInt8) :
    s.unpack d.fields (s.defaultMessage d.name) (b.toList ++ rest) 0 (b.size + rest.length) =
      (.ok b.size, m) := by
  have lawful := lawful_of_ofTokens accepted
  have readable := lawful.readable (bound_of_ofTokens accepted)
  have grounded := readable.grounded d.name
  obtain ⟨bytes, fit⟩ := records_of_serialize admitted written
  rw [← Array.length_toList, ← List.length_append, ← bytes]
  rw [← lawful.fieldsOf_of_mem member] at admitted fit ⊢
  rw [unpack_complete_append readable admitted grounded.1 fit complete rest, grounded.2 m admitted]

/-- The branch of `oak` has no colour, and an id that is not known stands behind it. -/
theorem unpack_complete_oak :
    ofTokens forestTokens = .ok forest ∧ forest.serialize treeFields oak = .ok oakBytes ∧
      (∀ x ∈ oak, x.isAbsent = false) ∧
      forest.unpack treeFields (forest.defaultMessage "Tree") (oakBytes.toList ++ [9, 9, 9, 9]) 0
        63 = (.ok 59, oak) := by
  have complete : ∀ x ∈ oak, x.isAbsent = false := by decide
  have read := unpack_complete (d := ⟨"Tree", ⟨3, 9⟩, .message treeFields⟩) forest_accepted
    (by decide) admitsAll_oak complete serialize_oak [9, 9, 9, 9]
  exact ⟨forest_accepted, serialize_oak, complete, read⟩

end

end Schema

end WireSchema
