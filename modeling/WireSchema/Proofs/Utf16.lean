import WireSchema.Text.Encoding

/-!
Reading UTF-16 gives back the characters that were written, and the number of units that a text
announces is the number that it writes. No character is a surrogate, so a unit that stands alone is
never taken for half of a pair. The other way round, units are read exactly where surrogates stand
in pairs, and what is read is written as the same units again.
-/

namespace WireSchema.Text.Utf16

theorem toNat_unit {n : Nat} (small : n < 0x10000) : n.toUInt16.toNat = n := by
  rw [Nat.toUInt16, UInt16.toNat_ofNat']
  exact Nat.mod_eq_of_lt small

theorem isHigh_unit {n : Nat} (small : n < 0x10000) :
    isHigh n.toUInt16 = (decide (0xD800 ≤ n) && decide (n < 0xDC00)) := by
  simp only [isHigh, UInt16.le_iff_toNat_le, UInt16.lt_iff_toNat_lt, toNat_unit small]
  rfl

theorem isLow_unit {n : Nat} (small : n < 0x10000) :
    isLow n.toUInt16 = (decide (0xDC00 ≤ n) && decide (n < 0xE000)) := by
  simp only [isLow, UInt16.le_iff_toNat_le, UInt16.lt_iff_toNat_lt, toNat_unit small]
  rfl

/-- No character lies in the surrogate range. -/
theorem toNat_valid (c : Char) : c.toNat < 0xD800 ∨ 0xDFFF < c.toNat ∧ c.toNat < 0x110000 :=
  c.valid

/-- A character of one unit is read back, whatever units follow. -/
theorem decodeFrom_single {c : Char} (small : c.toNat < 0x10000) (acc : List Char)
    (rest : List UInt16) :
    decodeFrom acc (c.toNat.toUInt16 :: rest) = decodeFrom (c :: acc) rest := by
  have valid := toNat_valid c
  have high : isHigh c.toNat.toUInt16 = false := by
    rw [isHigh_unit small, Bool.and_eq_false_iff, decide_eq_false_iff_not, decide_eq_false_iff_not]
    omega
  have low : isLow c.toNat.toUInt16 = false := by
    rw [isLow_unit small, Bool.and_eq_false_iff, decide_eq_false_iff_not, decide_eq_false_iff_not]
    omega
  cases rest with
  | nil => simp [decodeFrom, high, low, toNat_unit small]
  | cons v rest => simp [decodeFrom, high, low, toNat_unit small]

/-- A character of two units is read back, whatever units follow. -/
theorem decodeFrom_pair {c : Char} (large : ¬ c.toNat < 0x10000) (acc : List Char)
    (rest : List UInt16) :
    decodeFrom acc ((0xD800 + (c.toNat - 0x10000) / 0x400).toUInt16 ::
        (0xDC00 + (c.toNat - 0x10000) % 0x400).toUInt16 :: rest) =
      decodeFrom (c :: acc) rest := by
  have valid := toNat_valid c
  have smallHigh : 0xD800 + (c.toNat - 0x10000) / 0x400 < 0x10000 := by omega
  have smallLow : 0xDC00 + (c.toNat - 0x10000) % 0x400 < 0x10000 := by omega
  have high : isHigh (0xD800 + (c.toNat - 0x10000) / 0x400).toUInt16 = true := by
    rw [isHigh_unit smallHigh, Bool.and_eq_true, decide_eq_true_eq, decide_eq_true_eq]
    omega
  have low : isLow (0xDC00 + (c.toNat - 0x10000) % 0x400).toUInt16 = true := by
    rw [isLow_unit smallLow, Bool.and_eq_true, decide_eq_true_eq, decide_eq_true_eq]
    omega
  have joined : joinPair (0xD800 + (c.toNat - 0x10000) / 0x400).toUInt16
      (0xDC00 + (c.toNat - 0x10000) % 0x400).toUInt16 = c := by
    rw [joinPair, toNat_unit smallHigh, toNat_unit smallLow]
    have total : 0x10000 + (0xD800 + (c.toNat - 0x10000) / 0x400 - 0xD800) * 0x400 +
        (0xDC00 + (c.toNat - 0x10000) % 0x400 - 0xDC00) = c.toNat := by omega
    rw [total, Char.ofNat_toNat]
  rw [decodeFrom, if_pos high, if_pos low, joined]

@[simp] theorem encode_nil : encode [] = [] := rfl

@[simp] theorem encode_cons (c : Char) (cs : List Char) :
    encode (c :: cs) = encodeChar c ++ encode cs := rfl

/-- Characters are read back from their units, one after the other. -/
theorem decodeFrom_encode (cs acc : List Char) :
    decodeFrom acc (encode cs) = some (acc.reverse ++ cs) := by
  induction cs generalizing acc with
  | nil => simp [decodeFrom]
  | cons c cs ih =>
    rw [encode_cons, encodeChar]
    by_cases small : c.toNat < 0x10000
    · rw [if_pos small, List.singleton_append, decodeFrom_single small, ih]
      simp
    · rw [if_neg small]
      simp only [List.cons_append, List.nil_append]
      rw [decodeFrom_pair small, ih]
      simp

theorem decode?_encode (cs : List Char) : decode? (encode cs) = some cs :=
  decodeFrom_encode cs []

/-- The length of a text is the number of its units. -/
theorem length_eq_length_encode (s : String) : length s = (encode s.toList).length := by
  have general (cs : List Char) (n : Nat) :
      cs.foldl (fun n c => n + if c.toNat < 0x10000 then 1 else 2) n =
        n + (encode cs).length := by
    induction cs generalizing n with
    | nil => rfl
    | cons c cs ih =>
      rw [List.foldl_cons, ih, encode_cons, List.length_append, encodeChar]
      split <;> simp <;> omega
  rw [length, general, Nat.zero_add]

/-- A character above U+FFFF counts twice. -/
theorem length_eq_add_countP (s : String) :
    length s = s.toList.length + s.toList.countP (0xFFFF < ·.toNat) := by
  rw [length_eq_length_encode]
  induction s.toList with
  | nil => rfl
  | cons c cs ih =>
    rw [encode_cons, List.length_append, ih, List.length_cons, List.countP_cons, encodeChar]
    by_cases small : c.toNat < 0x10000
    · rw [if_pos small, if_neg (by simp; omega)]
      simp
      omega
    · rw [if_neg small, if_pos (by simp; omega)]
      simp
      omega

variable {u v : UInt16} {units : List UInt16} {acc cs : List Char}

theorem isHigh_iff : isHigh u = true ↔ 0xD800 ≤ u.toNat ∧ u.toNat < 0xDC00 := by
  rw [isHigh, Bool.and_eq_true, decide_eq_true_eq, decide_eq_true_eq, UInt16.le_iff_toNat_le,
    UInt16.lt_iff_toNat_lt]
  rfl

theorem isLow_iff : isLow u = true ↔ 0xDC00 ≤ u.toNat ∧ u.toNat < 0xE000 := by
  rw [isLow, Bool.and_eq_true, decide_eq_true_eq, decide_eq_true_eq, UInt16.le_iff_toNat_le,
    UInt16.lt_iff_toNat_lt]
  rfl

theorem isLow_of_isHigh (high : isHigh u = true) : isLow u = false := by
  have range := isHigh_iff.mp high
  rw [← Bool.not_eq_true, isLow_iff]
  omega

theorem isHigh_of_isLow (low : isLow u = true) : isHigh u = false := by
  have range := isLow_iff.mp low
  rw [← Bool.not_eq_true, isHigh_iff]
  omega

theorem toNat_char {n : Nat} (valid : n.isValidChar) : (Char.ofNat n).toNat = n := by
  rw [Char.ofNat, dif_pos valid]
  rfl

/-- A unit that is no surrogate is a character, and is written as it was read. -/
theorem encodeChar_ofNat (high : isHigh u = false) (low : isLow u = false) :
    encodeChar (Char.ofNat u.toNat) = [u] := by
  have range := u.toNat_lt
  rw [← Bool.not_eq_true, isHigh_iff] at high
  rw [← Bool.not_eq_true, isLow_iff] at low
  have valid : u.toNat.isValidChar := by
    rw [Nat.isValidChar]
    omega
  have same : (Char.ofNat u.toNat).toNat = u.toNat := toNat_char valid
  rw [encodeChar, same, if_pos range]
  simp

/-- A pair is the units of the character that it is joined to. -/
theorem encodeChar_joinPair (high : isHigh u = true) (low : isLow v = true) :
    encodeChar (joinPair u v) = [u, v] := by
  have first := isHigh_iff.mp high
  have second := isLow_iff.mp low
  have valid : (0x10000 + (u.toNat - 0xD800) * 0x400 + (v.toNat - 0xDC00)).isValidChar := by
    rw [Nat.isValidChar]
    omega
  have joined : (joinPair u v).toNat =
      0x10000 + (u.toNat - 0xD800) * 0x400 + (v.toNat - 0xDC00) := toNat_char valid
  have front : 0xD800 + ((joinPair u v).toNat - 0x10000) / 0x400 = u.toNat := by omega
  have back : 0xDC00 + ((joinPair u v).toNat - 0x10000) % 0x400 = v.toNat := by omega
  rw [encodeChar, if_neg (by omega)]
  simp only [front, back]
  simp

/-- What is read is written as the units that it was read from. -/
theorem encode_of_decodeFrom (read : decodeFrom acc units = some cs) :
    encode cs = encode acc.reverse ++ units := by
  have grown (c : Char) (acc : List Char) :
      encode (c :: acc).reverse = encode acc.reverse ++ encodeChar c := by
    simp [encode]
  fun_induction decodeFrom acc units with
  | case1 acc =>
    cases read
    simp
  | case2 => cases read
  | case3 acc u plain =>
    rw [Bool.or_eq_true, not_or, Bool.not_eq_true, Bool.not_eq_true] at plain
    cases read
    rw [grown, encodeChar_ofNat plain.1 plain.2]
  | case4 acc u v rest high low ih =>
    rw [ih read, grown, encodeChar_joinPair high low, List.append_assoc]
    rfl
  | case5 => cases read
  | case6 => cases read
  | case7 acc u v rest high low ih =>
    rw [Bool.not_eq_true] at high low
    rw [ih read, grown, encodeChar_ofNat high low, List.append_assoc]
    rfl

/-- Units are read as the characters that have them, and as no others. -/
theorem decode?_eq_some_iff : decode? units = some cs ↔ units = encode cs := by
  constructor
  · intro read
    exact (encode_of_decodeFrom read).symm
  · rintro rfl
    exact decode?_encode cs

/-- Every surrogate has its partner: a low one right behind a high one, and a high one right before
a low one. -/
structure Paired (units : List UInt16) : Prop where
  high : ∀ i, units[i]?.any isHigh → units[i + 1]?.any isLow
  low : ∀ i, units[i]?.any isLow → 0 < i ∧ units[i - 1]?.any isHigh

theorem paired_nil : Paired [] := ⟨fun i found => by simp at found, fun i found => by simp at found⟩

theorem paired_cons_iff (high : isHigh u = false) (low : isLow u = false) :
    Paired (u :: units) ↔ Paired units := by
  constructor
  · intro paired
    refine ⟨fun i found => paired.high (i + 1) found, fun i found => ?_⟩
    have before := (paired.low (i + 1) found).2
    cases i with
    | zero => simp [high] at before
    | succ i => exact ⟨Nat.succ_pos i, before⟩
  · intro paired
    refine ⟨fun i found => ?_, fun i found => ?_⟩
    · cases i with
      | zero => simp [high] at found
      | succ i => exact paired.high i found
    · cases i with
      | zero => simp [low] at found
      | succ i =>
        obtain ⟨positive, before⟩ := paired.low i found
        obtain ⟨j, rfl⟩ := Nat.exists_eq_succ_of_ne_zero (Nat.ne_of_gt positive)
        exact ⟨Nat.succ_pos _, before⟩

theorem paired_pair_iff (high : isHigh u = true) (low : isLow v = true) :
    Paired (u :: v :: units) ↔ Paired units := by
  constructor
  · intro paired
    refine ⟨fun i found => paired.high (i + 2) found, fun i found => ?_⟩
    have before := (paired.low (i + 2) found).2
    cases i with
    | zero => simp [isHigh_of_isLow low] at before
    | succ i => exact ⟨Nat.succ_pos i, before⟩
  · intro paired
    refine ⟨fun i found => ?_, fun i found => ?_⟩
    · match i with
      | 0 => simpa using low
      | 1 => simp [isHigh_of_isLow low] at found
      | i + 2 => exact paired.high i found
    · match i with
      | 0 => simp [isLow_of_isHigh high] at found
      | 1 => exact ⟨Nat.one_pos, by simpa using high⟩
      | i + 2 =>
        obtain ⟨positive, before⟩ := paired.low i found
        obtain ⟨j, rfl⟩ := Nat.exists_eq_succ_of_ne_zero (Nat.ne_of_gt positive)
        exact ⟨Nat.succ_pos _, before⟩

/-- Units are read exactly where surrogates stand in pairs. -/
theorem isSome_decodeFrom (acc : List Char) (units : List UInt16) :
    (decodeFrom acc units).isSome ↔ Paired units := by
  fun_induction decodeFrom acc units with
  | case1 acc => simpa using paired_nil
  | case2 acc u surrogate =>
    refine iff_of_false (by simp) fun paired => ?_
    rcases Bool.or_eq_true_iff.mp surrogate with high | low
    · simpa using paired.high 0 (by simpa using high)
    · simpa using (paired.low 0 (by simpa using low)).1
  | case3 acc u plain =>
    rw [Bool.or_eq_true, not_or, Bool.not_eq_true, Bool.not_eq_true] at plain
    simpa [paired_cons_iff plain.1 plain.2] using paired_nil
  | case4 acc u v rest high low ih => rw [ih, paired_pair_iff high low]
  | case5 acc u v rest high low =>
    refine iff_of_false (by simp) fun paired => low ?_
    simpa using paired.high 0 (by simpa using high)
  | case6 acc u v rest high low =>
    refine iff_of_false (by simp) fun paired => ?_
    simpa using (paired.low 0 (by simpa using low)).1
  | case7 acc u v rest high low ih =>
    rw [Bool.not_eq_true] at high low
    rw [ih, paired_cons_iff high low]

theorem decode?_isSome_iff : (decode? units).isSome ↔ Paired units := isSome_decodeFrom [] units

theorem length_le_of_decode?
    (read : decode? units = some cs) : length (String.ofList cs) ≤ units.length := by
  apply Nat.le_of_eq
  rw [length_eq_length_encode, String.toList_ofList, decode?_eq_some_iff.mp read]

end WireSchema.Text.Utf16
