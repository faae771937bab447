import Rfc6570.Proofs.VarspecGrammar
/-!
Decimal numerals. A number has one numeral without a leading zero: `decimal_ofDigitChars`. The
lengths of varspecs are the numbers from 1 to 9999: `readLength?_decimal` and `readLength?_le`.
-/

namespace Rfc6570

namespace Characters

theorem exists_digitChar {c : Char} (h : digit.contains c = true) : ∃ d < 10, c = Nat.digitChar d := by
  have listed : digit = (List.range 10).map Nat.digitChar := by decide
  rw [List.contains_iff_mem, listed, List.mem_map] at h
  obtain ⟨d, bound, rfl⟩ := h
  exact ⟨d, List.mem_range.mp bound, rfl⟩

theorem digit_of_isDigit {c : Char} (h : c.isDigit = true) : digit.contains c = true := by
  simp only [Char.isDigit, Bool.and_eq_true, decide_eq_true_eq] at h
  obtain ⟨lower, upper⟩ := h
  rw [List.contains_iff_mem, digit, run, List.mem_map]
  exact ⟨c.toNat, List.mem_range'_1.mpr ⟨lower, Nat.lt_succ_of_le upper⟩, Char.ofNat_toNat c⟩

theorem digit_digitChar {d : Nat} (h : d < 10) : digit.contains (Nat.digitChar d) = true := by
  have every : (List.range 10).all (fun n => digit.contains (Nat.digitChar n)) = true := by decide
  exact List.all_eq_true.mp every d (List.mem_range.mpr h)

end Characters

namespace Text

theorem digit_of_mem_decimal {n : Nat} {c : Char} (h : c ∈ decimal n) :
    Characters.digit.contains c = true := by
  induction n using Nat.strongRecOn with
  | ind n ih =>
    rw [decimal, Nat.toDigits_eq_if (by decide)] at h
    split at h
    · rename_i small
      rw [List.mem_singleton.mp h]
      exact Characters.digit_digitChar small
    · rcases List.mem_append.mp h with before | last
      · exact ih (n / 10) (by omega) before
      · rw [List.mem_singleton.mp last]
        exact Characters.digit_digitChar (Nat.mod_lt n (by decide))

/-- Digits behind a number that is not zero only lengthen its numeral. -/
theorem decimal_ofDigitChars_append {digits : Text}
    (only : ∀ c ∈ digits, Characters.digit.contains c = true) {before : Nat} (positive : 0 < before) :
    decimal (Nat.ofDigitChars 10 digits before) = decimal before ++ digits := by
  induction digits generalizing before with
  | nil => simp
  | cons c rest ih =>
    obtain ⟨d, small, rfl⟩ := Characters.exists_digitChar (only c List.mem_cons_self)
    have longer : decimal (10 * before + d) = decimal before ++ [Nat.digitChar d] := by
      rw [decimal, ← Nat.toDigits_append_toDigits (by decide) positive small,
        Nat.toDigits_of_lt_base small, decimal]
    rw [Nat.ofDigitChars_cons_digitChar_of_lt_ten small,
      ih (fun c member => only c (List.mem_cons_of_mem _ member)) (by omega), longer,
      List.append_assoc, List.singleton_append]

/-- The numeral of a number is any of its spellings without the leading zeros. -/
theorem decimal_ofDigitChars {digits : Text}
    (only : ∀ c ∈ digits, Characters.digit.contains c = true)
    (positive : Nat.ofDigitChars 10 digits 0 ≠ 0) :
    decimal (Nat.ofDigitChars 10 digits 0) = digits.dropWhile (· == '0') := by
  induction digits with
  | nil => simp at positive
  | cons c rest ih =>
    obtain ⟨d, small, rfl⟩ := Characters.exists_digitChar (only c List.mem_cons_self)
    have others : ∀ c ∈ rest, Characters.digit.contains c = true :=
      fun c member => only c (List.mem_cons_of_mem _ member)
    rw [Nat.ofDigitChars_cons_digitChar_of_lt_ten small, Nat.mul_zero, Nat.zero_add] at positive ⊢
    by_cases zero : d = 0
    · subst zero
      rw [List.dropWhile_cons_of_pos (by decide)]
      exact ih others positive
    · rw [List.dropWhile_cons_of_neg (by simpa using zero),
        decimal_ofDigitChars_append others (Nat.pos_of_ne_zero zero), decimal,
        Nat.toDigits_of_lt_base small, List.singleton_append]

/-- No number has more digits than a spelling of it. -/
theorem length_decimal_ofDigitChars_le {digits : Text}
    (only : ∀ c ∈ digits, Characters.digit.contains c = true) (filled : digits ≠ []) :
    (decimal (Nat.ofDigitChars 10 digits 0)).length ≤ digits.length := by
  by_cases zero : Nat.ofDigitChars 10 digits 0 = 0
  · rw [zero]
    exact List.length_pos_iff.mpr filled
  · rw [decimal_ofDigitChars only zero]
    exact (List.dropWhile_sublist _).length_le

theorem length_decimal_pow (k : Nat) : k < (decimal (Nat.pow 10 k)).length := by
  cases k with
  | zero => exact Nat.length_toDigits_pos
  | succ k =>
    have same := Nat.length_toDigits_le_iff (b := 10) (n := 10 ^ (k + 1)) (by decide) k.succ_pos
    exact Nat.lt_of_not_le (mt same.mp (Nat.lt_irrefl _))

theorem isOverlong_pow {k : Nat} (long : maxDigits ≤ k) : isOverlong (Nat.pow 10 k) = true :=
  decide_eq_true (Nat.lt_of_le_of_lt long (length_decimal_pow k))

theorem ofDigitChars_eq_zero {digits : Text}
    (only : ∀ c ∈ digits, Characters.digit.contains c = true) :
    Nat.ofDigitChars 10 digits 0 = 0 ↔ ∀ c ∈ digits, c = '0' := by
  constructor
  · intro zero
    induction digits with
    | nil => simp
    | cons c rest ih =>
      obtain ⟨d, small, rfl⟩ := Characters.exists_digitChar (only c List.mem_cons_self)
      rw [Nat.ofDigitChars_cons_digitChar_of_lt_ten small, Nat.mul_zero, Nat.zero_add,
        Nat.ofDigitChars_eq_ofDigitChars_zero] at zero
      obtain ⟨front, tail⟩ := Nat.add_eq_zero_iff.mp zero
      have power : 0 < 10 ^ rest.length := Nat.pow_pos (by decide)
      obtain rfl : d = 0 := (Nat.mul_eq_zero.mp front).resolve_left (Nat.ne_of_gt power)
      exact List.forall_mem_cons.mpr ⟨rfl, ih (fun c member => only c (.tail _ member)) tail⟩
  · intro zeros
    rw [List.eq_replicate_iff.mpr ⟨rfl, zeros⟩, Nat.ofDigitChars_replicate_zero, Nat.mul_zero]

end Text

namespace Varspec

theorem readLength?_eq {digits : Text} {n : Nat} (h : readLength? digits = some n) :
    n = Nat.ofDigitChars 10 digits 0 := by
  unfold readLength? at h
  split at h
  · simp only at h
    split at h
    · cases h
    · cases h
      rfl
  · cases h

/-- A length is written as its numeral behind zeros. -/
theorem decimal_readLength? {digits : Text} {n : Nat} (h : readLength? digits = some n) :
    Text.decimal n = digits.dropWhile (· == '0') := by
  obtain ⟨positive, -, only⟩ := readLength?_some h
  have value := readLength?_eq h
  subst value
  exact Text.decimal_ofDigitChars only positive

theorem readLength?_le {digits : Text} {n : Nat} (h : readLength? digits = some n) : n ≤ 9999 := by
  obtain ⟨-, short, -⟩ := readLength?_some h
  have fewer : (digits.dropWhile (· == '0')).length ≤ digits.length :=
    (List.dropWhile_sublist _).length_le
  rw [← decimal_readLength? h] at fewer
  have bound := (Nat.length_toDigits_le_iff (by decide) (by decide)).mp (Nat.le_trans fewer short)
  omega

theorem readLength?_decimal {n : Nat} (positive : n ≠ 0) (small : n ≤ 9999) :
    readLength? (Text.decimal n) = some n := by
  have filled : 1 ≤ (Text.decimal n).length := Nat.length_toDigits_pos
  have short : (Text.decimal n).length ≤ 4 :=
    (Nat.length_toDigits_le_iff (by decide) (by decide)).mpr (by omega)
  have only : (Text.decimal n).all Characters.digit.contains = true :=
    List.all_eq_true.mpr fun c => Text.digit_of_mem_decimal
  have value : Nat.ofDigitChars 10 (Text.decimal n) 0 = n := Nat.ofDigitChars_ten_toDigits
  unfold readLength?
  rw [if_pos ⟨filled, short, only⟩, value]
  exact if_neg positive

end Varspec
end Rfc6570
