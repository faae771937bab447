import Rfc6570.Json.Reader
import Rfc6570.Proofs.Outcome
import Rfc6570.Proofs.WrittenItems
/-!
JSON strings read back: an escape is read as the code point it was written for, and no escape begins
another. Main statement: `quoted_append_inj`, where a JSON string ends in a text is certain.
-/

namespace Rfc6570.Json

/-! ### Units -/

theorem readUnit_hexDigits {n : Nat} (small : n < 0x10000) (next : Char) (rest : Text) :
    readUnit (Text.hexDigits 4 n ++ next :: rest) = .ok (n, next :: rest) := by
  have digit (m : Nat) : Text.hexValue? (Text.lowerHexDigit (m % 16)) = some (m % 16) :=
    Text.hexValue?_lowerHexDigit _ (Nat.mod_lt _ (by decide))
  have number : 16 * (16 * (16 * (16 * 0 + n / 16 / 16 / 16 % 16) + n / 16 / 16 % 16) +
      n / 16 % 16) + n % 16 = n := by omega
  simp only [Text.hexDigits, List.nil_append, List.cons_append, readUnit, Text.readHex?,
    List.foldlM_cons, List.foldlM_nil, digit, Option.map_some, Option.bind_eq_bind,
    Option.bind_some, number]
  rfl

theorem toNat_range (c : Char) : c.toNat < 0xD800 ∨ 0xE000 ≤ c.toNat ∧ c.toNat < 0x110000 := by
  have valid := c.valid
  simp only [UInt32.isValidChar, Nat.isValidChar] at valid
  have code : c.toNat = c.val.toNat := rfl
  omega

theorem readEscape_hexDigits {n : Nat} (small : n < 0x10000) (opening : Nat) (next : Char)
    (rest : Text) :
    readEscape opening ('u' :: (Text.hexDigits 4 n ++ next :: rest)) =
      if isHighSurrogate n then readPair n (next :: rest) else .ok (ofUnit n, next :: rest) := by
  rw [readEscape, readUnit_hexDigits small]
  rfl

theorem readEscape_unit {c : Char} (narrow : c.toNat < 0x10000) (opening : Nat) (next : Char)
    (rest : Text) :
    readEscape opening ('u' :: (Text.hexDigits 4 c.toNat ++ next :: rest)) =
      .ok (.char c, next :: rest) := by
  have range := toNat_range c
  have whole : ¬ isHighSurrogate c.toNat = true := by
    simp only [isHighSurrogate, Bool.and_eq_true, decide_eq_true_eq]
    omega
  rw [readEscape_hexDigits narrow, if_neg whole, ofUnit, dif_neg (by omega), Char.ofNat_toNat]

theorem readPair_unitEscape {high low : Nat} {c : Char} (second : isLowSurrogate low = true)
    (code : 0x10000 + (high - 0xD800) * 0x400 + (low - 0xDC00) = c.toNat) (next : Char)
    (rest : Text) :
    readPair high (unitEscape low ++ next :: rest) = .ok (.char c, next :: rest) := by
  have small : low < 0x10000 := by
    simp only [isLowSurrogate, Bool.and_eq_true, decide_eq_true_eq] at second
    omega
  have long : ¬ (Text.hexDigits 4 low ++ next :: rest).length < 5 := by
    rw [List.length_append, Text.length_hexDigits, List.length_cons]
    omega
  rw [unitEscape, List.cons_append, List.cons_append, readPair, if_neg long,
    readUnit_hexDigits small, ok_bind]
  simp only [second, if_true, code, Char.ofNat_toNat]

theorem readEscape_pair {c : Char} (wide : 0x10000 ≤ c.toNat) (opening : Nat) (next : Char)
    (rest : Text) :
    readEscape opening ('u' :: (Text.hexDigits 4 (0xD800 + (c.toNat - 0x10000) / 0x400) ++
      (unitEscape (0xDC00 + (c.toNat - 0x10000) % 0x400) ++ next :: rest))) =
        .ok (.char c, next :: rest) := by
  have range := toNat_range c
  have first : isHighSurrogate (0xD800 + (c.toNat - 0x10000) / 0x400) = true := by
    simp only [isHighSurrogate, Bool.and_eq_true, decide_eq_true_eq]
    omega
  have second : isLowSurrogate (0xDC00 + (c.toNat - 0x10000) % 0x400) = true := by
    simp only [isLowSurrogate, Bool.and_eq_true, decide_eq_true_eq]
    omega
  have escaped : unitEscape (0xDC00 + (c.toNat - 0x10000) % 0x400) ++ next :: rest =
      '\\' :: ('u' :: Text.hexDigits 4 (0xDC00 + (c.toNat - 0x10000) % 0x400) ++ next :: rest) := rfl
  rw [escaped, readEscape_hexDigits (by omega), if_pos first, ← escaped]
  exact readPair_unitEscape second (by omega) next rest

theorem readEscape_letter {x c : Char} (named : x ≠ 'u') (known : ofLetter? x = some c)
    (opening : Nat) (rest : Text) : readEscape opening (x :: rest) = .ok (.char c, rest) := by
  rw [readEscape.eq_def]
  split
  · rename_i none
    cases none
  · rename_i unit
    cases unit
    exact absurd rfl named
  · rename_i other
    cases other
    rw [known]

/-! ### Strings -/

theorem readString_backslash {opening : Nat} (fuel : Nat) (read : RawText) {p : Point}
    {t after : Text} (escaped : readEscape opening t = .ok (p, after)) :
    readString opening (fuel + 1) read ('\\' :: t) = readString opening fuel (p :: read) after := by
  rw [readString, escaped]
  rfl

theorem readString_plain {c : Char} (bare : ¬ (c = '"' ∨ c = '\\')) (printable : ' ' ≤ c)
    (opening fuel : Nat) (read : RawText) (rest : Text) :
    readString opening (fuel + 1) read (c :: rest) =
      readString opening fuel (.char c :: read) rest := by
  have code : ¬ c.toNat < 32 := Nat.not_lt.mpr printable
  rw [readString.eq_def]
  simp only
  split
  · rename_i none
    cases none
  · rename_i quote
    cases quote
    exact absurd (Or.inl rfl) bare
  · rename_i backslash
    cases backslash
    exact absurd (Or.inr rfl) bare
  · rename_i other
    cases other
    rw [if_neg code]

/-- A character takes one step, however it is written. -/
theorem readString_escape (opening fuel : Nat) (read : RawText) (c next : Char) (rest : Text) :
    readString opening (fuel + 1) read (escape c ++ next :: rest) =
      readString opening fuel (.char c :: read) (next :: rest) := by
  have letter {x : Char} (named : x ≠ 'u') (known : ofLetter? x = some c) :
      readString opening (fuel + 1) read (['\\', x] ++ next :: rest) =
        readString opening fuel (.char c :: read) (next :: rest) :=
    readString_backslash fuel read (readEscape_letter named known opening (next :: rest))
  unfold escape
  by_cases own : c = '"' ∨ c = '\\'
  · rw [if_pos own]
    rcases own with rfl | rfl
    · exact letter (by decide) rfl
    · exact letter (by decide) rfl
  rw [if_neg own]
  iterate 5
    split
    · rename_i same
      subst same
      exact letter (by decide) rfl
  split
  · rename_i printable
    exact readString_plain own printable.1 opening fuel read (next :: rest)
  · unfold unitEscapes
    split
    · rename_i narrow
      exact readString_backslash fuel read (readEscape_unit narrow opening next rest)
    · rename_i wide
      rw [List.append_assoc]
      exact readString_backslash fuel read
        (readEscape_pair (Nat.le_of_not_lt wide) opening next rest)

theorem readString_flatMap {opening fuel : Nat} (read : RawText) (t rest : Text)
    (enough : t.length < fuel) :
    readString opening fuel read (t.flatMap escape ++ '"' :: rest) =
      .ok (read.reverse ++ t.raw, rest) := by
  induction t generalizing fuel read with
  | nil =>
    obtain ⟨fuel, rfl⟩ := Nat.exists_eq_succ_of_ne_zero (Nat.ne_zero_of_lt enough)
    rw [Text.raw_nil, List.append_nil]
    rfl
  | cons c t ih =>
    obtain ⟨fuel, rfl⟩ := Nat.exists_eq_succ_of_ne_zero (Nat.ne_zero_of_lt enough)
    obtain ⟨next, more, split⟩ : ∃ next more, t.flatMap escape ++ '"' :: rest = next :: more :=
      List.exists_cons_of_ne_nil (by simp)
    rw [List.flatMap_cons, List.append_assoc, split, readString_escape, ← split,
      ih (.char c :: read) (Nat.lt_of_succ_lt_succ enough), List.reverse_cons, List.append_assoc]
    rfl

theorem flatMap_escapePoint (t : Text) : t.raw.flatMap escapePoint = t.flatMap escape :=
  List.flatMap_map Point.char escapePoint t

theorem readQuoted_flatMap (t rest : Text) :
    readQuoted (t.flatMap escape ++ '"' :: rest) = .ok (t.raw, rest) := by
  have enough := length_le_length_flatMap_escape t
  rw [flatMap_escapePoint, Text.raw, List.length_map] at enough
  rw [readQuoted]
  refine readString_flatMap [] t rest ?_
  rw [List.length_append]
  omega

/-- Surrogates apart, the escapes of a string tell what it is and where it ends. -/
theorem quoted_append_inj {s t before after : Text}
    (same : quoted s ++ before = quoted t ++ after) : s = t ∧ before = after := by
  have inside : s.flatMap escape ++ '"' :: before = t.flatMap escape ++ '"' :: after := by
    simpa [quoted, flatMap_escapePoint] using same
  have read := readQuoted_flatMap s before
  rw [inside, readQuoted_flatMap, Except.ok.injEq, Prod.mk.injEq, Text.raw_inj] at read
  exact ⟨read.1.symm, read.2.symm⟩

end Rfc6570.Json
