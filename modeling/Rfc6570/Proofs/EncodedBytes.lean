import Rfc6570.Proofs.ExpansionAlphabet
/-!
Bytes as they stand in an encoded text, and texts that are cut to a number of bytes before they are
encoded. Main statement: `encode_lossless`, a legal byte is written as itself and any other as a
triplet, decoding gives the bytes back, and a cut falls between two of them.
-/

namespace Rfc6570

namespace PercentEncoding

def upperDigits : Text := Characters.digit ++ Characters.run 'A' 6

/-- A text that writes bytes: a legal one by its character, any other by two upper-case digits. -/
inductive Spells (reservedToo : Bool) : List UInt8 → Text → Prop
  | nil : Spells reservedToo [] []
  | itself {b : UInt8} {data : List UInt8} {c : Char} {t : Text} (code : c.toNat = b.toNat)
    (legal : Characters.isLegal reservedToo c = true) (more : Spells reservedToo data t) :
    Spells reservedToo (b :: data) (c :: t)
  | triplet {b : UInt8} {data : List UInt8} {x y : Char} {high low : Nat} {t : Text}
    (illegal : ∀ c : Char, c.toNat = b.toNat → Characters.isLegal reservedToo c = false)
    (upper : x ∈ upperDigits ∧ y ∈ upperDigits)
    (digits : Text.hexValue? x = some high ∧ Text.hexValue? y = some low)
    (value : b.toNat = 16 * high + low) (more : Spells reservedToo data t) :
    Spells reservedToo (b :: data) ('%' :: x :: y :: t)

variable {reservedToo : Bool}

theorem eq_ofByte {b : UInt8} {c : Char} (code : c.toNat = b.toNat) : c = Char.ofNat b.toNat := by
  rw [← code, Char.ofNat_toNat]

theorem upperHexDigit_mem : ∀ n < 16, Text.upperHexDigit n ∈ upperDigits := by
  decide

theorem eq_upperHexDigit {x : Char} {n : Nat} (upper : x ∈ upperDigits)
    (digit : Text.hexValue? x = some n) : n < 16 ∧ x = Text.upperHexDigit n := by
  have every : upperDigits.all (fun d => (Text.hexValue? d).any fun n =>
      n < 16 && d == Text.upperHexDigit n) = true := by decide
  have known := List.all_eq_true.mp every x upper
  rw [digit, Option.any_some, Bool.and_eq_true, decide_eq_true_eq, beq_iff_eq] at known
  exact known

theorem spells_encode (data : List UInt8) : Spells reservedToo data (encode reservedToo data) := by
  induction data with
  | nil => exact .nil
  | cons b rest ih =>
    have bound := b.toNat_lt
    rw [encode, List.flatMap_cons, encodeByte]
    split
    · rename_i legal
      exact .itself (toNat_ofByte b) legal ih
    · rename_i illegal
      refine .triplet ?_ ⟨upperHexDigit_mem _ (by omega), upperHexDigit_mem _ (by omega)⟩
        ⟨Text.hexValue?_upperHexDigit _ (by omega), Text.hexValue?_upperHexDigit _ (by omega)⟩
        (Nat.div_add_mod _ 16).symm ih
      intro c code
      rw [eq_ofByte code]
      exact Bool.eq_false_iff.mpr illegal

theorem spells_iff {data : List UInt8} {t : Text} :
    Spells reservedToo data t ↔ t = encode reservedToo data := by
  constructor
  · intro spelled
    induction spelled with
    | nil => rfl
    | itself code legal _ ih =>
      obtain rfl := eq_ofByte code
      rw [encode, List.flatMap_cons, encodeByte, if_pos legal, ih]
      rfl
    | @triplet b data x y high low t illegal upper digits value _ ih =>
      obtain ⟨-, rfl⟩ := eq_upperHexDigit upper.1 digits.1
      obtain ⟨small, rfl⟩ := eq_upperHexDigit upper.2 digits.2
      have refused : ¬ Characters.isLegal reservedToo (Char.ofNat b.toNat) = true := by
        rw [illegal _ (toNat_ofByte b)]
        exact Bool.false_ne_true
      have first : b.toNat / 16 = high := by omega
      have second : b.toNat % 16 = low := by omega
      rw [encode, List.flatMap_cons, encodeByte, if_neg refused, first, second, ih]
      rfl
  · rintro rfl
    exact spells_encode data

theorem encode_append (reservedToo : Bool) (before after : List UInt8) :
    encode reservedToo (before ++ after) = encode reservedToo before ++ encode reservedToo after :=
  List.flatMap_append

theorem encode_mono {before whole : List UInt8} (front : before <+: whole) :
    encode reservedToo before <+: encode reservedToo whole := by
  obtain ⟨after, rfl⟩ := front
  rw [encode_append]
  exact List.prefix_append _ _

end PercentEncoding

namespace Expression
open PercentEncoding (Spells decode)

variable {v w : Varspec}

theorem kept_of_limited (limited : 1 ≤ v.maxLength) (t : Text) :
    kept v t = t.utf8.take v.maxLength.toNat := by
  rw [kept, truncate, if_neg (by omega), if_pos (by omega)]

/-- Of a text with a larger limit at least as much is kept. -/
theorem kept_mono (limited : 1 ≤ v.maxLength) (larger : v.maxLength ≤ w.maxLength) (t : Text) :
    kept v t <+: kept w t := by
  rw [kept_of_limited limited, kept_of_limited (Int.le_trans limited larger)]
  exact List.take_prefix_take_left (by omega)

/-- Encoding writes a legal byte as itself and any other as a triplet, and loses nothing. A text of
which some bytes are kept is encoded as the front of the whole, as long as the bytes are, and a
triplet stands in it whole or not at all. -/
theorem encode_lossless :
    (∀ (reservedToo : Bool) (data : List UInt8),
      (∀ t, Spells reservedToo data t ↔ t = PercentEncoding.encode reservedToo data) ∧
      decode (PercentEncoding.encode reservedToo data) = data) ∧
    ∀ (op : Operator) (v : Varspec) (t : Text), 1 ≤ v.maxLength →
      decode (encode op (kept v t)) = t.utf8.take v.maxLength.toNat ∧
      encode op (kept v t) <+: encode op t.utf8 ∧
      (∀ w : Varspec, v.maxLength ≤ w.maxLength →
        encode op (kept v t) <+: encode op (kept w t)) ∧
      ∀ before after, encode op (kept v t) = before ++ '%' :: after → ∃ a b rest,
        after = a :: b :: rest ∧ Characters.hexDigit.contains a = true ∧
          Characters.hexDigit.contains b = true := by
  refine ⟨fun reservedToo data => ⟨fun _ => PercentEncoding.spells_iff, ?_⟩, ?_⟩
  · exact PercentEncoding.decode_encode reservedToo data
  · intro op v t limited
    have front : kept v t <+: t.utf8 := by
      rw [kept_of_limited limited]
      exact List.take_prefix _ _
    refine ⟨?_, PercentEncoding.encode_mono front, ?_, ?_⟩
    · rw [encode, PercentEncoding.decode_encode, kept_of_limited limited]
    · intro w larger
      exact PercentEncoding.encode_mono (kept_mono limited larger t)
    · intro before after split
      exact (UriText.encode op.keepsReserved _).triplet_of_percent
        (Characters.isLegal_percent _) split

/-- A character of two bytes behind one of one, cut to two bytes. -/
theorem encode_lossless_split :
    kept ⟨['x'], false, 2⟩ ['a', '\u00e9'] = [97, 0xC3] ∧
    decode "a%C3".toList = [97, 0xC3] ∧ "a%C3".toList <+: "a%C3%A9".toList ∧
    ∃ a b rest, "C3".toList = a :: b :: rest ∧ Characters.hexDigit.contains a = true ∧
      Characters.hexDigit.contains b = true := by
  have kept : kept ⟨['x'], false, 2⟩ ['a', '\u00e9'] = [97, 0xC3] := rfl
  obtain ⟨decoded, -, longer, whole⟩ :=
    encode_lossless.2 .simple ⟨['x'], false, 2⟩ ['a', '\u00e9'] (by decide)
  exact ⟨kept, decoded, longer ⟨['x'], false, 3⟩ (by decide), whole ['a'] _ rfl⟩

end Expression
end Rfc6570
