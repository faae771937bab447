import Rfc6570.Characters
/-!
Percent-encoding of bytes. A byte whose character is legal stands for itself, every other byte
becomes `%` and two upper-case hexadecimal digits. Main statement: `decode_encode`, decoding
gives the bytes back, whichever of the two sets of legal characters was chosen.
-/

namespace Rfc6570.PercentEncoding

def encodeByte (reservedToo : Bool) (b : UInt8) : Text :=
  let c := Char.ofNat b.toNat
  if Characters.isLegal reservedToo c then [c]
  else ['%', Text.upperHexDigit (b.toNat / 16), Text.upperHexDigit (b.toNat % 16)]

/-- The encoded form of `data`; reserved characters are kept when `reservedToo`. -/
def encode (reservedToo : Bool) (data : List UInt8) : Text :=
  data.flatMap (encodeByte reservedToo)

/-- The bytes that a text stands for: a triplet stands for the byte that its digits write, any
other character for its UTF-8 bytes. -/
def decode : Text → List UInt8
  | [] => []
  | '%' :: a :: b :: rest =>
    match Text.hexValue? a, Text.hexValue? b with
    | some high, some low => UInt8.ofNat (16 * high + low) :: decode rest
    | _, _ => String.utf8EncodeChar '%' ++ decode (a :: b :: rest)
  | c :: rest => String.utf8EncodeChar c ++ decode rest

theorem decode_cons_of_ne {c : Char} (h : c ≠ '%') (rest : Text) :
    decode (c :: rest) = String.utf8EncodeChar c ++ decode rest := by
  rw [decode]
  rintro a b r rfl
  exact absurd rfl h

theorem toNat_ofByte (b : UInt8) : (Char.ofNat b.toNat).toNat = b.toNat := by
  have valid : b.toNat.isValidChar := Or.inl (Nat.lt_trans b.toNat_lt (by decide))
  rw [Char.ofNat, dif_pos valid]
  rfl

/-- Decoding takes the encoded form of a byte off the front of any text. -/
theorem decode_encodeByte_append (reservedToo : Bool) (b : UInt8) (rest : Text) :
    decode (encodeByte reservedToo b ++ rest) = b :: decode rest := by
  unfold encodeByte
  simp only
  split
  · rename_i h
    have value := toNat_ofByte b
    have small : b.toNat ≤ 127 := Nat.le_of_lt_succ (value ▸ Characters.toNat_lt_of_isLegal h)
    have other : Char.ofNat b.toNat ≠ '%' := by
      rintro e
      rw [e, Characters.isLegal_percent] at h
      exact absurd h (by decide)
    rw [List.singleton_append, decode_cons_of_ne other]
    simp [String.utf8EncodeChar, value, small]
  · have bound := b.toNat_lt
    have high := Text.hexValue?_upperHexDigit (b.toNat / 16) (by omega)
    have low := Text.hexValue?_upperHexDigit (b.toNat % 16) (by omega)
    simp only [List.cons_append, List.nil_append, decode, high, low]
    rw [show 16 * (b.toNat / 16) + b.toNat % 16 = b.toNat by omega, UInt8.ofNat_toNat]

theorem decode_encode (reservedToo : Bool) (data : List UInt8) :
    decode (encode reservedToo data) = data := by
  induction data with
  | nil => rfl
  | cons b rest ih =>
    rw [encode, List.flatMap_cons, decode_encodeByte_append]
    exact congrArg _ ih

end Rfc6570.PercentEncoding
