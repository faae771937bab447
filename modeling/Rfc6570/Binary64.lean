/-!
Numbers in the 64-bit binary format of floating-point arithmetic. A finite number is a sign and
a magnitude, the count of numbers between it and zero: the significand below 2 ^ 52 and the
exponent above it. Magnitudes are ordered as the numbers are.
-/

namespace Rfc6570

namespace Binary64

/-- The number of significands of one exponent, 2 to the power of 52. -/
abbrev significands : Nat := 0x10000000000000

/-- The number of finite magnitudes: 2047 exponents with all their significands. -/
abbrev magnitudes : Nat := 2047 * significands

def tenTo (n : Nat) : Nat :=
  Nat.pow 10 n

end Binary64

/-- A value that is not a number carries a mark, since it equals nothing but itself. -/
inductive Binary64
  | finite (negative : Bool) (magnitude : Fin Binary64.magnitudes)
  | infinite (negative : Bool)
  | notNumber (mark : Nat)
  deriving DecidableEq, Repr

namespace Binary64

/-- The number is `significand * 2 ^ scale`. -/
def significand (magnitude : Nat) : Nat :=
  if magnitude < significands then magnitude else significands + magnitude % significands

def scale (magnitude : Nat) : Int :=
  if magnitude < significands then -1074 else (magnitude / significands : Nat) - 1075

/-- The integer nearest to `num / den`, and of two the even one. -/
def roundHalfEven (num den : Nat) : Nat :=
  let whole := num / den
  let rest := 2 * (num % den)
  if rest < den then whole
  else if den < rest then whole + 1
  else whole + whole % 2

/-- A quotient times a power of two, as a quotient. -/
def shifted (num den : Nat) (power : Int) : Nat × Nat :=
  if 0 ≤ power then (num <<< power.toNat, den) else (num, den <<< (-power).toNat)

/-- The number nearest to `num / den`; of two equally near the one with the even significand,
and an infinite one past the greatest number. -/
def ofQuotient (negative : Bool) (num den : Nat) : Binary64 :=
  let estimate : Int := (Nat.log2 num : Int) - Nat.log2 den - 53
  let (n, d) := shifted num den (-estimate)
  let power := max (if 2 * significands * d ≤ n then estimate + 1 else estimate) (-1074)
  let (n, d) := shifted num den (-power)
  let magnitude := (power + 1074).toNat * significands + roundHalfEven n d
  if h : magnitude < magnitudes then .finite negative ⟨magnitude, h⟩ else .infinite negative

def zero (negative : Bool) : Binary64 :=
  .finite negative ⟨0, by decide⟩

/-- The number nearest to `digits * 10 ^ exponent`. Exponents far out of range are not computed
with: the result is infinite or zero. -/
def ofDecimal (negative : Bool) (digits : Nat) (exponent : Int) : Binary64 :=
  let size : Int := (Nat.toDigits 10 digits).length + exponent
  if digits = 0 ∨ size < -400 then zero negative
  else if 400 < size then .infinite negative
  else if 0 ≤ exponent then ofQuotient negative (digits * tenTo exponent.toNat) 1
  else ofQuotient negative digits (tenTo (-exponent).toNat)

def toInt? : Binary64 → Option Int
  | .finite negative magnitude =>
    let (num, den) := shifted (significand magnitude) 1 (scale magnitude)
    if num % den = 0 then
      let n : Int := (num / den : Nat)
      some (if negative then -n else n)
    else none
  | _ => none

/-- Equality of numbers: the two zeros are equal. A value that is not a number equals itself. -/
def same : Binary64 → Binary64 → Bool
  | .finite na a, .finite nb b => a == b && (na == nb || a.val == 0)
  | .infinite na, .infinite nb => na == nb
  | .notNumber a, .notNumber b => a == b
  | _, _ => false

end Binary64
end Rfc6570
