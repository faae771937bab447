import Rfc6570.Binary64
import Rfc6570.Text
/-!
The written form of a floating-point number: the fewest decimal digits that read back as the
number, of those the nearest to it. Positional notation serves from 10 ^ -4 to below 10 ^ 16 and
keeps one digit after the point; all other numbers have an exponent of at least two digits.
-/

namespace Rfc6570.Binary64

/-- The numbers between `low / unit` and `high / unit` read as `value / unit`; the ends do when
`closed`. -/
structure Interval where
  low : Nat
  value : Nat
  high : Nat
  unit : Nat
  closed : Bool

/-- The interval of the finite number with this magnitude. Below a power of two the numbers lie
twice as close. -/
def interval (magnitude : Nat) : Interval :=
  let m := significand magnitude
  let narrow := m = significands ∧ 2 * significands ≤ magnitude
  let (factor, unit) := shifted 1 4 (scale magnitude)
  { low := (4 * m - if narrow then 1 else 2) * factor
    value := 4 * m * factor
    high := (4 * m + 2) * factor
    unit := unit
    closed := m % 2 = 0 }

/-- The power of ten just above `num / den`, which is not zero. -/
def decimalPoint (num den : Nat) : Int :=
  if den ≤ num then (Text.decimal (num / den)).length
  else 1 - ((Text.decimal ((den - 1) / num)).length : Int)

/-- The multiple of `10 ^ exponent` in the interval that is nearest to the value; of two equally
near the even one. -/
def onGrid? (i : Interval) (exponent : Int) : Option Nat :=
  let (stretch, step) :=
    if 0 ≤ exponent then (1, i.unit * tenTo exponent.toNat)
    else (tenTo (-exponent).toNat, i.unit)
  let inside (d : Nat) : Bool :=
    let x := d * step
    if i.closed then i.low * stretch ≤ x && x ≤ i.high * stretch
    else i.low * stretch < x && x < i.high * stretch
  let below := i.value * stretch / step
  let rest := 2 * (i.value * stretch % step)
  match inside below, inside (below + 1) with
  | false, false => none
  | true, false => some below
  | false, true => some (below + 1)
  | true, true =>
    some (if rest < step then below else if step < rest then below + 1 else below + below % 2)

/-- The digits and the exponent of the shortest decimal, trying `count` digits first, then more. -/
def search (i : Interval) (point : Int) : Nat → Nat → Nat × Int
  | 0, _ => (0, 0)
  | fuel + 1, count =>
    match onGrid? i (point - count) with
    | some d => (d, point - count)
    | none => search i point fuel (count + 1)

/-- The shortest decimal of the number with this magnitude; seventeen digits are always enough. -/
def shortest (magnitude : Nat) : Nat × Int :=
  let i := interval magnitude
  search i (decimalPoint i.value i.unit) 17 1

def dropZeros (digits : Text) : Text :=
  (digits.reverse.dropWhile (· == '0')).reverse

/-- An exponent: a sign and at least two digits. -/
def writeExponent (e : Int) : Text :=
  let digits := Text.decimal e.natAbs
  'e' :: (if e < 0 then '-' else '+') :: (if digits.length < 2 then '0' :: digits else digits)

/-- The number `0.digits * 10 ^ point`, positionally or with an exponent. -/
def layOut (digits : Text) (point : Int) : Text :=
  if point ≤ -4 ∨ 16 < point then
    let fraction := digits.drop 1
    digits.take 1 ++ (if fraction.isEmpty then [] else '.' :: fraction)
      ++ writeExponent (point - 1)
  else if point ≤ 0 then '0' :: '.' :: List.replicate (-point).toNat '0' ++ digits
  else
    let place := point.toNat
    let whole := digits.take place ++ List.replicate (place - digits.length) '0'
    let fraction := digits.drop place
    whole ++ '.' :: if fraction.isEmpty then ['0'] else fraction

def written : Binary64 → Text
  | .notNumber _ => "nan".toList
  | .infinite negative => (if negative then ['-'] else []) ++ "inf".toList
  | .finite negative magnitude =>
    let body :=
      if magnitude.val = 0 then "0.0".toList
      else
        let (d, exponent) := shortest magnitude
        let digits := Text.decimal d
        layOut (dropZeros digits) (digits.length + exponent)
    (if negative then ['-'] else []) ++ body

end Rfc6570.Binary64
