import Rfc6570.Binary64
import Rfc6570.Text.Blank
import Rfc6570.Text.Digit
/-!
Reading a floating-point number: a sign, digits with a point among them, an exponent; or one of
the words for the values that are not finite, in any case. Blanks around the number do not
count, and an underscore may stand between two digits.
-/

namespace Rfc6570.Binary64

/-- Digits of any script as `0` to `9`, and no underscore between digits. -/
def plainDigits : Text → Text
  | a :: '_' :: b :: rest =>
    match Text.digitValue? a, Text.digitValue? b with
    | some x, some _ => Nat.digitChar x :: plainDigits (b :: rest)
    | some x, none => Nat.digitChar x :: '_' :: plainDigits (b :: rest)
    | none, _ => a :: '_' :: plainDigits (b :: rest)
  | a :: rest =>
    match Text.digitValue? a with
    | some x => Nat.digitChar x :: plainDigits rest
    | none => a :: plainDigits rest
  | [] => []

/-- The exponent after a number's digits; nothing when the text is no exponent. -/
def readExponent? : Text → Option Int
  | [] => some 0
  | c :: rest =>
    if c = 'e' ∨ c = 'E' then
      let (negative, digits) := Text.readSign rest
      if digits.isEmpty ∨ !digits.all Char.isDigit then none
      else
        let n : Int := Nat.ofDigitChars 10 digits 0
        some (if negative then -n else n)
    else none

def readUnsigned? (negative : Bool) (t : Text) : Option Binary64 :=
  let (whole, rest) := Text.spanDigits t
  let (fraction, rest) :=
    match rest with
    | '.' :: after => Text.spanDigits after
    | _ => ([], rest)
  if whole.isEmpty && fraction.isEmpty then none
  else
    (readExponent? rest).map fun e =>
      ofDecimal negative (Nat.ofDigitChars 10 (whole ++ fraction) 0) (e - fraction.length)

/-- The number that a text writes; one that is not a number gets the mark `mark`. -/
def read? (mark : Nat) (t : Text) : Option Binary64 :=
  let (negative, body) := Text.readSign (plainDigits t.strip)
  let word := body.map Char.toLower
  if word = "nan".toList then some (.notNumber mark)
  else if word = "inf".toList ∨ word = "infinity".toList then some (.infinite negative)
  else readUnsigned? negative body

end Rfc6570.Binary64
