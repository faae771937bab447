import Rfc6570.Characters
import Rfc6570.Fault
/-!
A varspec is a variable name with at most one modifier: `*` to explode a composite value, or a
colon and the number of bytes to keep of a string. `Varspec.parse` reads what `Varspec.render`
writes, and refuses a text with several faults for the first that applies of: a second colon, a
bad length, a bad name, both modifiers.
-/

namespace Rfc6570

structure Varspec where
  name : Text
  explode : Bool := false
  /-- How many bytes are kept; zero when all are, and a negative number leaves off as many at
  the end. -/
  maxLength : Int := 0
  deriving DecidableEq, Repr

namespace Varspec

/-- The text without one `*` at its end, and whether there was one. -/
def dropStar (spec : Text) : Text × Bool :=
  if spec.getLast? = some '*' then (spec.dropLast, true) else (spec, false)

/-- The number that one to four decimal digits write, unless it is zero. -/
def readLength? (digits : Text) : Option Nat :=
  if 1 ≤ digits.length ∧ digits.length ≤ 4 ∧ digits.all Characters.digit.contains then
    let n := Nat.ofDigitChars 10 digits 0
    if n = 0 then none else some n
  else none

/-- The last two checks of `parse`, on a name that has been separated from its modifiers. -/
def checked (spec name : Text) (explode : Bool) (maxLength : Nat) : Except Fault Varspec :=
  if !Characters.isName name then .error (.varname name)
  else if explode ∧ maxLength ≠ 0 then .error (.modifiers spec)
  else .ok ⟨name, explode, maxLength⟩

def parse (spec : Text) : Except Fault Varspec :=
  let (body, explode) := dropStar spec
  match body.splitOn ':' with
  | [name] => checked spec name explode 0
  | [name, digits] =>
    match readLength? digits with
    | none => .error (.prefixLength spec)
    | some n => checked spec name explode n
  | _ => .error (.repeatedColon spec)

def render (v : Varspec) : Text :=
  v.name ++ (if v.maxLength = 0 then [] else ':' :: Text.signedDecimal v.maxLength)
    ++ (if v.explode then ['*'] else [])

def describe (v : Varspec) : Text :=
  "Term(".toList ++ v.render.quoted ++ [')']

end Varspec
end Rfc6570
