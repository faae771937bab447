import Rfc6570.Text.Hex
/-!
The character classes of RFC 6570 and RFC 3986, and the grammar of variable names:
one or more name characters or percent-encoded triplets.
-/

namespace Rfc6570.Characters

/-- The characters with code points from `first` on, `count` of them. -/
def run (first : Char) (count : Nat) : Text :=
  (List.range' first.toNat count).map Char.ofNat

def alpha : Text := run 'A' 26 ++ run 'a' 26

def digit : Text := run '0' 10

def hexDigit : Text := digit ++ run 'A' 6 ++ run 'a' 6

def varchar : Text := alpha ++ digit ++ ['_', '.']

def unreserved : Text := alpha ++ digit ++ ['-', '.', '_', '~']

def genDelims : Text := [':', '/', '?', '#', '[', ']', '@']

def subDelims : Text := ['!', '$', '&', '\x27', '(', ')', '*', '+', ',', ';', '=']

def reserved : Text := genDelims ++ subDelims

/-- One or more name characters or percent-encoded triplets, and nothing else. -/
def isNameTail : Text → Bool
  | [] => true
  | '%' :: a :: b :: rest => hexDigit.contains a && hexDigit.contains b && isNameTail rest
  | c :: rest => varchar.contains c && isNameTail rest

def isName (t : Text) : Bool :=
  !t.isEmpty && isNameTail t

/-- The characters that an encoded text keeps: the unreserved ones, and the reserved ones too
when `reservedToo`. -/
def isLegal (reservedToo : Bool) (c : Char) : Bool :=
  unreserved.contains c || (reservedToo && reserved.contains c)

theorem isLegal_percent (reservedToo : Bool) : isLegal reservedToo '%' = false := by
  cases reservedToo <;> decide

theorem isLegal_of_unreserved {c : Char} (h : isLegal false c) (reservedToo : Bool) :
    isLegal reservedToo c := by
  simp_all [isLegal]

theorem toNat_lt_of_isLegal {reservedToo : Bool} {c : Char} (h : isLegal reservedToo c) :
    c.toNat < 128 := by
  have bound : (unreserved ++ reserved).all (fun d => d.toNat < 128) = true := by decide
  refine of_decide_eq_true (List.all_eq_true.1 bound c (List.mem_append.2 ?_))
  simp only [isLegal, Bool.or_eq_true, Bool.and_eq_true, List.contains_iff_mem] at h
  exact h.imp_right And.right

end Rfc6570.Characters
