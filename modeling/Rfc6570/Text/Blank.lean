import Rfc6570.Text
/-!
Blank characters: the white space of Unicode together with the four information separators
U+001C to U+001F. `strip` removes them at both ends of a text and nowhere else.
-/

namespace Rfc6570.Text

def isBlank (c : Char) : Bool :=
  let n := c.toNat
  (9 ≤ n && n ≤ 13) || (28 ≤ n && n ≤ 32) || n == 0x85 || n == 0xA0 || n == 0x1680 ||
    (0x2000 ≤ n && n ≤ 0x200A) || n == 0x2028 || n == 0x2029 || n == 0x202F || n == 0x205F ||
    n == 0x3000

def strip (t : Text) : Text :=
  ((t.dropWhile isBlank).reverse.dropWhile isBlank).reverse

/-- A text that neither begins nor ends with a blank is left alone. -/
theorem strip_eq_self {t : Text} (first : ∀ c ∈ t.head?, isBlank c = false)
    (last : ∀ c ∈ t.getLast?, isBlank c = false) : strip t = t := by
  have front {u : Text} (h : ∀ c ∈ u.head?, isBlank c = false) : u.dropWhile isBlank = u := by
    cases u with
    | nil => rfl
    | cons c rest => simp [h c (by simp)]
  rw [strip, front first, front (by simpa using last), List.reverse_reverse]

end Rfc6570.Text
