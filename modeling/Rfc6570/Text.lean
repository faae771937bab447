/-!
Texts are lists of characters, so that every function on them is recursion on a list.
`cut?` takes a text apart at the first separator, and `utf8` gives the bytes that are
percent-encoded.
-/

namespace Rfc6570

abbrev Text := List Char

namespace Text

/-- The two sides of the first `sep`; nothing when `sep` does not occur. -/
def cut? (sep : Char) : Text → Option (Text × Text)
  | [] => none
  | c :: rest =>
    if c = sep then some ([], rest)
    else (cut? sep rest).map fun (before, after) => (c :: before, after)

/-- The two sides of the first `sep`; a text without `sep` is all left side. -/
def cut (sep : Char) (t : Text) : Text × Text :=
  (cut? sep t).getD (t, [])

/-- Every `words` entry, with `sep` between neighbours. -/
def join (sep : Char) (words : List Text) : Text :=
  [sep].intercalate words

def utf8 (t : Text) : List UInt8 :=
  t.flatMap String.utf8EncodeChar

def decimal (n : Nat) : Text :=
  Nat.toDigits 10 n

/-- An integer in decimal digits, a negative one after a minus sign. Whoever writes an integer looks
first whether it is overlong. -/
def signedDecimal : Int → Text
  | .ofNat n => decimal n
  | .negSucc n => '-' :: decimal (n + 1)

/-- The most digits that an integer is read from or written in. -/
def maxDigits : Nat := 4300

/-- Whether an integer has more digits than are written. -/
def isOverlong (n : Int) : Bool :=
  maxDigits < (decimal n.natAbs).length

/-! ### Cutting -/

theorem cut?_eq_none {sep : Char} {t : Text} : cut? sep t = none ↔ sep ∉ t := by
  induction t with
  | nil => simp [cut?]
  | cons c rest ih =>
    by_cases h : c = sep
    · simp [cut?, h]
    · simp [cut?, h, ih, Ne.symm h]

/-- The left side of a cut has no separator, and nothing is lost. -/
theorem cut?_eq_some {sep : Char} {t before after : Text} :
    cut? sep t = some (before, after) ↔ t = before ++ sep :: after ∧ sep ∉ before := by
  induction t generalizing before with
  | nil => simp [cut?]
  | cons c rest ih =>
    by_cases h : c = sep
    · subst h
      cases before with
      | nil => simp [cut?]
      | cons b bs =>
        simp only [cut?, if_true, List.cons_append, List.cons.injEq, List.mem_cons]
        constructor
        · intro e; simp at e
        · rintro ⟨⟨rfl, _⟩, hn⟩; simp at hn
    · cases before with
      | nil => simp [cut?, h]
      | cons b bs =>
        simp only [cut?, h, if_false, Option.map_eq_some_iff, List.cons_append, List.mem_cons]
        constructor
        · rintro ⟨⟨l, r⟩, hc, e⟩
          obtain ⟨⟨rfl, rfl⟩, rfl⟩ : (c = b ∧ l = bs) ∧ r = after := by simpa using e
          obtain ⟨hr, hn⟩ := ih.1 hc
          exact ⟨by rw [hr], by simp [Ne.symm h, hn]⟩
        · rintro ⟨e, hn⟩
          obtain ⟨rfl, hr⟩ : c = b ∧ rest = bs ++ sep :: after := by simpa using e
          exact ⟨(bs, after), ih.2 ⟨hr, fun hm => hn (Or.inr hm)⟩, rfl⟩

theorem cut?_append {sep : Char} {before : Text} (after : Text) (h : sep ∉ before) :
    cut? sep (before ++ sep :: after) = some (before, after) :=
  cut?_eq_some.2 ⟨rfl, h⟩

end Text
end Rfc6570
