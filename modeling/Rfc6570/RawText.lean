import Rfc6570.Text.Hex
/-!
Strings as callers supply them. A string is a row of code points, among them surrogates that are
no half of a pair. A surrogate is no character: a text has none, and a string that has one has no
form in UTF-8. `RawText.whole` tells the two apart.
-/

namespace Rfc6570

inductive Point
  | char (c : Char)
  /-- The surrogate that follows the first one, U+D800, at the distance `n`. -/
  | surrogate (n : Fin 0x800)
  deriving DecidableEq, Repr

namespace Point

def code : Point → Nat
  | .char c => c.toNat
  | .surrogate n => 0xD800 + n.val

def isSurrogate : Point → Bool
  | .char _ => false
  | .surrogate _ => true

end Point

abbrev RawText := List Point

@[coe]
def Text.raw (t : Text) : RawText :=
  t.map .char

instance : Coe Text RawText := ⟨Text.raw⟩

/-- Surrogates that stand side by side: the first one, its place in the string, and how many. -/
structure Surrogates where
  first : Fin 0x800
  place : Nat
  count : Nat
  deriving DecidableEq, Repr

/-- One surrogate is named by its code, several by their places. -/
def Surrogates.message (s : Surrogates) : Text :=
  let which :=
    if s.count = 1 then
      " character '\\u".toList ++ Text.hexDigits 4 (0xD800 + s.first.val) ++ "' in position ".toList
        ++ Text.decimal s.place
    else
      " characters in position ".toList ++ Text.decimal s.place ++ '-'
        :: Text.decimal (s.place + s.count - 1)
  "'utf-8' codec can't encode".toList ++ which ++ ": surrogates not allowed".toList

namespace RawText

/-- Reads code points from `place` on, up to the first surrogate. -/
def wholeFrom : Nat → RawText → Except Surrogates Text
  | _, [] => .ok []
  | place, .char c :: rest => (wholeFrom (place + 1) rest).map (c :: ·)
  | place, .surrogate n :: rest => .error ⟨n, place, (rest.takeWhile Point.isSurrogate).length + 1⟩

/-- The text that a string is, or the first surrogates in it. -/
def whole (t : RawText) : Except Surrogates Text :=
  wholeFrom 0 t

/-- Every `words` entry, with `sep` between neighbours. -/
def join (sep : Char) (words : List RawText) : RawText :=
  [Point.char sep].intercalate words

/-- Code point order; a string comes before every longer string that begins with it. -/
def le : RawText → RawText → Bool
  | [], _ => true
  | _ :: _, [] => false
  | a :: as, b :: bs => a.code < b.code || (a == b && le as bs)

end RawText

/-! ### Texts as strings -/

@[simp] theorem Text.raw_nil : Text.raw [] = [] := rfl

@[simp] theorem Text.raw_cons (c : Char) (t : Text) : Text.raw (c :: t) = .char c :: t.raw := rfl

@[simp] theorem Text.raw_append (s t : Text) : Text.raw (s ++ t) = s.raw ++ t.raw :=
  List.map_append

@[simp] theorem Text.raw_inj {s t : Text} : s.raw = t.raw ↔ s = t :=
  List.map_inj_right fun _ _ => Point.char.inj

@[simp] theorem Text.mem_raw {c : Char} {t : Text} : .char c ∈ t.raw ↔ c ∈ t := by
  simp [Text.raw]

namespace RawText

@[simp] theorem join_singleton (sep : Char) (word : RawText) : join sep [word] = word :=
  List.append_nil word

theorem wholeFrom_raw (place : Nat) (t : Text) : wholeFrom place t = .ok t := by
  induction t generalizing place with
  | nil => rfl
  | cons c rest ih =>
    rw [Text.raw_cons, wholeFrom, ih]
    rfl

@[simp] theorem whole_raw (t : Text) : whole t = .ok t :=
  wholeFrom_raw 0 t

theorem raw_of_wholeFrom {place : Nat} {t : RawText} {s : Text} (h : wholeFrom place t = .ok s) :
    t = s := by
  induction t generalizing place s with
  | nil =>
    cases h
    rfl
  | cons p rest ih =>
    cases p with
    | surrogate n => cases h
    | char c =>
      rw [wholeFrom] at h
      cases tail : wholeFrom (place + 1) rest with
      | error e =>
        rw [tail] at h
        cases h
      | ok u =>
        rw [tail] at h
        cases h
        rw [Text.raw_cons, ← ih tail]

/-- A string is whole when it is the string of a text. -/
theorem whole_eq_ok {t : RawText} {s : Text} : whole t = .ok s ↔ t = s :=
  ⟨raw_of_wholeFrom, fun same => same ▸ whole_raw s⟩

end RawText
end Rfc6570
