import Rfc6570.Proofs.ExpansionAlphabet
import Rfc6570.Proofs.TemplateRendering
/-!
Reading varspecs, exactly. `isVarspec_iff` says which texts are read and `failure?_parse` what is
said against the others, check by check. Main statement: `parse_laws`, with both of them, and with
the written form of a varspec, from which the same varspec is read again.
-/

namespace Rfc6570

namespace Characters

theorem isNameTail_iff_uriText {t : Text} : isNameTail t = true ↔ UriText varchar.contains t := by
  refine ⟨UriText.of_nameTail, fun h => ?_⟩
  induction h with
  | nil => rfl
  | char legal _ ih => rw [isNameTail_cons legal, ih]
  | triplet high low _ ih => rw [isNameTail, high, low, ih]; rfl

theorem isName_iff_uriText {t : Text} : isName t = true ↔ t ≠ [] ∧ UriText varchar.contains t := by
  rw [isName_iff, isNameTail_iff_uriText]

end Characters

namespace Varspec

/-- One to four decimal digits that are not all zero. -/
def isLength (digits : Text) : Bool :=
  1 ≤ digits.length && digits.length ≤ 4 && digits.all Characters.digit.contains &&
    digits.any (· != '0')

/-- A name, alone, with a star behind it, or with a colon and a length. -/
def IsVarspec (spec : Text) : Prop :=
  ∃ name, (name ≠ [] ∧ UriText Characters.varchar.contains name) ∧
    (spec = name ∨ spec = name ++ ['*'] ∨
      ∃ digits, isLength digits = true ∧ spec = name ++ ':' :: digits)

/-- What may be said against a varspec, in order, each with whether it holds. A star at the end is
left off first. -/
def objections (spec : Text) : List (Bool × Fault) :=
  let (body, starred) := dropStar spec
  let (name, digits) := Text.cut ':' body
  [(2 ≤ body.count ':', .repeatedColon spec),
    (body.contains ':' && !isLength digits, .prefixLength spec),
    (!Characters.isName name, .varname name),
    (starred && body.contains ':', .modifiers spec)]

/-- The fault of the first objection that holds. -/
def verdict? (checks : List (Bool × Fault)) : Option Fault :=
  (checks.find? (·.1)).map (·.2)

@[simp] theorem verdict?_nil : verdict? [] = none := rfl

@[simp] theorem verdict?_cons (holds : Bool) (f : Fault) (checks : List (Bool × Fault)) :
    verdict? ((holds, f) :: checks) = if holds = true then some f else verdict? checks := by
  cases holds <;> rfl

/-! ### Lengths -/

/-- Lengths are the texts that a number is read from. -/
theorem isLength_iff {digits : Text} : isLength digits = true ↔ ∃ n, readLength? digits = some n := by
  constructor
  · intro h
    simp only [isLength, Bool.and_eq_true, decide_eq_true_eq, List.any_eq_true] at h
    obtain ⟨⟨⟨filled, short⟩, only⟩, c, member, other⟩ := h
    have positive : Nat.ofDigitChars 10 digits 0 ≠ 0 := by
      intro zero
      have zeros := (Text.ofDigitChars_eq_zero (List.all_eq_true.mp only)).mp zero
      simp [zeros c member] at other
    refine ⟨Nat.ofDigitChars 10 digits 0, ?_⟩
    rw [readLength?, if_pos ⟨filled, short, only⟩]
    exact if_neg positive
  · rintro ⟨n, read⟩
    obtain ⟨positive, short, only⟩ := readLength?_some read
    have other : digits.any (· != '0') = true := by
      cases other : digits.any (· != '0') with
      | true => rfl
      | false =>
        have zeros : ∀ c ∈ digits, c = '0' := by simpa using other
        have zero := (Text.ofDigitChars_eq_zero only).mpr zeros
        exact absurd ((readLength?_eq read).trans zero) positive
    have filled : 1 ≤ digits.length := by
      obtain ⟨c, member, -⟩ := List.any_eq_true.mp other
      exact List.length_pos_of_mem member
    have every : digits.all Characters.digit.contains = true := List.all_eq_true.mpr only
    simp [isLength, filled, short, every, other]

theorem eq_zeros_append {digits : Text} {n : Nat} (read : readLength? digits = some n) :
    ∃ zeros, digits = List.replicate zeros '0' ++ Text.decimal n := by
  refine ⟨(digits.takeWhile (· == '0')).length, ?_⟩
  have only : ∀ c ∈ digits.takeWhile (· == '0'), c = '0' := fun c member =>
    beq_iff_eq.mp (List.all_eq_true.mp List.all_takeWhile c member)
  have zeros := List.eq_replicate_iff.mpr ⟨rfl, only⟩
  rw [← zeros, decimal_readLength? read, List.takeWhile_append_dropWhile]

/-! ### Accepting -/

theorem isVarspec_iff {spec : Text} : (∃ v, parse spec = .ok v) ↔ IsVarspec spec := by
  constructor
  · rintro ⟨v, read⟩
    cases parse_eq_ok_iff.mp read with
    | plain named => exact ⟨spec, Characters.isName_iff_uriText.mp named, Or.inl rfl⟩
    | exploded named => exact ⟨_, Characters.isName_iff_uriText.mp named, Or.inr (Or.inl rfl)⟩
    | cut named length =>
      exact ⟨_, Characters.isName_iff_uriText.mp named,
        Or.inr (Or.inr ⟨_, isLength_iff.mpr ⟨_, length⟩, rfl⟩)⟩
  · rintro ⟨name, isName, rest⟩
    have named := Characters.isName_iff_uriText.mpr isName
    rcases rest with rfl | rfl | ⟨digits, length, rfl⟩
    · exact ⟨_, parse_eq_ok_iff.mpr (.plain named)⟩
    · exact ⟨_, parse_eq_ok_iff.mpr (.exploded named)⟩
    · obtain ⟨n, length⟩ := isLength_iff.mp length
      exact ⟨_, parse_eq_ok_iff.mpr (.cut named length)⟩

/-- A varspec is written as it was read, but for the zeros in front of its length. -/
theorem render_of_spells {spec : Text} {v : Varspec} (h : Spells spec v) :
    spec = v.render ∨ ∃ zeros digits,
      spec = v.name ++ ':' :: (List.replicate zeros '0' ++ digits) ∧
        v.render = v.name ++ ':' :: digits := by
  cases h with
  | plain named => exact Or.inl (by simp [render_of_unlimited])
  | exploded named => exact Or.inl (by simp [render_of_unlimited])
  | @cut name digits n named length =>
    obtain ⟨zeros, rfl⟩ := eq_zeros_append length
    exact Or.inr ⟨zeros, _, rfl, render_of_length name (readLength?_some length).1⟩

/-! ### Refusing -/

theorem failure?_checked (spec name : Text) (explode : Bool) (n : Nat) :
    failure? (checked spec name explode n) =
      verdict? [(!Characters.isName name, .varname name), (explode && n != 0, .modifiers spec)] := by
  rw [checked, verdict?_cons, verdict?_cons, verdict?_nil]
  split
  · rfl
  · simp only [Bool.and_eq_true, bne_iff_ne]
    split <;> rfl

/-- A varspec is refused for the first objection that holds, and read when none does. -/
theorem failure?_parse (spec : Text) : failure? (parse spec) = verdict? (objections spec) := by
  obtain ⟨body, starred, star⟩ : ∃ body starred, dropStar spec = (body, starred) := ⟨_, _, rfl⟩
  rw [parse, objections]
  simp only [star]
  -- The split has one part, two or more just as the colon occurs nowhere, once or again.
  rcases Text.occurrences ':' body with absent | ⟨name, digits, rfl, before, after⟩ |
    ⟨name, middle, rest, rfl, before, between⟩
  · have bare : body.contains ':' = false := by simpa using absent
    rw [List.splitOn_eq_singleton absent, Text.cut_of_not_mem absent, List.count_eq_zero.mpr absent,
      bare]
    simp [failure?_checked]
  · have one : (name ++ ':' :: digits).count ':' = 1 := by
      simp [List.count_eq_zero.mpr before, List.count_eq_zero.mpr after]
    rw [List.splitOn_append_cons_self_of_not_mem before, List.splitOn_eq_singleton after,
      Text.cut_append before, one]
    cases length : readLength? digits with
    | none =>
      have bad : isLength digits = false := by
        rw [Bool.eq_false_iff, ne_eq, isLength_iff, length]
        simp
      simp [length, bad, failure?]
    | some n =>
      have positive := (readLength?_some length).1
      have good := isLength_iff.mpr ⟨n, length⟩
      simp [length, good, failure?_checked, positive]
  · have two : 2 ≤ (name ++ ':' :: (middle ++ ':' :: rest)).count ':' := by
      simp only [List.count_append, List.count_cons_self]
      omega
    obtain ⟨first, others, more⟩ := List.exists_cons_of_ne_nil (List.splitOn_ne_nil ':' rest)
    rw [List.splitOn_append_cons_self_of_not_mem before,
      List.splitOn_append_cons_self_of_not_mem between, more, verdict?_cons,
      if_pos (decide_eq_true two)]
    rfl

/-- Reading accepts the grammar and writing undoes it, up to the zeros in front of a length. A
varspec in regular form is read from what it writes. A text that is refused is so for the first
objection that holds. -/
theorem parse_laws (spec : Text) :
    ((∃ v, parse spec = .ok v) ↔ IsVarspec spec) ∧
    (∀ v, parse spec = .ok v →
      (spec = v.render ∨ ∃ zeros digits,
        spec = v.name ++ ':' :: (List.replicate zeros '0' ++ digits) ∧
          v.render = v.name ++ ':' :: digits) ∧
      parse v.render = .ok v) ∧
    (∀ v : Varspec, v.name ≠ [] ∧ UriText Characters.varchar.contains v.name →
      0 ≤ v.maxLength ∧ v.maxLength ≤ 9999 → (v.explode = true → v.maxLength = 0) →
      parse v.render = .ok v) ∧
    ∀ f, parse spec = .error f ↔ verdict? (objections spec) = some f := by
  have written {v : Varspec} (regular : v.IsRegular) : parse v.render = .ok v :=
    parse_eq_ok_iff.mpr (spells_render regular)
  refine ⟨isVarspec_iff, fun v read => ?_, fun v named range single => ?_, fun f => ?_⟩
  · have spelled := parse_eq_ok_iff.mp read
    exact ⟨render_of_spells spelled, written spelled.isRegular⟩
  · exact written ⟨Characters.isName_iff_uriText.mpr named, range.1, range.2, single⟩
  · rw [← failure?_parse, failure?_eq_some]

/-- Zeros in front of a length, and a text to which all objections but the first apply. -/
theorem parse_laws_zeros : ∃ v, parse "%c3x:007".toList = .ok v ∧ v.render = "%c3x:7".toList ∧
    parse v.render = .ok v ∧ parse "a-b:0*".toList = .error (.prefixLength "a-b:0*".toList) := by
  have read : parse "%c3x:007".toList = .ok ⟨"%c3x".toList, false, 7⟩ := rfl
  obtain ⟨-, written, -, -⟩ := parse_laws "%c3x:007".toList
  obtain ⟨-, -, -, refused⟩ := parse_laws "a-b:0*".toList
  exact ⟨_, read, rfl, (written _ read).2, (refused _).mpr rfl⟩

end Varspec
end Rfc6570
