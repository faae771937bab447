import Rfc6570.Varspec
import Rfc6570.Proofs.Splitting
/-!
The grammar of varspecs. A name has no character that separates or modifies, so a varspec is cut
at one place only. `Varspec.parse_eq_ok_iff` says that reading accepts exactly the grammar
`Varspec.Spells`.
-/

namespace Rfc6570

namespace Characters

theorem isName_iff {t : Text} : isName t = true ↔ t ≠ [] ∧ isNameTail t = true := by
  simp [isName]

theorem varchar_of_mem_nameTail {t : Text} (h : isNameTail t = true) :
    ∀ c ∈ t, varchar.contains c = true ∨ c = '%' := by
  have digits : hexDigit.all varchar.contains = true := by decide
  fun_induction isNameTail t with
  | case1 => simp
  | case2 a b rest ih =>
    simp only [Bool.and_eq_true, List.contains_iff_mem] at h
    have first := List.all_eq_true.mp digits a h.1.1
    have second := List.all_eq_true.mp digits b h.1.2
    intro c member
    rcases List.mem_cons.mp member with rfl | member
    · exact Or.inr rfl
    · rcases List.mem_cons.mp member with rfl | member
      · exact Or.inl first
      · rcases List.mem_cons.mp member with rfl | member
        · exact Or.inl second
        · exact ih h.2 c member
  | case3 d rest _ ih =>
    rw [Bool.and_eq_true] at h
    intro c member
    rcases List.mem_cons.mp member with rfl | member
    · exact Or.inl h.1
    · exact ih h.2 c member

theorem not_mem_name {t : Text} {c : Char} (h : isName t = true)
    (other : (varchar.contains c || c == '%') = false) : c ∉ t := by
  intro member
  rw [Bool.or_eq_false_iff] at other
  rcases varchar_of_mem_nameTail (isName_iff.mp h).2 c member with inside | rfl
  · rw [other.1] at inside
    cases inside
  · simp at other

theorem isLegal_of_varchar {c : Char} (h : varchar.contains c = true) : isLegal false c = true := by
  have unreserved : varchar.all (isLegal false) = true := by decide
  exact List.all_eq_true.mp unreserved c (List.contains_iff_mem.mp h)

/-- A name character at the front of a name stands for itself. -/
theorem isNameTail_cons {c : Char} (h : varchar.contains c = true) (rest : Text) :
    isNameTail (c :: rest) = isNameTail rest := by
  have percent : varchar.contains '%' = false := by decide
  rw [isNameTail, h, Bool.true_and]
  rintro a b r same
  cases same
  rw [percent] at h
  cases h

end Characters

namespace Varspec

/-- How a varspec is written: a name alone, a name with a star, or a name with a length. -/
inductive Spells : Text → Varspec → Prop
  | plain {name : Text} (named : Characters.isName name = true) : Spells name ⟨name, false, 0⟩
  | exploded {name : Text} (named : Characters.isName name = true) :
      Spells (name ++ ['*']) ⟨name, true, 0⟩
  | cut {name digits : Text} {n : Nat} (named : Characters.isName name = true)
      (length : readLength? digits = some n) : Spells (name ++ ':' :: digits) ⟨name, false, n⟩

theorem checked_ok {spec name : Text} {explode : Bool} {n : Nat} {v : Varspec}
    (h : checked spec name explode n = .ok v) :
    Characters.isName name = true ∧ (explode = true → n = 0) ∧ v = ⟨name, explode, n⟩ := by
  unfold checked at h
  split at h
  · cases h
  · split at h
    · cases h
    · rename_i named modifiers
      cases h
      refine ⟨by simpa using named, ?_, rfl⟩
      intro exploded
      simpa [exploded] using modifiers

theorem checked_of_isName {spec name : Text} {explode : Bool} {n : Nat}
    (named : Characters.isName name = true) (single : explode = true → n = 0) :
    checked spec name explode n = .ok ⟨name, explode, n⟩ := by
  have modifiers : ¬ (explode = true ∧ n ≠ 0) := fun both => both.2 (single both.1)
  simp [checked, named, modifiers]

theorem readLength?_some {digits : Text} {n : Nat} (h : readLength? digits = some n) :
    n ≠ 0 ∧ digits.length ≤ 4 ∧ ∀ c ∈ digits, Characters.digit.contains c = true := by
  unfold readLength? at h
  split at h
  · rename_i bounds
    simp only at h
    split at h
    · cases h
    · cases h
      exact ⟨by assumption, bounds.2.1, List.all_eq_true.mp bounds.2.2⟩
  · cases h

theorem dropStar_of_not_star {spec : Text} (h : spec.getLast? ≠ some '*') :
    dropStar spec = (spec, false) := by
  simp [dropStar, h]

theorem dropStar_append (spec : Text) : dropStar (spec ++ ['*']) = (spec, true) := by
  simp [dropStar]

/-- A text is what is left without its star, with the star. -/
theorem dropStar_eq {spec body : Text} {explode : Bool} (h : dropStar spec = (body, explode)) :
    spec = body ++ if explode then ['*'] else [] := by
  unfold dropStar at h
  split at h
  · rename_i star
    obtain ⟨front, rfl⟩ := List.getLast?_eq_some_iff.mp star
    cases h
    simp
  · cases h
    simp

theorem spells_of_parse {spec : Text} {v : Varspec} (h : parse spec = .ok v) : Spells spec v := by
  unfold parse at h
  obtain ⟨body, explode, star⟩ : ∃ body explode, dropStar spec = (body, explode) := ⟨_, _, rfl⟩
  have written := dropStar_eq star
  simp only [star] at h
  have rejoined : [':'].intercalate (body.splitOn ':') = body := List.intercalate_splitOn ':'
  split at h
  · rename_i name split
    obtain ⟨named, -, rfl⟩ := checked_ok h
    rw [split, List.intercalate_singleton] at rejoined
    subst rejoined
    cases explode with
    | false => simpa [written] using Spells.plain named
    | true => simpa [written] using Spells.exploded named
  · rename_i name digits split
    split at h
    · cases h
    · rename_i n length
      obtain ⟨named, single, rfl⟩ := checked_ok h
      have positive := (readLength?_some length).1
      cases explode with
      | true => exact absurd (single rfl) positive
      | false =>
        rw [split] at rejoined
        rw [written, ← rejoined]
        simpa using Spells.cut named length
  · cases h

theorem getLast?_name_ne_star {name : Text} (named : Characters.isName name = true) :
    name.getLast? ≠ some '*' := by
  intro star
  exact Characters.not_mem_name named (by decide) (List.mem_of_getLast? star)

/-- Reading accepts exactly the grammar. -/
theorem parse_eq_ok_iff {spec : Text} {v : Varspec} : parse spec = .ok v ↔ Spells spec v := by
  constructor
  · exact spells_of_parse
  · intro spelled
    have colonFree {name : Text} (named : Characters.isName name = true) : ':' ∉ name :=
      Characters.not_mem_name named (by decide)
    cases spelled with
    | plain named =>
      rw [parse, dropStar_of_not_star (getLast?_name_ne_star named)]
      simp only [List.splitOn_eq_singleton (colonFree named)]
      exact checked_of_isName named (by simp)
    | exploded named =>
      rw [parse, dropStar_append]
      simp only [List.splitOn_eq_singleton (colonFree named)]
      exact checked_of_isName named (by simp)
    | @cut name digits n named length =>
      obtain ⟨_, _, digitsOnly⟩ := readLength?_some length
      have starFree : '*' ∉ digits := fun member => absurd (digitsOnly _ member) (by decide)
      have single : ':' ∉ digits := fun member => absurd (digitsOnly _ member) (by decide)
      have noStar : (name ++ ':' :: digits).getLast? ≠ some '*' := by
        intro star
        have member := List.mem_of_getLast? star
        rcases List.mem_append.mp member with inName | inTail
        · exact Characters.not_mem_name named (by decide) inName
        · rcases List.mem_cons.mp inTail with colon | inDigits
          · cases colon
          · exact starFree inDigits
      rw [parse, dropStar_of_not_star noStar]
      simp only [List.splitOn_append_cons_self_of_not_mem (colonFree named),
        List.splitOn_eq_singleton single, length]
      exact checked_of_isName named (by simp)

end Varspec
end Rfc6570
