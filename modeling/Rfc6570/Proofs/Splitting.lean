import Rfc6570.RawText
/-!
Splitting a text at a character, and joining texts with one: how a split goes on through a text
that does not have the character, and what a join begins with. Strings are joined as texts are.
-/

namespace Rfc6570

namespace Text

theorem not_mem_of_mem_splitOn {sep : Char} {t word : Text} (h : word ∈ t.splitOn sep) :
    sep ∉ word := by
  induction t generalizing word with
  | nil =>
    rw [List.splitOn_nil, List.mem_singleton] at h
    simp [h]
  | cons c rest ih =>
    rw [List.splitOn_cons_eq_if_modifyHead] at h
    split at h
    · rcases List.mem_cons.mp h with rfl | member
      · simp
      · exact ih member
    · rename_i other
      obtain ⟨first, others, split⟩ := List.exists_cons_of_ne_nil (List.splitOn_ne_nil sep rest)
      rw [split] at h ih
      rcases List.mem_cons.mp h with rfl | member
      · have different : sep ≠ c := by simpa using Ne.symm (by simpa using other)
        simp [different, ih List.mem_cons_self]
      · exact ih (List.mem_cons_of_mem first member)

/-- A text without the character lengthens the first part of a split. -/
theorem splitOn_append_of_not_mem {sep : Char} {t : Text} (absent : sep ∉ t) (rest : Text) :
    (t ++ rest).splitOn sep = (rest.splitOn sep).modifyHead (t ++ ·) := by
  obtain ⟨first, others, split⟩ := List.exists_cons_of_ne_nil (List.splitOn_ne_nil sep rest)
  induction t with
  | nil => rw [List.nil_append, split, List.modifyHead_cons, List.nil_append]
  | cons c t ih =>
    obtain ⟨different, absent⟩ := not_or.mp (mt List.mem_cons.mpr absent)
    have other : ¬ (c == sep) = true := by simpa using Ne.symm different
    rw [List.cons_append, List.splitOn_cons_eq_if_modifyHead, if_neg other, ih absent, split]
    rfl

theorem cut_append {sep : Char} {before : Text} (absent : sep ∉ before) (after : Text) :
    cut sep (before ++ sep :: after) = (before, after) := by
  rw [cut, cut?_append after absent]
  rfl

theorem cut_of_not_mem {sep : Char} {t : Text} (absent : sep ∉ t) : cut sep t = (t, []) := by
  rw [cut, cut?_eq_none.mpr absent]
  rfl

/-- A text without the separator lengthens the left side of a cut. -/
theorem cut_append_of_not_mem {sep : Char} {front : Text} (absent : sep ∉ front) (t : Text) :
    cut sep (front ++ t) = (front ++ (cut sep t).1, (cut sep t).2) := by
  cases found : cut? sep t with
  | none =>
    have free := cut?_eq_none.mp found
    rw [cut_of_not_mem free, cut_of_not_mem]
    exact fun member => (List.mem_append.mp member).elim absent free
  | some sides =>
    obtain ⟨rfl, free⟩ := cut?_eq_some.mp found
    rw [cut_append free, ← List.append_assoc, cut_append]
    exact fun member => (List.mem_append.mp member).elim absent free

theorem cut_fst_isPrefix (sep : Char) (t : Text) : (cut sep t).1 <+: t := by
  rw [cut]
  cases found : cut? sep t with
  | none => exact List.prefix_refl t
  | some sides =>
    obtain ⟨split, -⟩ := cut?_eq_some.mp found
    exact ⟨sep :: sides.2, split.symm⟩

theorem not_mem_cut_fst (sep : Char) (t : Text) : sep ∉ (cut sep t).1 := by
  rw [cut]
  cases found : cut? sep t with
  | none => exact cut?_eq_none.mp found
  | some sides => exact (cut?_eq_some.mp found).2

/-- A character occurs in a text nowhere, once, or again behind its first place. -/
theorem occurrences (sep : Char) (t : Text) :
    sep ∉ t ∨
    (∃ before after, t = before ++ sep :: after ∧ sep ∉ before ∧ sep ∉ after) ∨
    ∃ before between after, t = before ++ sep :: (between ++ sep :: after) ∧ sep ∉ before ∧
      sep ∉ between := by
  cases first : cut? sep t with
  | none => exact Or.inl (cut?_eq_none.mp first)
  | some sides =>
    obtain ⟨split, free⟩ := cut?_eq_some.mp first
    cases second : cut? sep sides.2 with
    | none => exact Or.inr (Or.inl ⟨_, _, split, free, cut?_eq_none.mp second⟩)
    | some others =>
      obtain ⟨split', free'⟩ := cut?_eq_some.mp second
      exact Or.inr (Or.inr ⟨_, _, _, split' ▸ split, free, free'⟩)

theorem join_cons_cons (sep : Char) (first second : Text) (rest : List Text) :
    join sep (first :: second :: rest) = first ++ sep :: join sep (second :: rest) := by
  simp [join]

@[simp] theorem join_nil (sep : Char) : join sep [] = [] := rfl

@[simp] theorem join_singleton (sep : Char) (word : Text) : join sep [word] = word := by
  simp [join]

theorem join_cons (sep : Char) (first : Text) (rest : List Text) :
    join sep (first :: rest) = first ++ rest.flatMap (sep :: ·) := by
  induction rest generalizing first with
  | nil => simp
  | cons second rest ih => rw [join_cons_cons, ih, List.flatMap_cons, List.cons_append]

theorem mem_join {sep c : Char} {words : List Text} (h : c ∈ join sep words) :
    c = sep ∨ ∃ word ∈ words, c ∈ word := by
  induction words with
  | nil => simp at h
  | cons first rest ih =>
    cases rest with
    | nil => exact Or.inr ⟨first, List.mem_cons_self, by simpa using h⟩
    | cons second rest =>
      rw [join_cons_cons] at h
      rcases List.mem_append.mp h with inFirst | later
      · exact Or.inr ⟨first, List.mem_cons_self, inFirst⟩
      · rcases List.mem_cons.mp later with same | inRest
        · exact Or.inl same
        · rcases ih inRest with same | ⟨word, member, inWord⟩
          · exact Or.inl same
          · exact Or.inr ⟨word, List.mem_cons_of_mem first member, inWord⟩

theorem join_append (sep : Char) {before after : List Text} (some : before ≠ []) (more : after ≠ []) :
    join sep (before ++ after) = join sep before ++ sep :: join sep after := by
  induction before with
  | nil => exact absurd rfl some
  | cons first rest ih =>
    cases rest with
    | nil =>
      obtain ⟨second, others, rfl⟩ := List.exists_cons_of_ne_nil more
      simp [join_cons_cons]
    | cons second rest =>
      have tail := ih (by simp)
      rw [List.cons_append, List.cons_append, join_cons_cons, ← List.cons_append, tail,
        join_cons_cons, List.append_assoc, List.cons_append]

theorem join_ne_nil {sep : Char} {words : List Text} (filled : words ≠ [])
    (solid : ∀ word ∈ words, word ≠ []) : join sep words ≠ [] := by
  obtain ⟨first, rest, rfl⟩ := List.exists_cons_of_ne_nil filled
  rw [join_cons]
  exact List.append_ne_nil_of_left_ne_nil (solid first List.mem_cons_self) _

theorem join_eq_nil {sep : Char} {words : List Text} :
    join sep words = [] ↔ words = [] ∨ words = [[]] := by
  cases words with
  | nil => simp
  | cons first rest => cases rest <;> simp [join_cons_cons]

end Text

namespace RawText

theorem join_cons_cons (sep : Char) (first second : RawText) (rest : List RawText) :
    join sep (first :: second :: rest) = first ++ Point.char sep :: join sep (second :: rest) := by
  simp [join]

theorem join_cons (sep : Char) (first : RawText) (rest : List RawText) :
    join sep (first :: rest) = first ++ rest.flatMap (Point.char sep :: ·) := by
  induction rest generalizing first with
  | nil => simp
  | cons second rest ih => rw [join_cons_cons, ih, List.flatMap_cons, List.cons_append]

theorem join_map_raw (sep : Char) (words : List Text) :
    join sep (words.map Text.raw) = Text.raw (Text.join sep words) := by
  induction words with
  | nil => rfl
  | cons first rest ih =>
    cases rest with
    | nil => simp
    | cons second rest =>
      rw [List.map_cons, List.map_cons, join_cons_cons, ← List.map_cons, ih, Text.join_cons_cons,
        Text.raw_append, Text.raw_cons]

/-- What stands around a word in a join does not depend on the word. -/
theorem exists_join_around (sep : Char) (before after : List RawText) :
    ∃ front back, ∀ word, join sep (before ++ word :: after) = front ++ word ++ back := by
  cases before with
  | nil => exact ⟨[], after.flatMap (Point.char sep :: ·), fun word => join_cons sep word after⟩
  | cons first rest =>
    refine ⟨first ++ rest.flatMap (Point.char sep :: ·) ++ [.char sep],
      after.flatMap (Point.char sep :: ·), fun word => ?_⟩
    simp [join_cons]

end RawText
end Rfc6570
