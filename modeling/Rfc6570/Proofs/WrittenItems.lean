import Rfc6570.Binding
/-!
Texts as items. A bare text stands as it is, any other as a JSON string, which is longer than the
text and has no line feed. Main statement: `item_eq_self_iff`.
-/

namespace Rfc6570

namespace Json

/-- The characters that escapes are made of. -/
def escapeAlphabet : Text := "\\\"nrtfbu0123456789abcdef".toList

theorem mem_hexDigits {width n : Nat} {c : Char} (member : c ∈ Text.hexDigits width n) :
    c ∈ escapeAlphabet := by
  have digit : ∀ d < 16, Text.lowerHexDigit d ∈ escapeAlphabet := by decide
  induction width generalizing n with
  | zero => cases member
  | succ width ih =>
    rcases List.mem_append.mp member with front | last
    · exact ih front
    · rw [List.mem_singleton.mp last]
      exact digit _ (Nat.mod_lt _ (by decide))

theorem mem_unitEscape {n : Nat} {c : Char} (member : c ∈ unitEscape n) : c ∈ escapeAlphabet := by
  simp only [unitEscape, List.mem_cons] at member
  rcases member with rfl | rfl | digits
  · decide
  · decide
  · exact mem_hexDigits digits

theorem mem_unitEscapes {n : Nat} {c : Char} (member : c ∈ unitEscapes n) : c ∈ escapeAlphabet := by
  unfold unitEscapes at member
  split at member
  · exact mem_unitEscape member
  · exact (List.mem_append.mp member).elim mem_unitEscape mem_unitEscape

/-- A character stands for itself, which no control character does, or is escaped. -/
theorem mem_escape {c d : Char} (member : d ∈ escape c) : d = c ∧ ' ' ≤ c ∨ d ∈ escapeAlphabet := by
  have letter {x : Char} (known : x ∈ escapeAlphabet) (member : d ∈ ['\\', x]) :
      d = c ∧ ' ' ≤ c ∨ d ∈ escapeAlphabet := by
    simp only [List.mem_cons, List.not_mem_nil, or_false] at member
    rcases member with rfl | rfl
    · exact Or.inr (by decide)
    · exact Or.inr known
  unfold escape at member
  split at member
  · rename_i own
    exact letter (own.elim (fun h => h ▸ by decide) fun h => h ▸ by decide) member
  iterate 5
    split at member
    · exact letter (by decide) member
  split at member
  · rename_i printable
    exact Or.inl ⟨List.mem_singleton.mp member, printable.1⟩
  · exact Or.inr (mem_unitEscapes member)

theorem mem_escapePoint {p : Point} {d : Char} (member : d ∈ escapePoint p) :
    p = .char d ∧ ' ' ≤ d ∨ d ∈ escapeAlphabet := by
  cases p with
  | char c =>
    rcases mem_escape member with ⟨rfl, printable⟩ | known
    · exact Or.inl ⟨rfl, printable⟩
    · exact Or.inr known
  | surrogate n => exact Or.inr (mem_unitEscape member)

theorem mem_quoted {t : RawText} {d : Char} (member : d ∈ quoted t) :
    .char d ∈ t ∧ ' ' ≤ d ∨ d ∈ escapeAlphabet := by
  simp only [quoted, List.cons_append, List.mem_cons, List.mem_append, List.mem_flatMap,
    List.not_mem_nil, or_false] at member
  rcases member with rfl | ⟨p, inside, escaped⟩ | rfl
  · exact Or.inr (by decide)
  · rcases mem_escapePoint escaped with ⟨rfl, printable⟩ | known
    · exact Or.inl ⟨inside, printable⟩
    · exact Or.inr known
  · exact Or.inr (by decide)

theorem escape_ne_nil (c : Char) : escape c ≠ [] := by
  unfold escape unitEscapes unitEscape
  repeat' split
  all_goals simp

theorem escapePoint_ne_nil : ∀ p : Point, escapePoint p ≠ []
  | .char c => escape_ne_nil c
  | .surrogate _ => List.cons_ne_nil _ _

theorem length_le_length_flatMap_escape (t : RawText) :
    t.length ≤ (t.flatMap escapePoint).length := by
  induction t with
  | nil => exact Nat.le_refl 0
  | cons p rest ih =>
    have one := List.length_pos_iff.mpr (escapePoint_ne_nil p)
    rw [List.flatMap_cons, List.length_append, List.length_cons]
    omega

/-- A JSON string has its quotes beside the text. -/
theorem length_lt_length_quoted (t : RawText) : t.length < (quoted t).length := by
  have inside := length_le_length_flatMap_escape t
  simp only [quoted, List.length_append, List.length_cons, List.length_nil]
  omega

end Json

namespace Binding

/-- A string that stands as it is: not empty, and without special characters. -/
def IsBare (t : RawText) : Prop :=
  t ≠ [] ∧ ∀ p ∈ t, isSpecial p = false

variable {t : RawText}

theorem isBare_iff : ¬ (t.isEmpty || t.any isSpecial) = true ↔ IsBare t := by
  simp [IsBare]

instance (t : RawText) : Decidable (IsBare t) :=
  decidable_of_decidable_of_iff isBare_iff

theorem item_of_bare (bare : IsBare t) : item t = t :=
  if_neg (isBare_iff.mpr bare)

theorem item_of_not_bare (dressed : ¬ IsBare t) : item t = Json.quoted t :=
  if_pos (Decidable.byContradiction fun clean => dressed (isBare_iff.mp clean))

theorem item_eq_self_iff : item t = t ↔ IsBare t := by
  refine ⟨fun same => Decidable.byContradiction fun dressed => ?_, item_of_bare⟩
  have longer := Json.length_lt_length_quoted t
  rw [item_of_not_bare dressed] at same
  have length := congrArg List.length same
  rw [Text.raw, List.length_map] at length
  omega

def itemText (t : Text) : Text :=
  if IsBare t then t else Json.quoted t

theorem item_raw (t : Text) : item t = itemText t := by
  unfold itemText
  split
  · rename_i bare
    exact item_of_bare bare
  · rename_i dressed
    exact item_of_not_bare dressed

theorem item_ne_nil (t : RawText) : item t ≠ [] := by
  by_cases bare : IsBare t
  · rw [item_of_bare bare]
    exact bare.1
  · rw [item_of_not_bare bare]
    exact List.cons_ne_nil _ _

/-- A code point of an item is one of the string, and then no line feed, or one of an escape. -/
theorem mem_item {p : Point} (member : p ∈ item t) :
    p ∈ t ∧ p ≠ .char '\n' ∨ ∃ c ∈ Json.escapeAlphabet, p = .char c := by
  by_cases bare : IsBare t
  · rw [item_of_bare bare] at member
    refine Or.inl ⟨member, ?_⟩
    rintro rfl
    cases bare.2 _ member
  · rw [item_of_not_bare bare] at member
    obtain ⟨c, written, rfl⟩ := List.mem_map.mp member
    rcases Json.mem_quoted written with ⟨inside, printable⟩ | escaped
    · refine Or.inl ⟨inside, ?_⟩
      rintro ⟨⟩
      exact absurd printable (by decide)
    · exact Or.inr ⟨c, escaped, rfl⟩

theorem newline_not_mem_item (t : RawText) : .char '\n' ∉ item t := by
  intro member
  rcases mem_item member with ⟨-, other⟩ | ⟨c, escaped, ⟨⟩⟩
  · exact other rfl
  · exact absurd escaped (by decide)

theorem equals_not_mem_item (absent : .char '=' ∉ t) : .char '=' ∉ item t := by
  intro member
  rcases mem_item member with ⟨inside, -⟩ | ⟨c, escaped, ⟨⟩⟩
  · exact absent inside
  · exact absurd escaped (by decide)

end Binding
end Rfc6570
