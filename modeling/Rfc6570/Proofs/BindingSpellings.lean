import Rfc6570.Binding
import Rfc6570.Proofs.Splitting
/-!
The spellings of a typed binding: in three arguments, in two, or in one behind a comma. Main
statement: `parse_spellings`. The first two give the same binding whatever the text is. The third
gives it only for a text that is not empty and stands on one line; it is taken for a string
otherwise, with the type word and the comma in its name.
-/

namespace Rfc6570

namespace Shape

/-- What a text stands for in each shape. A map's entry is cut at the first equals sign. -/
inductive Gives : Shape → Text → Value → Prop
  | string (t : Text) : Gives .string t (.string t)
  | array (t : Text) : Gives .array t (.list [.text t])
  | entry {key : Text} (bare : '=' ∉ key) (item : Text) :
      Gives .map (key ++ '=' :: item) (.assoc [(key, .text item)])
  | key {key : Text} (bare : '=' ∉ key) : Gives .map key (.assoc [(key, .text [])])

theorem gives_value (shape : Shape) (t : Text) : shape.Gives t (shape.value t) := by
  cases shape with
  | string => exact .string t
  | array => exact .array t
  | map =>
    rw [value]
    cases cut : Text.cut? '=' t with
    | none =>
      have bare := Text.cut?_eq_none.mp cut
      rw [Text.cut_of_not_mem bare]
      exact .key bare
    | some sides =>
      obtain ⟨rfl, bare⟩ := Text.cut?_eq_some.mp cut
      rw [Text.cut_append bare]
      exact .entry bare _

theorem word_of_mem {word : Text} {shape : Shape} (typed : (word, shape) ∈ words) :
    ofWord? word = some shape ∧ ',' ∉ word ∧ '=' ∉ word := by
  simp only [words, List.mem_cons, List.not_mem_nil, or_false, Prod.mk.injEq] at typed
  rcases typed with h | h | h | h | h | h
  all_goals
    obtain ⟨rfl, rfl⟩ := h
    exact ⟨rfl, by decide, by decide⟩

end Shape

namespace Binding

/-- A line that is not empty. A line feed may end it. -/
def isLine (t : Text) : Bool :=
  !(dropFinalNewline t).isEmpty && !(dropFinalNewline t).contains '\n'

theorem dropFinalNewline_append (front : Text) {t : Text} (filled : t ≠ []) :
    dropFinalNewline (front ++ t) = front ++ dropFinalNewline t := by
  have last : (front ++ t).getLast? = t.getLast? := by
    rw [List.getLast?_append, List.getLast?_eq_some_getLast filled, Option.some_or]
  rw [dropFinalNewline, dropFinalNewline, last, List.dropLast_append_of_ne_nil filled]
  split <;> rfl

theorem dropFinalNewline_cons {c : Char} (other : c ≠ '\n') (t : Text) :
    dropFinalNewline (c :: t) = c :: dropFinalNewline t := by
  cases t with
  | nil => simp [dropFinalNewline, other]
  | cons d rest => exact dropFinalNewline_append [c] (List.cons_ne_nil d rest)

theorem isInline_append {name : Text} (filled : name ≠ []) (bare : '=' ∉ name) (text : Text) :
    isInline (name ++ '=' :: text) = (!name.contains '\n' && isLine text) := by
  obtain ⟨c, rest, rfl⟩ := List.exists_cons_of_ne_nil filled
  rw [isInline, isLine, dropFinalNewline_append _ (List.cons_ne_nil _ _),
    dropFinalNewline_cons (by decide)]
  simp only [List.mem_cons, not_or] at bare
  -- The equals sign behind the name counts only with a character behind it.
  cases dropFinalNewline text with
  | nil => simp [bare.2]
  | cons d line => simp [List.dropLast_append_of_ne_nil, Bool.and_assoc]

theorem inline?_append {word name : Text} {shape : Shape} (typed : (word, shape) ∈ Shape.words)
    (filled : name ≠ []) (bare : '=' ∉ name) (text : Text) :
    inline? (word ++ ',' :: (name ++ '=' :: text)) =
      if '\n' ∉ name ∧ isLine text = true then some (shape, name, text) else none := by
  obtain ⟨found, comma, -⟩ := Shape.word_of_mem typed
  rw [inline?, Text.cut?_append _ comma]
  simp [found, isInline_append filled bare, Text.cut_append bare]

theorem parse_word {word : Text} {shape : Shape} (typed : (word, shape) ∈ Shape.words)
    (rest : List Text) :
    parse (word :: rest) = parseFrom (word :: rest) (some shape) none rest := by
  obtain ⟨found, comma, equals⟩ := Shape.word_of_mem typed
  have alone : inline? word = none := by
    rw [inline?, Text.cut?_eq_none.mpr comma]
    rfl
  rw [parse, parseFrom]
  simp only [alone, Text.cut?_eq_none.mpr equals, found]

theorem finish_nil (args : List Text) {name : Text} (filled : name ≠ []) (value : Value) :
    finish args name value [] = .ok ⟨name, value⟩ := by
  simp [finish, filled]

theorem parse_comma {word name : Text} {shape : Shape} (typed : (word, shape) ∈ Shape.words)
    (filled : name ≠ []) (bare : '=' ∉ name) (text : Text) :
    parse [word ++ ',' :: (name ++ '=' :: text)] =
      if '\n' ∉ name ∧ isLine text = true then .ok ⟨name, shape.value text⟩
      else .ok ⟨Text.raw (word ++ ',' :: name), .string text⟩ := by
  obtain ⟨-, -, equals⟩ := Shape.word_of_mem typed
  have inline := inline?_append typed filled bare text
  rw [parse, parseFrom]
  by_cases line : '\n' ∉ name ∧ isLine text = true
  · rw [if_pos line] at inline ⊢
    simp only [inline]
    exact finish_nil _ filled _
  · -- The word and the comma have no equals sign, so the name goes up to the same one.
    have longer : '=' ∉ word ++ ',' :: name := by simp [equals, bare]
    have cut := Text.cut?_append text longer
    rw [List.append_assoc, List.cons_append] at cut
    have filledLonger : word ++ ',' :: name ≠ [] := by simp
    rw [if_neg line] at inline ⊢
    simp only [inline, cut]
    exact finish_nil _ filledLonger _

/-- A type word, a name and a text in three arguments, in two and in one. The first two spellings
give the name what the text stands for in the shape of the word, for every text. So does the last
one exactly for names and texts that stand on one line, the text not being empty. Else it gives the
text as a string to a name that begins with the word and the comma. -/
theorem parse_spellings {word name : Text} {shape : Shape} (typed : (word, shape) ∈ Shape.words)
    (filled : name ≠ []) (bare : '=' ∉ name) (text : Text) :
    ∃ value, shape.Gives text value ∧
      parse [word, name, text] = .ok ⟨name, value⟩ ∧
      parse [word, name ++ '=' :: text] = .ok ⟨name, value⟩ ∧
      parse [word ++ ',' :: (name ++ '=' :: text)] =
        (if '\n' ∉ name ∧ isLine text = true then .ok ⟨name, value⟩
          else .ok ⟨Text.raw (word ++ ',' :: name), .string text⟩) ∧
      (parse [word ++ ',' :: (name ++ '=' :: text)] = .ok ⟨name, value⟩ ↔
        '\n' ∉ name ∧ isLine text = true) := by
  have joined := parse_comma typed filled bare text
  refine ⟨shape.value text, shape.gives_value text, ?_, ?_, joined, ?_⟩
  · rw [parse_word typed, parseFrom]
    simp only [Text.cut?_eq_none.mpr bare]
    exact finish_nil _ filled _
  · rw [parse_word typed, parseFrom]
    simp only [Text.cut?_append text bare]
    exact finish_nil _ filled _
  · rw [joined]
    split
    · rename_i line
      exact iff_of_true rfl line
    · rename_i broken
      refine iff_of_false ?_ broken
      intro same
      have names : word ++ ',' :: name = name :=
        Text.raw_inj.mp (congrArg Binding.name (Except.ok.inj same))
      have length := congrArg List.length names
      simp only [List.length_append, List.length_cons] at length
      omega

/-- A map whose item holds equals signs, on a line that a line feed ends. -/
theorem parse_spellings_entry : (['m'], Shape.map) ∈ Shape.words ∧
    parse ["m,x=k=a=b\n".toList] = .ok ⟨"x".toList, .assoc [("k".toList, .text "a=b\n".toList)]⟩ ∧
    parse [['m'], ['x'], "k=a=b\n".toList] = parse ["m,x=k=a=b\n".toList] := by
  have typed : (['m'], Shape.map) ∈ Shape.words := by decide
  have filled : ['x'] ≠ [] := by decide
  obtain ⟨value, -, apart, -, -, together⟩ :=
    parse_spellings typed filled (by decide) "k=a=b\n".toList
  have read := together.mpr ⟨by decide, rfl⟩
  exact ⟨typed, rfl, apart.trans read.symm⟩

/-- An empty text makes the word a part of the name in one spelling, and in no other. -/
theorem parse_comma_empty : (['s'], Shape.string) ∈ Shape.words ∧
    parse ["s,x=".toList] = .ok ⟨"s,x".toList, .string []⟩ ∧
    parse ["s".toList, "x=".toList] = .ok ⟨"x".toList, .string []⟩ ∧
    parse ["s".toList, "x".toList, []] = .ok ⟨"x".toList, .string []⟩ ∧
    parse ["s,x=".toList] ≠ parse [['s'], "x=".toList] := by
  refine ⟨by decide, rfl, rfl, rfl, ?_⟩
  intro same
  cases congrArg (Except.map Binding.name) same

end Binding
end Rfc6570
