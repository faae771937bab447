import Rfc6570.Proofs.BindingSpellings
import Rfc6570.Proofs.TextValues
import Rfc6570.Proofs.WrittenItems
/-!
Bindings printed and read again. The printed form has a word for the type, so it is read as typed;
texts that are not bare stand in it between quotes, which reading keeps. Main statement:
`parse_render`.
-/

namespace Rfc6570

namespace Value

def keys : Value → List RawText
  | .assoc entries => Assoc.keys entries
  | _ => []

def texts : Value → List RawText
  | .list items => items.map Datum.expanded
  | .assoc entries => entries.map fun e => e.2.expanded
  | v => [v.content.expanded]

/-- The value with its strings as they are printed. -/
def written : Value → Value
  | .list items => .list (items.map fun d => .text (Binding.item d.expanded))
  | .assoc entries => .assoc (entries.map fun e => (e.1, .text (Binding.item e.2.expanded)))
  | v => .string (Binding.item v.content.expanded)

end Value

namespace Binding

/-! ### What arguments can write -/

/-- A name that is not empty and has no equals sign, with what a text stands for in a shape. -/
def IsWritable (b : Binding) : Prop :=
  ∃ name : Text, b.name = name ∧ name ≠ [] ∧ '=' ∉ name ∧ ∃ shape t, Shape.Gives shape t b.value

variable {args rest : List Text} {name text : Text} {shape : Shape} {b : Binding}

theorem writable_of_finish (bare : '=' ∉ name)
    (read : finish args name (shape.value text) rest = .ok b) : b.IsWritable := by
  unfold finish at read
  split at read
  · cases read
  · split at read
    · cases read
    · rename_i filled
      cases read
      exact ⟨name, rfl, by simpa using filled, bare, shape, text, shape.gives_value text⟩

theorem bare_of_inline? {arg : Text} (read : inline? arg = some (shape, name, text)) :
    '=' ∉ name := by
  simp only [inline?, Option.bind_eq_bind, Option.bind_eq_some_iff] at read
  obtain ⟨⟨word, body⟩, -, kind, -, read⟩ := read
  split at read
  · have sides : Text.cut '=' body = (name, text) := (Prod.mk.inj (Option.some.inj read)).2
    have bare := Text.not_mem_cut_fst '=' body
    rwa [sides] at bare
  · cases read

theorem writable_of_parseFrom {shape? : Option Shape} {name? : Option Text}
    (bare : ∀ name ∈ name?, '=' ∉ name) (read : parseFrom args shape? name? rest = .ok b) :
    b.IsWritable := by
  fun_induction parseFrom args shape? name? rest with
  | case1 => cases read
  | case2 shape? name arg rest => exact writable_of_finish (bare name rfl) read
  | case3 shape arg rest name text cut =>
    exact writable_of_finish (Text.cut?_eq_some.mp cut).2 read
  | case4 shape arg rest cut ih =>
    refine ih ?_ read
    rintro name ⟨⟩
    exact Text.cut?_eq_none.mp cut
  | case5 arg rest shape name text inline => exact writable_of_finish (bare_of_inline? inline) read
  | case6 arg rest _ name text cut =>
    have shaped : finish args name (Shape.string.value text) rest = .ok b := read
    exact writable_of_finish (Text.cut?_eq_some.mp cut).2 shaped
  | case7 arg rest _ _ shape _ ih => exact ih (fun _ => nofun) read
  | case8 => cases read

theorem writable_of_parse (read : parse args = .ok b) : b.IsWritable :=
  writable_of_parseFrom (by simp) read

/-! ### The printed form -/

variable {t : Text} {value : Value}

theorem renderValue_single (t : Text) : renderValue (.list [.text t]) = itemText t := by
  rw [← item_raw]
  exact RawText.join_singleton ',' _

theorem renderValue_entry (key t : Text) :
    renderValue (.assoc [(key, .text t)]) = Text.raw (key ++ '=' :: itemText t) := by
  rw [Text.raw_append, Text.raw_cons, ← item_raw]
  exact RawText.join_singleton ',' _

/-- What a text stands for as a map is one entry. -/
theorem entry_of_gives (gives : Shape.map.Gives t value) :
    ∃ key item : Text, '=' ∉ key ∧ value = .assoc [(key, .text item)] := by
  cases gives with
  | entry bare item => exact ⟨_, item, bare, rfl⟩
  | key bare => exact ⟨_, [], bare, rfl⟩

theorem kind_of_gives (gives : shape.Gives t value) : (value.kind, shape) ∈ Shape.words := by
  cases shape with
  | string =>
    cases gives
    exact (by decide : ("string".toList, Shape.string) ∈ Shape.words)
  | array =>
    cases gives
    exact (by decide : ("array".toList, Shape.array) ∈ Shape.words)
  | map =>
    obtain ⟨key, item, -, rfl⟩ := entry_of_gives gives
    exact (by decide : ("map".toList, Shape.map) ∈ Shape.words)

theorem isLine_of_not_mem (filled : t ≠ []) (line : '\n' ∉ t) : isLine t = true := by
  have whole : dropFinalNewline t = t := if_neg fun last => line (List.mem_of_getLast? last)
  simp [isLine, whole, filled, line]

theorem itemText_ne_nil (t : Text) : itemText t ≠ [] := by
  have filled := item_ne_nil t
  rw [item_raw] at filled
  exact fun empty => filled (congrArg Text.raw empty)

theorem newline_not_mem_itemText (t : Text) : '\n' ∉ itemText t := by
  have absent := newline_not_mem_item t
  rwa [item_raw, Text.mem_raw] at absent

theorem equals_not_mem_itemText (absent : '=' ∉ t) : '=' ∉ itemText t := by
  have absent := equals_not_mem_item (mt Text.mem_raw.mp absent)
  rwa [item_raw, Text.mem_raw] at absent

/-- A value is printed as a text that stands for the written value, on one line unless a key is
not. -/
theorem exists_renderValue (gives : shape.Gives t value) :
    ∃ printed : Text, renderValue value = printed ∧ shape.value printed = value.written ∧
      ((∀ key ∈ value.keys, .char '\n' ∉ key) → isLine printed = true) := by
  have line (t : Text) : isLine (itemText t) = true :=
    isLine_of_not_mem (itemText_ne_nil t) (newline_not_mem_itemText t)
  cases shape with
  | string =>
    cases gives
    refine ⟨itemText t, item_raw t, ?_, fun _ => line t⟩
    rw [Shape.value, ← item_raw]
    rfl
  | array =>
    cases gives
    refine ⟨itemText t, renderValue_single t, ?_, fun _ => line t⟩
    rw [Shape.value, ← item_raw]
    rfl
  | map =>
    obtain ⟨key, item, bare, rfl⟩ := entry_of_gives gives
    refine ⟨key ++ '=' :: itemText item, renderValue_entry key item, ?_, fun lines => ?_⟩
    · rw [Shape.value, Text.cut_append bare]
      simp only [← item_raw]
      rfl
    · have whole : '\n' ∉ key := mt Text.mem_raw.mpr (lines key List.mem_cons_self)
      exact isLine_of_not_mem (by simp) (by simp [whole, newline_not_mem_itemText])

theorem written_beq_iff (gives : shape.Gives t value) :
    (value.written == value) = true ↔ ∀ u ∈ value.texts, IsBare u := by
  cases shape with
  | string =>
    cases gives
    have same : ((Value.string t).written == Value.string t) = (item t == t.raw) := rfl
    simp [same, item_eq_self_iff, Value.texts, Value.content]
  | array =>
    cases gives
    have same : (Value.written (.list [.text t]) == .list [.text t]) = ([item t] == [t.raw]) :=
      Value.list_beq [item t] [t.raw]
    simp [same, item_eq_self_iff, Value.texts]
  | map =>
    obtain ⟨key, u, -, rfl⟩ := entry_of_gives gives
    have same : (Value.written (.assoc [(↑key, .text u)]) == .assoc [(↑key, .text u)]) =
        (1 == 1 &&
          [(key.raw, item u)].all fun p => Assoc.find? p.1 [(key.raw, u.raw)] == some p.2) :=
      Value.assoc_beq [(key.raw, item u)] [(key.raw, u.raw)]
    simp [same, Assoc.find?, eq_comm (a := u.raw), item_eq_self_iff, Value.texts]

theorem render_eq {printed : Text} (named : b.name = name) (shown : renderValue b.value = printed) :
    b.render = Text.raw (b.value.kind ++ ',' :: (itemText name ++ '=' :: printed)) := by
  rw [render, named, shown, item_raw]
  simp

/-- A binding that was read is printed as a text that is read as a binding again. Unless a line feed
stands in its key, that one has the name and the texts as they are printed, so the two are equal
exactly when the name and the texts are bare. -/
theorem parse_render (read : parse args = .ok b) :
    ∃ printed : Text, b.render = printed ∧
      ∃ c, parse [printed] = .ok c ∧ ((∀ key ∈ b.value.keys, .char '\n' ∉ key) →
        c = ⟨item b.name, b.value.written⟩ ∧
          ((c == b) = true ↔ ∀ t ∈ b.name :: b.value.texts, IsBare t)) := by
  obtain ⟨name, named, filled, bare, shape, t, gives⟩ := writable_of_parse read
  obtain ⟨printed, shown, again, lines⟩ := exists_renderValue gives
  have reading := parse_comma (kind_of_gives gives) (itemText_ne_nil name)
    (equals_not_mem_itemText bare) printed
  rw [again] at reading
  refine ⟨_, render_eq named shown, ?_⟩
  by_cases line : '\n' ∉ itemText name ∧ isLine printed = true
  · rw [if_pos line, ← item_raw, ← named] at reading
    have parts : ((⟨item b.name, b.value.written⟩ : Binding) == b) =
        (item b.name == b.name && b.value.written == b.value) := rfl
    refine ⟨_, reading, fun _ => ⟨rfl, ?_⟩⟩
    rw [parts, Bool.and_eq_true, beq_iff_eq, item_eq_self_iff, written_beq_iff gives,
      List.forall_mem_cons]
  · rw [if_neg line] at reading
    exact ⟨_, reading, fun whole => absurd ⟨newline_not_mem_itemText name, lines whole⟩ line⟩

/-- A map whose key and item hold what names and other texts may not. -/
theorem parse_render_entry : ∃ b c : Binding,
    parse [['m'], ['x'], "a b,=c:d=e".toList] = .ok b ∧
    b.render = "map,x=a b,=c:d=e".toList ∧ parse ["map,x=a b,=c:d=e".toList] = .ok c ∧
    (c == b) = true := by
  have read : parse [['m'], ['x'], "a b,=c:d=e".toList] =
      .ok ⟨[.char 'x'], .assoc [("a b,".toList, .text "c:d=e".toList)]⟩ := rfl
  obtain ⟨printed, shown, c, again, same⟩ := parse_render read
  obtain rfl : "map,x=a b,=c:d=e".toList = printed := Text.raw_inj.mp shown
  exact ⟨_, c, read, shown, again, (same (by decide)).2.mpr (by decide)⟩

/-- A space in a text is printed between quotes, and the quotes are read as part of the text. -/
theorem parse_render_space :
    parse ["x=a b".toList] = .ok ⟨"x".toList, .string "a b".toList⟩ ∧
    render ⟨"x".toList, .string "a b".toList⟩ = "string,x=\"a b\"".toList ∧
    parse ["string,x=\"a b\"".toList] = .ok ⟨"x".toList, .string "\"a b\"".toList⟩ ∧
    ((⟨"x".toList, .string "\"a b\"".toList⟩ : Binding) ==
      ⟨"x".toList, .string "a b".toList⟩) = false :=
  ⟨rfl, rfl, rfl, rfl⟩

end Binding
end Rfc6570
