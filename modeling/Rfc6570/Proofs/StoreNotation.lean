import Rfc6570.Proofs.FreshMerges
import Rfc6570.Proofs.KeyOrder
import Rfc6570.Proofs.TextValues
import Rfc6570.Proofs.WrittenItems
/-!
The abbreviated notation of one variable, printed and read again. The reader cuts at the commas and
takes the blanks off both sides, so it gives back what is printed where no text needs quotes or ends
in a blank. The entries of a map come back in the order in which they are printed. Main statement:
`set_render`.
-/

namespace Rfc6570

namespace Text

/-! ### Blanks at the ends -/

/-- No blank character stands at either end. -/
def IsTrimmed (t : Text) : Prop :=
  (∀ c ∈ t.head?, isBlank c = false) ∧ ∀ c ∈ t.getLast?, isBlank c = false

theorem isTrimmed_iff {t : Text} :
    (t.head?.all (!isBlank ·) && t.getLast?.all (!isBlank ·)) = true ↔ t.IsTrimmed := by
  simp [IsTrimmed, Option.all_eq_true]

instance (t : Text) : Decidable (IsTrimmed t) :=
  decidable_of_decidable_of_iff isTrimmed_iff

theorem strip_of_trimmed {t : Text} (trimmed : t.IsTrimmed) : strip t = t :=
  strip_eq_self trimmed.1 trimmed.2

theorem mem_dropWhile {c : Char} {t : Text} {p : Char → Bool} (member : c ∈ t) (kept : p c = false) :
    c ∈ t.dropWhile p := by
  induction t with
  | nil => cases member
  | cons d rest ih =>
    cases dropped : p d with
    | false => rwa [List.dropWhile_cons_of_neg (by simp [dropped])]
    | true =>
      rw [List.dropWhile_cons_of_pos dropped]
      refine ih ((List.mem_cons.mp member).resolve_left ?_)
      rintro rfl
      simp [kept] at dropped

theorem mem_strip {c : Char} {t : Text} (member : c ∈ t) (solid : isBlank c = false) :
    c ∈ strip t :=
  List.mem_reverse.mpr (mem_dropWhile (List.mem_reverse.mpr (mem_dropWhile member solid)) solid)

end Text

namespace Store

/-! ### Plain texts -/

/-- A text that is printed without quotes and has no blank at either end. -/
structure IsPlain (t : Text) : Prop where
  bare : Binding.IsBare t
  trimmed : t.IsTrimmed

/-- A key that can be told from its item and from other entries. It may be empty. -/
structure IsPlainKey (t : Text) : Prop where
  comma : ',' ∉ t
  colon : ':' ∉ t
  trimmed : t.IsTrimmed

def entriesOf (pairs : List (Text × Text)) : List (RawText × Datum) :=
  Value.textEntries (pairs.map fun p => (p.1, p.2))

/-- The values whose abbreviated notation is read back. -/
inductive Abbreviable : Value → Prop
  | string {t : Text} (noList : t.head? ≠ some '[') (noMap : t.head? ≠ some '\x7b') :
    Abbreviable (.string t)
  | list {ts : List Text} (plain : ∀ t ∈ ts, IsPlain t) :
    Abbreviable (.list (ts.map fun t : Text => .text t))
  | assoc {pairs : List (Text × Text)} (distinct : (Assoc.keys pairs).Nodup)
    (plain : ∀ p ∈ pairs, IsPlainKey p.1 ∧ IsPlain p.2) : Abbreviable (.assoc (entriesOf pairs))

variable {t : Text} {key item : Text}

theorem nodup_keys_raw {pairs : List (Text × Text)} (distinct : (Assoc.keys pairs).Nodup) :
    (Assoc.keys (pairs.map fun p => (p.1.raw, p.2.raw))).Nodup :=
  Assoc.nodup_keys_map (fun _ _ => Text.raw_inj.mp) Text.raw distinct

/-! ### Tokens -/

/-- A text without comma that is not blank. -/
def IsToken (word : Text) : Prop :=
  ',' ∉ word ∧ ∃ c ∈ word, Text.isBlank c = false

theorem IsPlain.comma (plain : IsPlain t) : ',' ∉ t := by
  intro member
  cases plain.bare.2 _ (Text.mem_raw.mpr member)

theorem IsPlain.isToken (plain : IsPlain t) : IsToken t := by
  obtain ⟨c, rest, filled⟩ := List.exists_cons_of_ne_nil fun empty =>
    plain.bare.1 (congrArg Text.raw empty)
  have first : c ∈ t.head? := by rw [filled, List.head?_cons, Option.mem_some]
  exact ⟨plain.comma, c, List.mem_of_mem_head? first, plain.trimmed.1 c first⟩

/-- What brackets hold is cut at the commas. -/
theorem tokens_join {words : List Text} (each : ∀ word ∈ words, IsToken word) (first last : Char) :
    tokens (first :: Text.join ',' words ++ [last]) = words := by
  have inner : ((first :: Text.join ',' words ++ [last]).drop 1).dropLast = Text.join ',' words := by
    simp
  rw [tokens, inner]
  cases words with
  | nil => rfl
  | cons word rest =>
    -- The first word is not blank, so the content is not taken for an empty one.
    obtain ⟨-, c, member, solid⟩ := each word List.mem_cons_self
    have held : c ∈ Text.join ',' (word :: rest) := by
      rw [Text.join_cons]
      exact List.mem_append_left _ member
    have filled : ¬ (Text.strip (Text.join ',' (word :: rest))).isEmpty = true := by
      simpa using List.ne_nil_of_mem (Text.mem_strip held solid)
    simp only [if_neg filled]
    exact List.splitOn_intercalate ',' (fun word member => (each word member).1)
      (List.cons_ne_nil word rest)

def entryText (p : Text × Text) : Text :=
  p.1 ++ ':' :: p.2

theorem renderEntry_text (plain : IsPlain item) :
    renderEntry (key, .text item) = entryText (key, item) := by
  rw [renderEntry, Datum.expanded_text, Binding.item_of_bare plain.bare, entryText, Text.raw_append,
    Text.raw_cons]

theorem entryOf_entryText {p : Text × Text} (key : IsPlainKey p.1) (item : IsPlain p.2) :
    entryOf (entryText p) = (p.1.raw, .text p.2) := by
  rw [entryOf, entryText, Text.cut_append key.colon]
  simp only [Text.strip_of_trimmed key.trimmed, Text.strip_of_trimmed item.trimmed]

/-- The colon makes the text of an entry a token, even where the key is empty. -/
theorem isToken_entryText {p : Text × Text} (key : IsPlainKey p.1) (item : IsPlain p.2) :
    IsToken (entryText p) := by
  refine ⟨by simp [entryText, key.comma, item.comma], ':', ?_, by decide⟩
  simp [entryText]

/-! ### Values -/

variable {name : Text} {value : Value} {arg : Text}

theorem readValue_string (noList : t.head? ≠ some '[') (noMap : t.head? ≠ some '\x7b') :
    readValue arg t = .ok (.string t) := by
  unfold readValue
  split
  · rename_i first
    exact absurd first noList
  · rename_i first
    exact absurd first noMap
  · rfl

theorem readValue_list {words : List Text} (each : ∀ word ∈ words, IsToken word) :
    readValue arg ('[' :: Text.join ',' words ++ [']']) =
      .ok (.list (words.map fun word => .text (Text.strip word))) := by
  have closed : ('[' :: Text.join ',' words ++ [']']).getLast? = some ']' := List.getLast?_concat
  rw [readValue, List.cons_append, List.head?_cons, ← List.cons_append]
  simp only [if_pos closed, tokens_join each]

theorem readValue_map {words : List Text} (each : ∀ word ∈ words, IsToken word) :
    readValue arg ('\x7b' :: Text.join ',' words ++ ['\x7d']) =
      .ok (.assoc (Assoc.ofList (words.map entryOf))) := by
  have closed : ('\x7b' :: Text.join ',' words ++ ['\x7d']).getLast? = some '\x7d' :=
    List.getLast?_concat
  rw [readValue, List.cons_append, List.head?_cons, ← List.cons_append]
  simp only [if_pos closed, tokens_join each]

theorem readValue_entries {pairs : List (Text × Text)} (distinct : (Assoc.keys pairs).Nodup)
    (plain : ∀ p ∈ pairs, IsPlainKey p.1 ∧ IsPlain p.2) :
    readValue arg ('\x7b' :: Text.join ',' (pairs.map entryText) ++ ['\x7d']) =
      .ok (.assoc (entriesOf pairs)) := by
  have each : ∀ word ∈ pairs.map entryText, IsToken word := by
    intro word member
    obtain ⟨p, held, rfl⟩ := List.mem_map.mp member
    exact isToken_entryText (plain p held).1 (plain p held).2
  have entries : (pairs.map entryText).map entryOf = entriesOf pairs := by
    rw [entriesOf, Value.textEntries, List.map_map, List.map_map]
    exact List.map_congr_left fun p member => entryOf_entryText (plain p member).1 (plain p member).2
  have keys : (Assoc.keys (entriesOf pairs)).Nodup := by
    rw [entriesOf, Value.keys_textEntries]
    exact nodup_keys_raw distinct
  rw [readValue_map each, entries, Assoc.ofList_of_nodup keys]

/-! ### Bindings -/

theorem readBinding_name (filled : name ≠ []) (bare : '=' ∉ name) :
    readBinding name = .ok ⟨name, .string name⟩ := by
  simp [readBinding, Text.cut_of_not_mem bare, Text.cut?_eq_none.mpr bare, filled]

theorem readBinding_append (filled : name ≠ []) (bare : '=' ∉ name)
    (read : readValue (name ++ '=' :: t) t = .ok value) :
    readBinding (name ++ '=' :: t) = .ok ⟨name, value⟩ := by
  have named : ¬ name.isEmpty = true := by simpa using filled
  simp only [readBinding, Text.cut_append bare, if_neg named, Text.cut?_append t bare, read]
  rfl

theorem readBinding_string (filled : name ≠ []) (bare : '=' ∉ name) (noList : t.head? ≠ some '[')
    (noMap : t.head? ≠ some '\x7b') :
    ∃ printed : Text, renderBinding name (.string t) = printed ∧
      readBinding printed = .ok ⟨name, .string t⟩ := by
  by_cases own : t = name
  · refine ⟨name, if_pos (congrArg Text.raw own), ?_⟩
    rw [own]
    exact readBinding_name filled bare
  · refine ⟨name ++ '=' :: t, ?_, readBinding_append filled bare (readValue_string noList noMap)⟩
    rw [renderBinding, if_neg (mt Text.raw_inj.mp own), Text.raw_append, Text.raw_cons]

theorem readBinding_list (filled : name ≠ []) (bare : '=' ∉ name) {ts : List Text}
    (plain : ∀ t ∈ ts, IsPlain t) :
    ∃ printed : Text, renderBinding name (.list (ts.map fun t : Text => .text t)) = printed ∧
      readBinding printed = .ok ⟨name, .list (ts.map fun t : Text => .text t)⟩ := by
  have items : (ts.map fun t : Text => Datum.text t).map (fun d => Binding.item d.expanded) =
      ts.map Text.raw := by
    rw [List.map_map]
    exact List.map_congr_left fun t member => Binding.item_of_bare (plain t member).bare
  have stripped : ts.map (fun t => Datum.text (Text.strip t)) = ts.map fun t : Text => .text t :=
    List.map_congr_left fun t member =>
      congrArg (fun t : Text => Datum.text t) (Text.strip_of_trimmed (plain t member).trimmed)
  refine ⟨name ++ '=' :: ('[' :: Text.join ',' ts ++ [']']), ?_, ?_⟩
  · rw [renderBinding, Binding.itemList, items, RawText.join_map_raw]
    simp
  · rw [← stripped]
    exact readBinding_append filled bare (readValue_list fun t member => (plain t member).isToken)

/-- The pairs in the order in which their texts are printed. -/
def printedOrder (pairs : List (Text × Text)) : List (Text × Text) :=
  pairs.mergeSort fun p q => RawText.le (entryText p) (entryText q)

theorem printedOrder_perm (pairs : List (Text × Text)) : (printedOrder pairs).Perm pairs :=
  List.mergeSort_perm pairs _

theorem mergeSort_renderEntry {pairs : List (Text × Text)} (plain : ∀ p ∈ pairs, IsPlain p.2) :
    ((entriesOf pairs).map renderEntry).mergeSort RawText.le =
      ((printedOrder pairs).map entryText).map Text.raw := by
  have texts : (entriesOf pairs).map renderEntry = pairs.map fun p => Text.raw (entryText p) := by
    rw [entriesOf, Value.textEntries, List.map_map, List.map_map]
    exact List.map_congr_left fun p member => renderEntry_text (plain p member)
  have arranged : (printedOrder pairs).map (fun p => Text.raw (entryText p)) =
      (pairs.map fun p => Text.raw (entryText p)).mergeSort RawText.le :=
    List.map_mergeSort fun _ _ _ _ => rfl
  rw [texts, ← arranged, List.map_map]
  rfl

/-- A map comes back with its entries in the order in which they are printed. -/
theorem readBinding_assoc (filled : name ≠ []) (bare : '=' ∉ name) {pairs : List (Text × Text)}
    (distinct : (Assoc.keys pairs).Nodup) (plain : ∀ p ∈ pairs, IsPlainKey p.1 ∧ IsPlain p.2) :
    ∃ printed : Text, renderBinding name (.assoc (entriesOf pairs)) = printed ∧
      readBinding printed = .ok ⟨name, .assoc (entriesOf (printedOrder pairs))⟩ := by
  have ordered : ∀ p ∈ printedOrder pairs, IsPlainKey p.1 ∧ IsPlain p.2 :=
    fun p member => plain p ((printedOrder_perm pairs).mem_iff.mp member)
  have keys : (Assoc.keys (printedOrder pairs)).Nodup :=
    ((printedOrder_perm pairs).map Prod.fst).nodup_iff.mpr distinct
  refine ⟨name ++ '=' :: ('\x7b' :: Text.join ',' ((printedOrder pairs).map entryText) ++ ['\x7d']),
    ?_, readBinding_append filled bare (readValue_entries keys ordered)⟩
  rw [renderBinding, mergeSort_renderEntry fun p member => (plain p member).2, RawText.join_map_raw]
  simp

/-! ### Stores -/

theorem set_empty {b : Binding} (read : readBinding arg = .ok b) :
    empty.set arg = { store := ⟨[(b.name, b.value)]⟩ } := by
  rw [set, read]
  exact mergeAll_empty (by simp)

theorem same_single (name : RawText) (v w : Value) :
    same ⟨[(name, v)]⟩ ⟨[(name, w)]⟩ = (v == w) := by
  have found : find? ⟨[(name, w)]⟩ name = some w := by simp [find?, Assoc.find?]
  simp [same, size, found]

/-- A binding that was printed is read again, with an equal value. -/
theorem readBinding_renderBinding (filled : name ≠ []) (bare : '=' ∉ name)
    (abbreviable : Abbreviable value) :
    ∃ printed : Text, renderBinding name value = printed ∧
      ∃ again, readBinding printed = .ok ⟨name, again⟩ ∧ (again == value) = true := by
  cases abbreviable with
  | string noList noMap =>
    obtain ⟨printed, shown, read⟩ := readBinding_string filled bare noList noMap
    exact ⟨printed, shown, _, read, by rw [Value.string_beq, beq_self_eq_true]⟩
  | @list ts plain =>
    obtain ⟨printed, shown, read⟩ := readBinding_list filled bare plain
    have items : ts.map (fun t : Text => Datum.text t) = (ts.map Text.raw).map .text :=
      List.map_map.symm
    exact ⟨printed, shown, _, read, by rw [items, Value.list_beq, beq_self_eq_true]⟩
  | @assoc pairs distinct plain =>
    obtain ⟨printed, shown, read⟩ := readBinding_assoc filled bare distinct plain
    exact ⟨printed, shown, _, read,
      Value.assoc_beq_of_perm (nodup_keys_raw distinct) ((printedOrder_perm pairs).map _)⟩

/-- A store with one variable is read back from what is printed of it, which is a text: a string
that is no bracket, plain items, or plain items under plain keys, however many there are. -/
theorem set_render (filled : name ≠ []) (bare : '=' ∉ name) (abbreviable : Abbreviable value) :
    ∃ printed : Text, render ⟨[(name, value)]⟩ = printed ∧
      ∃ s, empty.set printed = { store := s } ∧ s.same ⟨[(name, value)]⟩ = true := by
  obtain ⟨printed, shown, again, read, equal⟩ := readBinding_renderBinding filled bare abbreviable
  rw [render_single]
  exact ⟨printed, shown, _, set_empty read, (same_single name again value).trans equal⟩

/-- A key that begins another one, which is printed first, an empty key, and a colon in an item. -/
theorem set_render_colon : ∃ printed : Text,
    render ⟨[("m".toList, .assoc (entriesOf [("a".toList, "x:y".toList),
      ("a1".toList, "=".toList), ([], "z".toList)]))]⟩ = printed ∧
    ∃ s, empty.set printed = { store := s } ∧
      s.same ⟨[("m".toList, .assoc (entriesOf [("a".toList, "x:y".toList),
        ("a1".toList, "=".toList), ([], "z".toList)]))]⟩ = true := by
  have plain : ∀ p ∈ [(['a'], "x:y".toList), ("a1".toList, ['=']), ([], ['z'])],
      IsPlainKey p.1 ∧ IsPlain p.2 := by
    intro p member
    simp only [List.mem_cons, List.not_mem_nil, or_false] at member
    rcases member with rfl | rfl | rfl
    all_goals exact ⟨⟨by decide, by decide, by decide⟩, ⟨by decide, by decide⟩⟩
  have named : ['m'] ≠ [] := by decide
  exact set_render named (by decide) (.assoc (by decide) plain)

end Store
end Rfc6570
