import Rfc6570.Proofs.AssocWrites
import Rfc6570.Proofs.NamedPairs
/-!
An exploded map beside its keys written out as variables, for the operators that write names. Both
expansions join the pairs of key and item; they differ in what stands behind the key of an empty
item. The map always has an equals sign there, the variables have what the operator says. Main
statement: `expand_exploded_eq_iff`.
-/

namespace Rfc6570

namespace Characters

def IsPlain (t : Text) : Prop :=
  t ≠ [] ∧ ∀ c ∈ t, varchar.contains c = true

theorem isNameTail_of_varchar {t : Text} (plain : ∀ c ∈ t, varchar.contains c = true) :
    isNameTail t = true := by
  induction t with
  | nil => rfl
  | cons c rest ih =>
    obtain ⟨first, plain⟩ := List.forall_mem_cons.mp plain
    rw [isNameTail_cons first, ih plain]

theorem IsPlain.isName {t : Text} (plain : IsPlain t) : isName t = true :=
  isName_iff.mpr ⟨plain.1, isNameTail_of_varchar plain.2⟩

end Characters

namespace PercentEncoding

theorem encode_utf8Char {reservedToo : Bool} {c : Char} (legal : Characters.isLegal reservedToo c = true) :
    encode reservedToo (String.utf8EncodeChar c) = [c] := by
  have small : c.val.toNat < 128 := Characters.toNat_lt_of_isLegal legal
  have byte : (UInt8.ofNat c.val.toNat).toNat = c.toNat := by
    rw [UInt8.toNat_ofNat']
    exact Nat.mod_eq_of_lt (by omega)
  have itself : encodeByte reservedToo (UInt8.ofNat c.val.toNat) = [c] := by
    rw [encodeByte, byte, Char.ofNat_toNat, if_pos legal]
  rw [String.utf8EncodeChar, if_pos (by omega), encode, List.flatMap_singleton, itself]

theorem encode_utf8_of_legal {reservedToo : Bool} {t : Text}
    (legal : ∀ c ∈ t, Characters.isLegal reservedToo c = true) : encode reservedToo t.utf8 = t := by
  induction t with
  | nil => rfl
  | cons c rest ih =>
    obtain ⟨first, legal⟩ := List.forall_mem_cons.mp legal
    rw [Text.utf8, List.flatMap_cons, encode, List.flatMap_append, ← encode, ← encode, ← Text.utf8,
      encode_utf8Char first, ih legal, List.singleton_append]

end PercentEncoding

namespace Expression

def exploded (op : Operator) (name : Text) : Expression :=
  ⟨op, [⟨name, true, 0⟩]⟩

def writtenOut (op : Operator) (names : List Text) : Expression :=
  ⟨op, names.map fun name => ⟨name, false, 0⟩⟩

/-- A key with its item; `ifEmpty` stands behind the key of an empty one. -/
def pairText (op : Operator) (ifEmpty : Text) (e : Text × Text) : Text :=
  e.1 ++ if e.2 = [] then ifEmpty else '=' :: encode op e.2.utf8

/-- What an operator that writes names makes of pairs. -/
def pairsText (op : Operator) (ifEmpty : Text) (entries : List (Text × Text)) : Text :=
  op.first ++ Text.join op.separator (entries.map (pairText op ifEmpty))

variable {op : Operator} {e : Text × Text}

/-! ### Pairs -/

theorem encode_plain (names : op.named = true) {key : Text} (plain : Characters.IsPlain key) :
    encode op key.utf8 = key := by
  rw [encode_of_named names]
  exact PercentEncoding.encode_utf8_of_legal fun c member =>
    Characters.isLegal_of_varchar (plain.2 c member)

theorem utf8_eq_nil {t : Text} : t.utf8 = [] ↔ t = [] :=
  ⟨fun empty => Decidable.of_not_not fun filled => Text.utf8_ne_nil filled empty,
    fun empty => by rw [empty]; rfl⟩

theorem expandEntry_eq (names : op.named = true) (plain : Characters.IsPlain e.1) :
    expandEntry op '=' e = pairText op ['='] e := by
  rw [expandEntry, encode_plain names plain, pairText]
  split
  · rename_i empty
    rw [empty]
    rfl
  · rfl

theorem expandString_eq (names : op.named = true) (e : Text × Text) :
    expandString op ⟨e.1, false, 0⟩ e.2 = pairText op op.ifEmpty?.toList e := by
  rw [pairText]
  split
  · rename_i empty
    exact expandString_of_empty names rfl (utf8_eq_nil.mpr empty)
  · rename_i filled
    exact expandString_of_filled names rfl (mt utf8_eq_nil.mp filled)

theorem pairText_ne_nil (plain : Characters.IsPlain e.1) (op : Operator) (ifEmpty : Text) :
    pairText op ifEmpty e ≠ [] :=
  List.append_ne_nil_of_left_ne_nil plain.1 _

theorem separator_not_mem_pairText (names : op.named = true) (plain : Characters.IsPlain e.1)
    {ifEmpty : Text} (written : UriText inSegment ifEmpty) : op.separator ∉ pairText op ifEmpty e := by
  refine separator_not_mem names ((uriText_segment_name plain.isName).append ?_)
  split
  · exact written
  · exact .char rfl (uriText_segment_encode names _)

theorem uriText_ifEmpty (op : Operator) : UriText inSegment op.ifEmpty?.toList := by
  rcases ifEmpty?_eq op with nothing | sign
  · rw [nothing]
    exact .nil
  · rw [sign]
    exact .char rfl .nil

/-- Joined pairs are equal only one by one, and then only an empty item can make a difference. -/
theorem pairsText_eq_iff (names : op.named = true) {entries : List (Text × Text)}
    (plain : ∀ e ∈ entries, Characters.IsPlain e.1) :
    pairsText op ['='] entries = pairsText op op.ifEmpty?.toList entries ↔
      op.ifEmpty? = some '=' ∨ ∀ e ∈ entries, e.2 ≠ [] := by
  -- No pair has a separator in it, so a joined text can be cut into its pairs again.
  have cut {ifEmpty : Text} (written : UriText inSegment ifEmpty) :
      Text.segments op.separator (Text.join op.separator (entries.map (pairText op ifEmpty))) =
        entries.map (pairText op ifEmpty) := by
    apply Text.segments_join_of_solid
    · exact List.forall_mem_map.mpr fun e member =>
        separator_not_mem_pairText names (plain e member) written
    · exact List.forall_mem_map.mpr fun e member => pairText_ne_nil (plain e member) op ifEmpty
  constructor
  · intro same
    rcases ifEmpty?_eq op with nothing | sign
    · refine Or.inr fun e member empty => ?_
      have joined := congrArg (Text.segments op.separator) (List.append_cancel_left same)
      rw [cut (.char rfl .nil), cut (uriText_ifEmpty op)] at joined
      have alike := List.map_inj_left.mp joined e member
      rw [pairText, pairText, if_pos empty, if_pos empty, nothing] at alike
      simp at alike
    · exact Or.inl sign
  · rintro (sign | filled)
    · rw [sign]
      rfl
    · refine congrArg (op.first ++ Text.join op.separator ·) (List.map_congr_left fun e member => ?_)
      rw [pairText, pairText, if_neg (filled e member), if_neg (filled e member)]

/-! ### Expansions -/

variable {env : Environment} {name : Text} {entries : List (Text × Text)}

theorem expand_of_pieces {e : Expression} {ps : List Text} (filled : ps ≠ [])
    (solid : ∀ piece ∈ ps, piece ≠ []) (found : pieces e.operator env e.varspecs = .ok ps) :
    e.expand env = .ok (e.operator.first ++ Text.join e.operator.separator ps) := by
  have present : e.expandPresent env = .ok (assemble e.operator ps, missing env e.varspecs) := by
    rw [expandPresent_eq, found]
    rfl
  rw [expand_eq_ok present, assemble_of_solid e.operator filled solid]

theorem expand_exploded (names : op.named = true) (filled : entries ≠ [])
    (plain : ∀ e ∈ entries, Characters.IsPlain e.1)
    (held : env.texts? name = some (.assoc entries)) :
    (exploded op name).expand env = .ok (pairsText op ['='] entries) := by
  have written : Text.join op.separator (entries.map (pairText op ['='])) ≠ [] := by
    apply Text.join_ne_nil (by simpa using filled)
    exact List.forall_mem_map.mpr fun e member => pairText_ne_nil (plain e member) op ['=']
  have pairs : entries.map (expandEntry op '=') = entries.map (pairText op ['=']) :=
    List.map_congr_left fun e member => expandEntry_eq names (plain e member)
  have piece : expandAssoc op ⟨name, true, 0⟩ entries =
      Text.join op.separator (entries.map (pairText op ['='])) := by
    rw [expandAssoc, if_neg (by simpa using filled), if_pos rfl, pairs]
  obtain ⟨given, here, texts⟩ := Environment.exists_given held
  have expanded : expandValue op ⟨name, true, 0⟩ given =
      .ok (Text.join op.separator (entries.map (pairText op ['=']))) := by
    rw [expandValue_of_plain op texts (absurd rfl), expandPlain, piece]
  have found : pieces op env (exploded op name).varspecs =
      .ok [Text.join op.separator (entries.map (pairText op ['=']))] := by
    rw [exploded, pieces, here]
    simp only [expanded, ok_bind, pieces, pure_eq_ok]
  rw [expand_of_pieces (List.cons_ne_nil _ _) (by simpa using written) found, Text.join_singleton]
  rfl

theorem pieces_writtenOut (names : op.named = true)
    (held : ∀ e ∈ entries, env.texts? e.1 = some (.string e.2)) :
    pieces op env (entries.map fun e => ⟨e.1, false, 0⟩) =
      .ok (entries.map (pairText op op.ifEmpty?.toList)) := by
  induction entries with
  | nil => rfl
  | cons e rest ih =>
    obtain ⟨first, held⟩ := List.forall_mem_cons.mp held
    obtain ⟨given, here, texts⟩ := Environment.exists_given first
    have expanded : expandValue op ⟨e.1, false, 0⟩ given =
        .ok (pairText op op.ifEmpty?.toList e) := by
      rw [expandValue_of_plain op texts (absurd rfl), expandPlain, expandString_eq names]
    rw [List.map_cons, pieces, here]
    simp only [expanded, ok_bind, ih held, pure_eq_ok, List.map_cons]

theorem expand_writtenOut (names : op.named = true) (filled : entries ≠ [])
    (plain : ∀ e ∈ entries, Characters.IsPlain e.1)
    (held : ∀ e ∈ entries, env.texts? e.1 = some (.string e.2)) :
    (writtenOut op (Assoc.keys entries)).expand env =
      .ok (pairsText op op.ifEmpty?.toList entries) := by
  have found : pieces op env (writtenOut op (Assoc.keys entries)).varspecs =
      .ok (entries.map (pairText op op.ifEmpty?.toList)) := by
    rw [writtenOut, Assoc.keys, List.map_map]
    exact pieces_writtenOut names held
  refine expand_of_pieces (by simpa using filled) ?_ found
  exact List.forall_mem_map.mpr fun e member => pairText_ne_nil (plain e member) op _

end Expression

/-! ### Templates -/

namespace Template

theorem expand_single (text : Text) (e : Expression) (env : Environment) :
    expand env ⟨text, [.expression e]⟩ = e.expand env := by
  rw [expand, Part.expandAll, List.mapM_cons, Part.expand]
  cases e.expand env with
  | error f => rfl
  | ok output => simp

/-- The text of a regular expression is a template that expands as the expression does. -/
theorem exists_parse_render {e : Expression} (regular : e.IsRegular) :
    ∃ t, parse e.render = .ok t ∧ ∀ env, t.expand env = e.expand env := by
  have alone : Part.renderAll [.expression e] = e.render :=
    List.flatMap_singleton Part.render (.expression e)
  have read := @parse_renderAll [.expression e] (List.forall_mem_singleton.mpr regular) trivial
  rw [alone] at read
  exact ⟨_, read, expand_single e.render e⟩

end Template

namespace Expression

theorem render_exploded (op : Operator) (name : Text) :
    (exploded op name).render = '\x7b' :: op.key ++ name ++ ['*', '\x7d'] := by
  simp [exploded, render, Varspec.render]

theorem render_writtenOut (op : Operator) (names : List Text) :
    (writtenOut op names).render = '\x7b' :: op.key ++ Text.join ',' names ++ ['\x7d'] := by
  have bare : names.map (Varspec.render ∘ fun name => ⟨name, false, 0⟩) = names :=
    (List.map_congr_left fun name _ => by simp [Varspec.render]).trans (List.map_id names)
  rw [render, writtenOut, List.map_map, bare]

theorem isRegular_exploded {op : Operator} (names : op.named = true) {name : Text}
    (named : Characters.isName name = true) : (exploded op name).IsRegular where
  filled := List.cons_ne_nil _ _
  named := List.forall_mem_singleton.mpr named
  bare simple := by
    rw [show op = .simple from simple] at names
    cases names
  regular := List.forall_mem_singleton.mpr ⟨named, Int.le_refl 0, by simp, fun _ => rfl⟩

theorem isRegular_writtenOut {op : Operator} (writes : op.named = true) {names : List Text}
    (filled : names ≠ []) (named : ∀ name ∈ names, Characters.isName name = true) :
    (writtenOut op names).IsRegular where
  filled := by simpa [writtenOut] using filled
  named := List.forall_mem_map.mpr named
  bare simple := by
    rw [show op = .simple from simple] at writes
    cases writes
  regular := List.forall_mem_map.mpr fun name member =>
    ⟨named name member, Int.le_refl 0, by simp, fun _ => rfl⟩

end Expression

namespace Assignment

def ofMap (name : Text) (entries : List (Text × Text)) : Assignment :=
  [(name, .datum (.map (entries.map fun e => (.text e.1, .text e.2))))]

def ofPairs (entries : List (Text × Text)) : Assignment :=
  entries.map fun e => (e.1, .datum (.text e.2))

variable {entries : List (Text × Text)}

theorem plain_ofEntries (distinct : (Assoc.keys entries).Nodup) :
    Given.plain (Value.ofEntries (entries.map fun e => (.text e.1, .text e.2))) =
      .ok (.assoc entries) := by
  have named : (entries.map fun e => (Datum.text e.1, Datum.text e.2)).mapM Value.namedEntry =
      .ok (entries.map fun e => (e.1.raw, .text e.2)) := by
    rw [List.mapM_map]
    exact mapM_ok_of_forall fun e _ => rfl
  have whole := Assoc.ofList_of_nodup (Assoc.nodup_keys_map (fun _ _ => Text.raw_inj.mp)
    (fun item : Text => Datum.text item) distinct)
  have texts : (entries.map fun e => (e.1.raw, Datum.text e.2)).mapM Value.plainEntry =
      .ok entries :=
    mapM_map_ok fun e _ => by simp [Value.plainEntry]
  rw [Value.ofEntries, named, ok_bind, whole, Given.plain, pure_eq_ok, ok_bind, Value.plain, texts]
  rfl

theorem texts?_ofMap (distinct : (Assoc.keys entries).Nodup) (name : Text) :
    (ofMap name entries).environment.texts? name = some (.assoc entries) := by
  refine Environment.texts?_of_some ?_ (plain_ofEntries distinct)
  rw [environment, ofMap, Assoc.find?_cons, if_pos (beq_self_eq_true _), Option.bind_some]
  rfl

theorem texts?_ofPairs (distinct : (Assoc.keys entries).Nodup) {e : Text × Text}
    (member : e ∈ entries) : (ofPairs entries).environment.texts? e.1 = some (.string e.2) := by
  have found := Assoc.find?_of_mem
    (Assoc.nodup_keys_map (fun _ _ => Text.raw_inj.mp)
      (fun item : Text => Supply.datum (.text item)) distinct) (List.mem_map_of_mem member)
  have plain : Given.plain (.ok (.string e.2)) = .ok (.string e.2) := Value.plain_string e.2
  refine Environment.texts?_of_some ?_ plain
  rw [environment, ofPairs, found]
  rfl

end Assignment

namespace Template

/-- An exploded map and its keys written out as variables expand to pairs of keys and items. They
expand alike unless an item is empty and the operator is the one that writes no equals sign behind
an empty variable. -/
theorem expand_exploded_eq_iff {op : Operator} (names : op ∈ [.parameter, .query, .continuation])
    {name : Text} (named : Characters.isName name = true) {entries : List (Text × Text)}
    (filled : entries ≠ []) (distinct : (Assoc.keys entries).Nodup)
    (plain : ∀ e ∈ entries, Characters.IsPlain e.1) :
    ∃ t u : Template, parse ('\x7b' :: op.key ++ name ++ ['*', '\x7d']) = .ok t ∧
      parse ('\x7b' :: op.key ++ Text.join ',' (Assoc.keys entries) ++ ['\x7d']) = .ok u ∧
      t.expand (Assignment.ofMap name entries).environment =
        .ok (Expression.pairsText op ['='] entries) ∧
      u.expand (Assignment.ofPairs entries).environment =
        .ok (Expression.pairsText op op.ifEmpty?.toList entries) ∧
      (t.expand (Assignment.ofMap name entries).environment =
          u.expand (Assignment.ofPairs entries).environment ↔
        op = .parameter → ∀ e ∈ entries, e.2 ≠ []) := by
  have writes : op.named = true ∧ (op.ifEmpty? = some '=' ↔ op ≠ .parameter) := by
    simp only [List.mem_cons, List.not_mem_nil, or_false] at names
    rcases names with rfl | rfl | rfl <;> decide
  have keys : ∀ key ∈ Assoc.keys entries, Characters.isName key = true :=
    List.forall_mem_map.mpr fun e member => (plain e member).isName
  have left := Expression.expand_exploded writes.1 filled plain
    (Assignment.texts?_ofMap distinct name)
  have right := Expression.expand_writtenOut writes.1 filled plain fun e member =>
    Assignment.texts?_ofPairs distinct member
  obtain ⟨t, read, same⟩ := exists_parse_render (Expression.isRegular_exploded writes.1 named)
  obtain ⟨u, readOut, sameOut⟩ := exists_parse_render
    (Expression.isRegular_writtenOut writes.1 (by simpa [Assoc.keys] using filled) keys)
  rw [Expression.render_exploded] at read
  rw [Expression.render_writtenOut] at readOut
  refine ⟨t, u, read, readOut, (same _).trans left, (sameOut _).trans right, ?_⟩
  rw [same, sameOut, left, right, Except.ok.injEq, Expression.pairsText_eq_iff writes.1 plain,
    writes.2]
  exact Decidable.imp_iff_not_or.symm

theorem expand_exploded_eq_iff_query : ∃ t u : Template,
    parse "\x7b?m*\x7d".toList = .ok t ∧ parse "\x7b?a,.b\x7d".toList = .ok u ∧
    t.expand (Assignment.ofMap ['m'] [(['a'], []), (['.', 'b'], ['&'])]).environment =
      .ok "?a=&.b=%26".toList ∧
    u.expand (Assignment.ofPairs [(['a'], []), (['.', 'b'], ['&'])]).environment =
      .ok "?a=&.b=%26".toList := by
  have plain : ∀ e ∈ [(['a'], ([] : Text)), (['.', 'b'], ['&'])], Characters.IsPlain e.1 := by
    simp only [List.forall_mem_cons]
    exact ⟨⟨by simp, List.all_eq_true.mp rfl⟩, ⟨by simp, List.all_eq_true.mp rfl⟩, List.forall_mem_nil _⟩
  obtain ⟨t, u, read, readOut, left, -, same⟩ :=
    @expand_exploded_eq_iff .query (by decide) ['m'] (by decide) [(['a'], []), (['.', 'b'], ['&'])]
      (by simp) (by simp [Assoc.keys]) plain
  have alike := same.mpr fun other => by cases other
  exact ⟨t, u, read, readOut, left, alike.symm.trans left⟩

/-- The two expansions of an empty item differ for the operator of path parameters. -/
theorem expand_exploded_empty : ∃ t u : Template,
    parse "\x7b;m*\x7d".toList = .ok t ∧ parse "\x7b;k\x7d".toList = .ok u ∧
    t.expand (Assignment.ofMap ['m'] [(['k'], [])]).environment = .ok ";k=".toList ∧
    u.expand (Assignment.ofPairs [(['k'], [])]).environment = .ok ";k".toList :=
  ⟨⟨_, [.expression ⟨.parameter, [⟨['m'], true, 0⟩]⟩]⟩,
    ⟨_, [.expression ⟨.parameter, [⟨['k'], false, 0⟩]⟩]⟩, rfl, rfl, rfl, rfl⟩

end Template
end Rfc6570
