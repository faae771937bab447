import Rfc6570.Proofs.ExpansionAlphabet
import Rfc6570.Proofs.FilledValues
import Rfc6570.Proofs.TemplateRendering
/-!
Reading the expansions of the operators that write names: split at the separator, cut at the first
equals sign, decoded. Main statement: `readPairs_expand`, the pairs that are read are the names,
keys and values that were given.
-/

namespace Rfc6570

namespace Text

def segments (sep : Char) (t : Text) : List Text :=
  (t.splitOn sep).filter fun segment => !segment.isEmpty

@[simp] theorem segments_nil (sep : Char) : segments sep [] = [] := by
  rw [segments, List.splitOn_nil]
  rfl

theorem segments_append (sep : Char) (t u : Text) :
    segments sep (t ++ sep :: u) = segments sep t ++ segments sep u := by
  rw [segments, List.splitOn_append_cons_self, List.filter_append]
  rfl

theorem segments_of_not_mem {sep : Char} {t : Text} (absent : sep ∉ t) (filled : t ≠ []) :
    segments sep t = [t] := by
  rw [segments, List.splitOn_eq_singleton absent]
  simp [filled]

theorem segments_join (sep : Char) (words : List Text) :
    segments sep (join sep words) = words.flatMap (segments sep) := by
  induction words with
  | nil => simp
  | cons first rest ih =>
    cases rest with
    | nil => simp
    | cons second rest => rw [join_cons_cons, segments_append, ih, ← List.flatMap_cons]

theorem segments_join_of_solid {sep : Char} {words : List Text} (absent : ∀ word ∈ words, sep ∉ word)
    (solid : ∀ word ∈ words, word ≠ []) : segments sep (join sep words) = words := by
  induction words with
  | nil => simp
  | cons first rest ih =>
    obtain ⟨free, absent⟩ := List.forall_mem_cons.mp absent
    obtain ⟨filled, solid⟩ := List.forall_mem_cons.mp solid
    have others := ih absent solid
    rw [segments_join] at others ⊢
    rw [List.flatMap_cons, others, segments_of_not_mem free filled]
    rfl

end Text

namespace Expression

/-! ### Reading -/

/-- The bytes on both sides of the first equals sign. -/
def readPair (segment : Text) : List UInt8 × List UInt8 :=
  let (key, value) := Text.cut '=' segment
  (PercentEncoding.decode key, PercentEncoding.decode value)

/-- The pairs that an expansion by `op` writes, behind what the operator writes first. -/
def readPairs (op : Operator) (output : Text) : List (List UInt8 × List UInt8) :=
  (Text.segments op.separator (output.drop op.first.length)).map readPair

/-- The pairs that a value gives: its texts with the name of the variable, or with their keys. -/
def pairsOf (v : Varspec) : PlainValue → List (List UInt8 × List UInt8)
  | .string t => [(PercentEncoding.decode v.name, t.utf8)]
  | .list items => items.map fun item => (PercentEncoding.decode v.name, item.utf8)
  | .assoc entries => entries.map fun e => (e.1.utf8, e.2.utf8)

def pairs (env : Environment) (vs : List Varspec) : List (List UInt8 × List UInt8) :=
  vs.flatMap fun v => (env.texts? v.name).elim [] (pairsOf v)

/-- A string, or a list or a map that is written item by item. -/
def IsPaired (v : Varspec) : PlainValue → Prop
  | .string _ => True
  | .list _ => v.explode = true
  | .assoc _ => v.explode = true

/-! ### Segments -/

/-- The characters of a segment besides triplets: the unreserved ones, and the equals sign. -/
def inSegment (c : Char) : Bool :=
  Characters.isLegal false c || c == '='

def segmentsOf (op : Operator) (v : Varspec) : PlainValue → List Text
  | .string t => [expandString op v t]
  | .list items => items.map (expandString op v)
  | .assoc entries => entries.map (expandEntry op '=')

variable {op : Operator} {v : Varspec}

theorem encode_of_named (names : op.named = true) (data : List UInt8) :
    encode op data = PercentEncoding.encode false data := by
  cases op <;> first | rfl | cases names

theorem separator_not_mem (names : op.named = true) {t : Text} (h : UriText inSegment t) :
    op.separator ∉ t := by
  have refused : inSegment op.separator = false ∧
      (Characters.hexDigit.contains op.separator || op.separator == '%') = false := by
    cases op <;> first | decide | cases names
  exact h.not_mem refused.1 refused.2

theorem inSegment_of_isLegal {c : Char} (h : Characters.isLegal false c = true) :
    inSegment c = true := by
  rw [inSegment, h, Bool.true_or]

theorem uriText_segment_encode (names : op.named = true) (data : List UInt8) :
    UriText inSegment (encode op data) := by
  rw [encode_of_named names]
  exact (UriText.encode false data).mono fun _ => inSegment_of_isLegal

theorem uriText_segment_name {name : Text} (named : Characters.isName name = true) :
    UriText inSegment name :=
  (UriText.of_nameTail (Characters.isName_iff.mp named).2).mono fun _ legal =>
    inSegment_of_isLegal (Characters.isLegal_of_varchar legal)

theorem equals_not_mem_encode (names : op.named = true) (data : List UInt8) :
    '=' ∉ encode op data := by
  rw [encode_of_named names]
  exact (UriText.encode false data).not_mem (by decide) (by decide)

theorem equals_not_mem_name {name : Text} (named : Characters.isName name = true) : '=' ∉ name :=
  Characters.not_mem_name named (by decide)

theorem decode_encode (op : Operator) (data : List UInt8) :
    PercentEncoding.decode (encode op data) = data :=
  PercentEncoding.decode_encode op.keepsReserved data

theorem expandString_of_filled (names : op.named = true) (unlimited : v.maxLength = 0) {t : Text}
    (filled : t.utf8 ≠ []) : expandString op v t = v.name ++ '=' :: encode op t.utf8 := by
  have some : t.utf8.isEmpty = false := by simpa using filled
  rw [expandString, kept_of_unlimited unlimited]
  simp [nameBefore, names, some]

theorem expandString_of_empty (names : op.named = true) (unlimited : v.maxLength = 0) {t : Text}
    (empty : t.utf8 = []) : expandString op v t = v.name ++ op.ifEmpty?.toList := by
  rw [expandString, kept_of_unlimited unlimited, empty]
  simp [nameBefore, names, encode, PercentEncoding.encode]

theorem ifEmpty?_eq (op : Operator) : op.ifEmpty? = none ∨ op.ifEmpty? = some '=' := by
  cases op <;> first | exact Or.inl rfl | exact Or.inr rfl

theorem readPair_expandString (names : op.named = true) (named : Characters.isName v.name = true)
    (unlimited : v.maxLength = 0) (t : Text) :
    readPair (expandString op v t) = (PercentEncoding.decode v.name, t.utf8) := by
  have bare := equals_not_mem_name named
  by_cases empty : t.utf8 = []
  · rw [expandString_of_empty names unlimited empty, empty]
    rcases ifEmpty?_eq op with nothing | sign
    · rw [nothing, Option.toList_none, List.append_nil, readPair, Text.cut_of_not_mem bare]
      rfl
    · rw [sign, Option.toList_some, readPair, Text.cut_append bare]
      rfl
  · rw [expandString_of_filled names unlimited empty, readPair, Text.cut_append bare]
    simp only [decode_encode]

theorem readPair_expandEntry (names : op.named = true) (entry : Text × Text) :
    readPair (expandEntry op '=' entry) = (entry.1.utf8, entry.2.utf8) := by
  rw [expandEntry, readPair, Text.cut_append (equals_not_mem_encode names _)]
  simp only [decode_encode]

theorem uriText_segment_string (names : op.named = true) (named : Characters.isName v.name = true)
    (unlimited : v.maxLength = 0) (t : Text) : UriText inSegment (expandString op v t) := by
  have name := uriText_segment_name named
  by_cases empty : t.utf8 = []
  · rw [expandString_of_empty names unlimited empty]
    rcases ifEmpty?_eq op with nothing | sign
    · rw [nothing]
      exact name.append .nil
    · rw [sign]
      exact name.append (.char rfl .nil)
  · rw [expandString_of_filled names unlimited empty]
    exact name.append (.char rfl (uriText_segment_encode names _))

theorem segmentsOf_solid (names : op.named = true) (named : Characters.isName v.name = true)
    (unlimited : v.maxLength = 0) (texts : PlainValue) :
    ∀ segment ∈ segmentsOf op v texts, segment ≠ [] ∧ op.separator ∉ segment := by
  have string (t : Text) : expandString op v t ≠ [] ∧ op.separator ∉ expandString op v t := by
    refine ⟨?_, separator_not_mem names (uriText_segment_string names named unlimited t)⟩
    rw [expandString, nameBefore, if_pos names, List.append_assoc]
    exact List.append_ne_nil_of_left_ne_nil (Characters.isName_iff.mp named).1 _
  intro segment member
  cases texts with
  | string t =>
    rw [segmentsOf, List.mem_singleton] at member
    rw [member]
    exact string t
  | list items =>
    obtain ⟨item, -, rfl⟩ := List.mem_map.mp member
    exact string item
  | assoc entries =>
    obtain ⟨entry, -, rfl⟩ := List.mem_map.mp member
    refine ⟨by simp [expandEntry], separator_not_mem names ?_⟩
    exact (uriText_segment_encode names _).append (.char rfl (uriText_segment_encode names _))

theorem map_readPair_segmentsOf (names : op.named = true) (named : Characters.isName v.name = true)
    (unlimited : v.maxLength = 0) (texts : PlainValue) :
    (segmentsOf op v texts).map readPair = pairsOf v texts := by
  cases texts with
  | string t => exact congrArg (· :: []) (readPair_expandString names named unlimited t)
  | list items =>
    rw [segmentsOf, List.map_map, pairsOf]
    exact List.map_congr_left fun item _ => readPair_expandString names named unlimited item
  | assoc entries =>
    rw [segmentsOf, List.map_map, pairsOf]
    exact List.map_congr_left fun entry _ => readPair_expandEntry names entry

/-! ### Pieces -/

theorem expandPlain_of_paired (op : Operator) {texts : PlainValue} (paired : IsPaired v texts) :
    expandPlain op v texts = Text.join op.separator (segmentsOf op v texts) := by
  cases texts with
  | string t => rw [segmentsOf, Text.join_singleton, expandPlain]
  | list items =>
    have exploded : v.explode = true := paired
    rw [expandPlain, expandList, if_pos exploded, segmentsOf]
    cases items <;> rfl
  | assoc entries =>
    have exploded : v.explode = true := paired
    rw [expandPlain, expandAssoc, if_pos exploded, segmentsOf]
    cases entries <;> rfl

theorem pieces_paired {env : Environment} {vs : List Varspec} (names : op.named = true)
    (named : ∀ v ∈ vs, Characters.isName v.name = true) (unlimited : ∀ v ∈ vs, v.maxLength = 0)
    (paired : ∀ v ∈ vs, ∀ given, env v.name = some given →
      ∃ texts, given.plain = .ok texts ∧ IsPaired v texts) :
    ∃ ps, pieces op env vs = .ok ps ∧
      (ps.flatMap (Text.segments op.separator)).map readPair = pairs env vs := by
  induction vs with
  | nil => exact ⟨[], rfl, rfl⟩
  | cons v rest ih =>
    obtain ⟨name, named⟩ := List.forall_mem_cons.mp named
    obtain ⟨whole, unlimited⟩ := List.forall_mem_cons.mp unlimited
    obtain ⟨first, paired⟩ := List.forall_mem_cons.mp paired
    obtain ⟨ps, series, others⟩ := ih named unlimited paired
    rw [pieces, pairs, List.flatMap_cons]
    cases found : env v.name with
    | none =>
      rw [env.texts?_of_none found]
      exact ⟨ps, series, others⟩
    | some given =>
      obtain ⟨texts, plain, itemwise⟩ := first given found
      have expanded := expandValue_of_plain op plain (absurd whole)
      rw [expandPlain_of_paired op itemwise] at expanded
      have solid := segmentsOf_solid names name whole texts
      have cut : Text.segments op.separator (Text.join op.separator (segmentsOf op v texts)) =
          segmentsOf op v texts :=
        Text.segments_join_of_solid (fun segment member => (solid segment member).2)
          fun segment member => (solid segment member).1
      refine ⟨Text.join op.separator (segmentsOf op v texts) :: ps, by simp [expanded, series], ?_⟩
      rw [List.flatMap_cons, List.map_append, others, env.texts?_of_some found plain,
        Option.elim_some, cut, map_readPair_segmentsOf names name whole]
      rfl

/-- The pieces that are empty give no segment, so dropping them at the front loses nothing. -/
theorem readPairs_assemble (op : Operator) (ps : List Text) :
    readPairs op (assemble op ps) = (ps.flatMap (Text.segments op.separator)).map readPair := by
  have dropped : (ps.dropWhile List.isEmpty).flatMap (Text.segments op.separator) =
      ps.flatMap (Text.segments op.separator) := by
    induction ps with
    | nil => rfl
    | cons first rest ih =>
      cases first with
      | nil => rw [List.dropWhile_cons_of_pos rfl, ih, List.flatMap_cons, Text.segments_nil,
          List.nil_append]
      | cons c first => rw [List.dropWhile_cons_of_neg (by simp)]
  rw [readPairs, assemble, ← dropped, ← Text.segments_join]
  cases Text.join op.separator (ps.dropWhile List.isEmpty) with
  | nil => simp
  | cons c written => simp

theorem first_isPrefix_assemble (op : Operator) (ps : List Text) :
    assemble op ps = [] ∨ op.first <+: assemble op ps := by
  unfold assemble
  simp only
  split
  · exact Or.inl rfl
  · exact Or.inr (List.prefix_append _ _)

/-- An expansion with names is read back as the pairs that were given. -/
theorem readPairs_expand {env : Environment} {source : Text} {t : Template}
    (read : Template.parse source = .ok t) {e : Expression} (member : .expression e ∈ t.parts)
    (names : e.operator ∈ [.parameter, .query, .continuation])
    (unlimited : ∀ v ∈ e.varspecs, v.maxLength = 0)
    (paired : ∀ v ∈ e.varspecs, ∀ given, env v.name = some given →
      ∃ texts, given.plain = .ok texts ∧ IsPaired v texts) :
    ∃ output, e.expand env = .ok output ∧ (output = [] ∨ e.operator.first <+: output) ∧
      readPairs e.operator output = pairs env e.varspecs := by
  have regular := (Template.regular_of_parse read).1 _ member
  have writes : e.operator.named = true := by
    simp only [List.mem_cons, List.not_mem_nil, or_false] at names
    rcases names with same | same | same <;> rw [same] <;> rfl
  obtain ⟨ps, series, given⟩ := pieces_paired writes
    (fun v source => (regular.regular v source).named) unlimited paired
  have present : e.expandPresent env = .ok (assemble e.operator ps, missing env e.varspecs) := by
    rw [expandPresent_eq, series]
    rfl
  refine ⟨_, expand_eq_ok present, first_isPrefix_assemble e.operator ps, ?_⟩
  rw [readPairs_assemble, given]

theorem readPairs_expand_query : ∃ (t : Template) (e : Expression) (output : Text),
    Template.parse "\x7b?a,b*,c*\x7d".toList = .ok t ∧ t.parts = [.expression e] ∧
    e.expand (Assignment.environment [("a".toList, .datum (.text "&=".toList)),
        ("b".toList, .datum (.list [.text [], .int 1])),
        ("c".toList, .datum (.map [(.text "=".toList, .text "\u00e9".toList)]))]) = .ok output ∧
    output = "?a=%26%3D&b=&b=1&%3D=%C3%A9".toList ∧
    readPairs e.operator output =
      [([97], [38, 61]), ([98], []), ([98], [49]), ([61], [0xC3, 0xA9])] := by
  have read : Template.parse "\x7b?a,b*,c*\x7d".toList = .ok ⟨"\x7b?a,b*,c*\x7d".toList,
      [.expression ⟨.query, [⟨['a'], false, 0⟩, ⟨['b'], true, 0⟩, ⟨['c'], true, 0⟩]⟩]⟩ := rfl
  have paired : ∀ v ∈ [(⟨['a'], false, 0⟩ : Varspec), ⟨['b'], true, 0⟩, ⟨['c'], true, 0⟩],
      ∀ given, Assignment.environment [("a".toList, .datum (.text "&=".toList)),
        ("b".toList, .datum (.list [.text [], .int 1])),
        ("c".toList, .datum (.map [(.text "=".toList, .text "\u00e9".toList)]))] v.name =
          some given →
      ∃ texts, given.plain = .ok texts ∧ IsPaired v texts := by
    simp only [List.forall_mem_cons]
    refine ⟨?_, ?_, ?_, List.forall_mem_nil _⟩
    all_goals
      intro given found
      cases found
    · exact ⟨_, rfl, trivial⟩
    · exact ⟨_, rfl, rfl⟩
    · exact ⟨_, rfl, rfl⟩
  obtain ⟨output, expanded, -, pairs⟩ :=
    readPairs_expand read List.mem_cons_self (by decide) (by simp) paired
  refine ⟨_, _, output, read, rfl, expanded, ?_, pairs.trans rfl⟩
  cases expanded
  rfl

end Expression
end Rfc6570
