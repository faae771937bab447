import Rfc6570.Proofs.FilledValues
import Rfc6570.Proofs.TemplateRendering
/-!
Expansion by the rules of RFC 6570, section 3.2.1: a variable at a time, from the table of the
operators. Four of them differ here: a prefix counts bytes and also cuts the items of a list, a
percent sign in a value is always encoded, literals are copied, and the keys of a map are encoded
as its items are. Main statement: `expand_eq_standard`, a template is expanded by these rules when
no value is empty and no map is cut.
-/

namespace Rfc6570

namespace Standard

/-- A list or a map without members is not defined. -/
def isDefined : PlainValue → Bool
  | .string _ => true
  | .list items => !items.isEmpty
  | .assoc entries => !entries.isEmpty

structure Style where
  first : Text
  separator : Char
  named : Bool
  ifEmpty : Text
  reservedToo : Bool

def style : Operator → Style
  | .simple => ⟨[], ',', false, [], false⟩
  | .reserved => ⟨[], ',', false, [], true⟩
  | .label => ⟨['.'], '.', false, [], false⟩
  | .path => ⟨['/'], '/', false, [], false⟩
  | .parameter => ⟨[';'], ';', true, [], false⟩
  | .query => ⟨['?'], '&', true, ['='], false⟩
  | .continuation => ⟨['&'], '&', true, ['='], false⟩
  | .fragment => ⟨['#'], ',', false, [], true⟩

/-- A text as it is written, cut to `limit` bytes unless that is zero. -/
def write (s : Style) (limit : Int) (t : Text) : Text :=
  PercentEncoding.encode s.reservedToo (if limit = 0 then t.utf8 else t.utf8.take limit.toNat)

def pair (s : Style) (name value : Text) : Text :=
  if value = [] then name ++ s.ifEmpty else name ++ '=' :: value

/-- A value, behind the name of its variable where the operator writes names. -/
def labelled (s : Style) (name value : Text) : Text :=
  if s.named then pair s name value else value

def expandTexts (s : Style) (v : Varspec) : PlainValue → Text
  | .string t => labelled s v.name (write s v.maxLength t)
  | .list items =>
    let values := items.map (write s v.maxLength)
    if v.explode then Text.join s.separator (values.map (labelled s v.name))
    else labelled s v.name (Text.join ',' values)
  | .assoc entries =>
    let values := entries.map fun e => (write s 0 e.1, write s 0 e.2)
    if v.explode then
      Text.join s.separator
        (values.map fun e => if s.named then pair s e.1 e.2 else e.1 ++ '=' :: e.2)
    else labelled s v.name (Text.join ',' (values.flatMap fun e => [e.1, e.2]))

/-- What a variable contributes, if it is defined. -/
def piece? (values : Text → Option PlainValue) (s : Style) (v : Varspec) : Option Text :=
  ((values v.name).filter isDefined).map (expandTexts s v)

/-- The operator's first text stands before the first defined variable, and its separator before
every later one. -/
def expandExpression (values : Text → Option PlainValue) (e : Expression) : Text :=
  let s := style e.operator
  match e.varspecs.filterMap (piece? values s) with
  | [] => []
  | piece :: later => s.first ++ piece ++ later.flatMap (s.separator :: ·)

def expandPart (values : Text → Option PlainValue) : Part → Text
  | .literal t => t
  | .expression e => expandExpression values e

def expand (env : Environment) (t : Template) : Text :=
  t.parts.flatMap (expandPart env.texts?)

theorem style_eq (op : Operator) : style op =
    ⟨op.first, op.separator, op.named, op.ifEmpty?.toList, op.keepsReserved⟩ := by
  cases op <;> rfl

theorem piece?_of_none {env : Environment} {v : Varspec} (h : env v.name = none) (s : Style) :
    piece? env.texts? s v = none := by
  rw [piece?, env.texts?_of_none h]
  rfl

theorem piece?_of_some {env : Environment} {v : Varspec} {given : Given} {texts : PlainValue}
    (h : env v.name = some given) (plain : given.plain = .ok texts)
    (defined : isDefined texts = true) (s : Style) :
    piece? env.texts? s v = some (expandTexts s v texts) := by
  rw [piece?, env.texts?_of_some h plain, Option.filter_some, if_pos defined, Option.map_some]

end Standard

/-- Neither a value is empty nor one of its items. -/
def PlainValue.IsSolid : PlainValue → Prop
  | .assoc entries => entries ≠ [] ∧ ∀ e ∈ entries, e.2 ≠ []
  | texts => texts.IsFilled

theorem PlainValue.IsSolid.isFilled {texts : PlainValue} (solid : texts.IsSolid) :
    texts.IsFilled := by
  cases texts with
  | assoc entries => exact solid.1
  | _ => exact solid

namespace Expression

open Standard

theorem write_eq_encode (op : Operator) {v : Varspec} (nonneg : 0 ≤ v.maxLength) (t : Text) :
    write (style op) v.maxLength t = encode op (kept v t) := by
  rw [style_eq, write, encode, kept, truncate]
  by_cases unlimited : v.maxLength = 0
  · rw [if_pos unlimited, if_pos unlimited]
  · have positive : 0 < v.maxLength := by omega
    rw [if_neg unlimited, if_neg unlimited, if_pos positive]

theorem write_whole (op : Operator) (t : Text) : write (style op) 0 t = encode op t.utf8 := by
  rw [style_eq, write, if_pos rfl, encode]

theorem labelled_eq (op : Operator) (v : Varspec) {value : Text} (filled : value ≠ []) :
    labelled (style op) v.name value = nameBefore op v false ++ value := by
  rw [style_eq, labelled, nameBefore, pair, if_neg filled]
  cases op.named <;> simp

theorem expandString_eq_standard (op : Operator) {v : Varspec} (nonneg : 0 ≤ v.maxLength) {t : Text}
    (filled : t ≠ []) :
    expandString op v t = labelled (style op) v.name (write (style op) v.maxLength t) := by
  have some := kept_ne_nil nonneg filled
  have written : write (style op) v.maxLength t ≠ [] := by
    rw [write_eq_encode op nonneg]
    exact encode_ne_nil op some
  have present : (kept v t).isEmpty = false := by simpa using some
  rw [labelled_eq op v written, write_eq_encode op nonneg, expandString]
  simp only [present]

theorem expandList_eq_standard (op : Operator) {v : Varspec} (nonneg : 0 ≤ v.maxLength)
    {items : List Text} (filled : items ≠ []) (solid : ∀ item ∈ items, item ≠ []) :
    expandList op v items = expandTexts (style op) v (.list items) := by
  have separator : (style op).separator = op.separator := by rw [style_eq]
  rw [expandList, if_neg (by simpa using filled), expandTexts]
  simp only [List.map_map]
  split
  · rw [separator]
    refine congrArg _ (List.map_congr_left fun item member => ?_)
    exact expandString_eq_standard op nonneg (solid item member)
  · have same : items.map (write (style op) v.maxLength) =
        items.map fun item => encode op (kept v item) :=
      List.map_congr_left fun item _ => write_eq_encode op nonneg item
    rw [same, labelled_eq]
    apply Text.join_ne_nil (by simpa using filled)
    intro word member
    obtain ⟨item, source, rfl⟩ := List.mem_map.mp member
    exact encode_ne_nil op (kept_ne_nil nonneg (solid item source))

theorem join_entries (op : Operator) (entries : List (Text × Text)) :
    Text.join ',' (entries.map (expandEntry op ',')) = Text.join ',' (entries.flatMap fun e =>
      [encode op e.1.utf8, encode op e.2.utf8]) := by
  cases entries with
  | nil => rfl
  | cons e rest =>
    rw [List.map_cons, Text.join_cons, List.flatMap_cons, List.cons_append, Text.join_cons]
    simp [expandEntry, List.flatMap_assoc, List.flatMap_map]

theorem expandAssoc_eq_standard (op : Operator) (v : Varspec) {entries : List (Text × Text)}
    (filled : entries ≠ []) (solid : ∀ e ∈ entries, e.2 ≠ []) :
    expandAssoc op v entries = expandTexts (style op) v (.assoc entries) := by
  have separator : (style op).separator = op.separator := by rw [style_eq]
  rw [expandAssoc, if_neg (by simpa using filled), expandTexts]
  simp only [List.map_map]
  split
  · rw [separator]
    refine congrArg _ (List.map_congr_left fun e member => ?_)
    have written : encode op e.2.utf8 ≠ [] :=
      encode_ne_nil op (Text.utf8_ne_nil (solid e member))
    simp [write_whole, pair, written, expandEntry]
  · have some : Text.join ',' (entries.flatMap fun e =>
        [encode op e.1.utf8, encode op e.2.utf8]) ≠ [] := by
      rw [← join_entries]
      apply Text.join_ne_nil (by simpa using filled)
      intro word member
      obtain ⟨e, source, rfl⟩ := List.mem_map.mp member
      simp [expandEntry]
    rw [join_entries, ← labelled_eq op v some, List.flatMap_map]
    simp [write_whole]

theorem expandPlain_eq_standard (op : Operator) {v : Varspec} (nonneg : 0 ≤ v.maxLength)
    {texts : PlainValue} (solid : texts.IsSolid) :
    expandPlain op v texts = expandTexts (style op) v texts ∧ isDefined texts = true := by
  cases texts with
  | string t => exact ⟨expandString_eq_standard op nonneg solid, rfl⟩
  | list items =>
    exact ⟨expandList_eq_standard op nonneg solid.1 solid.2, by simpa [isDefined] using solid.1⟩
  | assoc entries =>
    exact ⟨expandAssoc_eq_standard op v solid.1 solid.2, by simpa [isDefined] using solid.1⟩

variable {env : Environment} {vs : List Varspec}

theorem pieces_eq_standard (op : Operator) (nonneg : ∀ v ∈ vs, 0 ≤ v.maxLength)
    (solid : ∀ v ∈ vs, ∀ given, env v.name = some given →
      ∃ texts, given.plain = .ok texts ∧ texts.IsSolid)
    (whole : ∀ v ∈ vs, v.maxLength ≠ 0 → ∀ entries, env v.name ≠ some (.ok (.assoc entries))) :
    ∃ ps, pieces op env vs = .ok ps ∧ (∀ piece ∈ ps, piece ≠ []) ∧
      ps = vs.filterMap (piece? env.texts? (style op)) := by
  induction vs with
  | nil => exact ⟨[], rfl, by simp, rfl⟩
  | cons v rest ih =>
    obtain ⟨counted, nonneg⟩ := List.forall_mem_cons.mp nonneg
    obtain ⟨firm, solid⟩ := List.forall_mem_cons.mp solid
    obtain ⟨free, whole⟩ := List.forall_mem_cons.mp whole
    obtain ⟨ps, series, filled, same⟩ := ih nonneg solid whole
    rw [pieces]
    cases found : env v.name with
    | none =>
      refine ⟨ps, series, filled, ?_⟩
      rw [List.filterMap_cons_none (piece?_of_none found _), same]
    | some given =>
      obtain ⟨texts, plain, firm⟩ := firm given found
      have uncut : v.maxLength ≠ 0 → texts.isMap = false := by
        intro limited
        rw [Bool.eq_false_iff]
        intro map
        obtain ⟨entries, rfl⟩ := exists_assoc_of_plain plain map
        exact free limited entries found
      have expanded := expandValue_of_plain op plain uncut
      have written := expandPlain_ne_nil op counted firm.isFilled
      obtain ⟨standard, defined⟩ := expandPlain_eq_standard op counted firm
      refine ⟨expandPlain op v texts :: ps, by simp [expanded, series], ?_, ?_⟩
      · exact List.forall_mem_cons.mpr ⟨written, filled⟩
      · rw [List.filterMap_cons_some (piece?_of_some found plain defined _), same, standard]

theorem expand_eq_expandExpression {e : Expression} (nonneg : ∀ v ∈ e.varspecs, 0 ≤ v.maxLength)
    (solid : ∀ v ∈ e.varspecs, ∀ given, env v.name = some given →
      ∃ texts, given.plain = .ok texts ∧ texts.IsSolid)
    (whole : ∀ v ∈ e.varspecs, v.maxLength ≠ 0 →
      ∀ entries, env v.name ≠ some (.ok (.assoc entries))) :
    e.expand env = .ok (expandExpression env.texts? e) := by
  obtain ⟨ps, series, filled, same⟩ := pieces_eq_standard e.operator nonneg solid whole
  have present : e.expandPresent env = .ok (assemble e.operator ps, missing env e.varspecs) := by
    rw [expandPresent_eq, series]
    rfl
  rw [expand_eq_ok present, expandExpression, ← same]
  cases ps with
  | nil => rfl
  | cons piece later =>
    rw [assemble_of_solid e.operator (List.cons_ne_nil piece later) filled, Text.join_cons, style_eq,
      ← List.append_assoc]

end Expression

namespace Template

/-- A template expands as the rules say when its values and their items are not empty and no map is
cut. -/
theorem expand_eq_standard {env : Environment} {source : Text} {t : Template}
    (read : parse source = .ok t)
    (solid : ∀ name ∈ t.names, ∀ given, env name = some given →
      ∃ texts, given.plain = .ok texts ∧ texts.IsSolid)
    (whole : ∀ v ∈ t.varspecs, v.maxLength ≠ 0 →
      ∀ entries, env v.name ≠ some (.ok (.assoc entries))) :
    t.expand env = .ok (Standard.expand env t) := by
  have regular := (regular_of_parse read).1
  have each : ∀ p ∈ t.parts,
      p.expand env = .ok (Standard.expandPart env.texts? p) := by
    intro p member
    cases p with
    | literal u => rfl
    | expression e =>
      have among : ∀ v ∈ e.varspecs, v ∈ t.varspecs := fun v source =>
        List.mem_flatMap.mpr ⟨_, member, source⟩
      apply Expression.expand_eq_expandExpression
      · intro v source
        exact ((regular _ member).regular v source).nonneg
      · intro v source
        exact solid v.name (List.mem_map_of_mem (among v source))
      · intro v source
        exact whole v (among v source)
  rw [expand, Part.expandAll, mapM_ok_of_forall each, ok_bind, pure_eq_ok, Standard.expand,
    List.flatMap_def]

theorem expand_eq_standard_parameters : ∃ t, parse "x\x7b;a:1,b*,c\x7d\x7b#d,c*\x7d".toList = .ok t ∧
    t.expand (Assignment.environment [("a".toList, .datum (.text "\u00e9".toList)),
        ("b".toList, .datum (.list [.text "1".toList, .text "2".toList])),
        ("c".toList, .datum (.map [(.text "k".toList, .text "=".toList),
          (.text [], .text "%".toList)]))]) =
      .ok "x;a=%C3;b=1;b=2;c=k,%3D,,%25#k==,=%25".toList := by
  have read : parse "x\x7b;a:1,b*,c\x7d\x7b#d,c*\x7d".toList = .ok
      ⟨"x\x7b;a:1,b*,c\x7d\x7b#d,c*\x7d".toList, [.literal ['x'],
        .expression ⟨.parameter, [⟨['a'], false, 1⟩, ⟨['b'], true, 0⟩, ⟨['c'], false, 0⟩]⟩,
        .expression ⟨.fragment, [⟨['d'], false, 0⟩, ⟨['c'], true, 0⟩]⟩]⟩ := rfl
  refine ⟨_, read, (expand_eq_standard read ?_ ?_).trans rfl⟩
  · have text : PlainValue.IsSolid (.string ['\u00e9']) := List.cons_ne_nil _ _
    have series : PlainValue.IsSolid (.list [['1'], ['2']]) := ⟨by simp, by simp⟩
    have map : PlainValue.IsSolid (.assoc [(['k'], ['=']), ([], ['%'])]) := ⟨by simp, by simp⟩
    intro name member given found
    have among : name ∈ [['a'], ['b'], ['c'], ['d'], ['c']] := member
    simp only [List.mem_cons, List.not_mem_nil, or_false] at among
    rcases among with rfl | rfl | rfl | rfl | rfl <;> cases found
    · exact ⟨_, rfl, text⟩
    · exact ⟨_, rfl, series⟩
    · exact ⟨_, rfl, map⟩
    · exact ⟨_, rfl, map⟩
  · intro v member limited entries found
    have among : v ∈ [(⟨['a'], false, 1⟩ : Varspec), ⟨['b'], true, 0⟩, ⟨['c'], false, 0⟩,
      ⟨['d'], false, 0⟩, ⟨['c'], true, 0⟩] := member
    simp only [List.mem_cons, List.not_mem_nil, or_false] at among
    rcases among with rfl | rfl | rfl | rfl | rfl
    · cases found
    all_goals exact limited rfl

end Template
end Rfc6570
