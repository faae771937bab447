import Rfc6570.Proofs.FilledValues
import Rfc6570.Proofs.SpecializationFaults
import Rfc6570.Proofs.TemplateRendering
/-!
How a residual begins. It is opened by what the operator writes first when no variable has a value
and by the separator when one has, although its value may expand to nothing. Then the separator
stands behind no output. Main statement: `partialExpand_opening`.
-/

namespace Rfc6570

/-- A value that expands to nothing: an empty list or map and, where no name is written, an empty
text or a list of one empty item. -/
def PlainValue.IsSilent (op : Operator) : PlainValue → Prop
  | .string t => op.named = false ∧ t = []
  | .list items => items = [] ∨ op.named = false ∧ items = [[]]
  | .assoc entries => entries = []

namespace Expression

/-! ### Expansions to nothing -/

theorem encode_eq_nil {op : Operator} {data : List UInt8} : encode op data = [] ↔ data = [] := by
  constructor
  · intro nothing
    exact Classical.byContradiction fun filled => encode_ne_nil op filled nothing
  · rintro rfl
    rfl

theorem kept_eq_nil {v : Varspec} (nonneg : 0 ≤ v.maxLength) {t : Text} : kept v t = [] ↔ t = [] := by
  constructor
  · intro nothing
    exact Classical.byContradiction fun filled => kept_ne_nil nonneg filled nothing
  · rintro rfl
    simp [kept, truncate, Text.utf8]

theorem nameBefore_eq_nil {op : Operator} {v : Varspec} (named : v.name ≠ []) {isEmpty : Bool} :
    nameBefore op v isEmpty = [] ↔ op.named = false := by
  unfold nameBefore
  split <;> simp_all

theorem expandAssoc_eq_nil {op : Operator} {v : Varspec} {entries : List (Text × Text)} :
    expandAssoc op v entries = [] ↔ entries = [] := by
  constructor
  · intro nothing
    exact Classical.byContradiction fun filled => expandAssoc_ne_nil op v filled nothing
  · rintro rfl
    rfl

section

variable {op : Operator} {v : Varspec} (named : v.name ≠ []) (nonneg : 0 ≤ v.maxLength)
include named nonneg

theorem expandString_eq_nil {t : Text} : expandString op v t = [] ↔ op.named = false ∧ t = [] := by
  rw [expandString, List.append_eq_nil_iff, nameBefore_eq_nil named, encode_eq_nil,
    kept_eq_nil nonneg]

theorem expandList_eq_nil {items : List Text} : expandList op v items = [] ↔
    items = [] ∨ op.named = false ∧ items = [[]] := by
  cases items with
  | nil => exact iff_of_true rfl (Or.inl rfl)
  | cons item rest =>
    rw [expandList, if_neg (by simp)]
    split
    · simp [Text.join_eq_nil, expandString_eq_nil named nonneg, and_assoc]
    · simp [Text.join_eq_nil, nameBefore_eq_nil named, encode_eq_nil, kept_eq_nil nonneg]

theorem expandPlain_eq_nil {texts : PlainValue} :
    expandPlain op v texts = [] ↔ texts.IsSilent op := by
  cases texts with
  | string t => exact expandString_eq_nil named nonneg
  | list items => exact expandList_eq_nil named nonneg
  | assoc entries => exact expandAssoc_eq_nil

theorem expandValue_eq_nil {given : Given} {piece : Text} (h : expandValue op v given = .ok piece) :
    piece = [] ↔ ∃ texts, given.plain = .ok texts ∧ texts.IsSilent op := by
  obtain ⟨texts, plain, -, rfl⟩ := expandValue_eq_ok.mp h
  rw [expandPlain_eq_nil named nonneg, plain]
  simp

end

/-- An expression has no output when the value of each of its variables is silent. -/
theorem expandPresent_nil_iff {env : Environment} {e : Expression} {output : Text}
    {left : List Varspec} (regular : ∀ v ∈ e.varspecs, v.IsRegular)
    (h : e.expandPresent env = .ok (output, left)) :
    output = [] ↔ ∀ v ∈ e.varspecs, ∀ given, env v.name = some given →
      ∃ texts, given.plain = .ok texts ∧ texts.IsSilent e.operator := by
  obtain ⟨-, ps, found, rfl⟩ := expandPresent_ok h
  have silent {v : Varspec} (member : v ∈ e.varspecs) {given : Given} {piece : Text}
      (expanded : expandValue e.operator v given = .ok piece) :
      piece = [] ↔ ∃ texts, given.plain = .ok texts ∧ texts.IsSilent e.operator :=
    expandValue_eq_nil (Characters.isName_iff.mp (regular v member).named).1
      (regular v member).nonneg expanded
  rw [assemble_eq_nil]
  rw [pieces_eq_mapM] at found
  constructor
  · intro nothing v member given held
    obtain ⟨piece, among, expanded⟩ :=
      exists_ok_of_mapM_ok found (v, given) (mem_supplied.mpr ⟨member, held⟩)
    exact (silent member expanded).mp (nothing piece among)
  · intro quiet piece among
    obtain ⟨⟨v, given⟩, source, expanded⟩ := mem_of_mapM_ok found piece among
    obtain ⟨member, held⟩ := mem_supplied.mp source
    exact (silent member expanded).mpr (quiet v member given held)

/-! ### The character behind the brace -/

theorem separator_eq_first {op : Operator} :
    [op.separator] = op.first ↔ op ∈ [.label, .path, .parameter, .continuation] := by
  cases op <;> decide

theorem residual_of_absent {env : Environment} {e : Expression}
    (absent : ∀ v ∈ e.varspecs, env v.name = none) :
    e.residual (missing env e.varspecs) =
      '\x7b' :: e.operator.first ++ Text.join ',' ((missing env e.varspecs).map residualName)
        ++ ['\x7d'] := by
  rw [residual, if_pos (missing_length_iff.mpr absent)]

theorem residual_of_present {env : Environment} {e : Expression}
    (present : ∃ v ∈ e.varspecs, env v.name ≠ none) :
    e.residual (missing env e.varspecs) =
      '\x7b' :: [e.operator.separator] ++ Text.join ',' ((missing env e.varspecs).map residualName)
        ++ ['\x7d'] := by
  rw [residual, if_neg]
  intro whole
  obtain ⟨v, member, held⟩ := present
  exact held (missing_length_iff.mp whole v member)

end Expression

namespace Template

/-- What an expression leaves behind its output. It is opened by what the operator writes first
when no variable has a value, and by the separator when one has. So the separator stands behind all
output, and behind none too where every value is silent. -/
theorem partialExpand_opening {env : Environment} {source text : Text} {t : Template} {e : Expression}
    (read : parse source = .ok t) (member : .expression e ∈ t.parts)
    (lacking : ∃ v ∈ e.varspecs, env v.name = none) (h : e.partialExpand env = .ok text) :
    ∃ output opening, e.expand env = .ok output ∧
      text = output ++ '\x7b' :: opening ++ Text.join ','
        ((e.varspecs.filter fun v => (env v.name).isNone).map Expression.residualName) ++ ['\x7d'] ∧
      ((∀ v ∈ e.varspecs, env v.name = none) → opening = e.operator.first) ∧
      ((∃ v ∈ e.varspecs, env v.name ≠ none) → opening = [e.operator.separator]) ∧
      (output ≠ [] → opening = [e.operator.separator]) ∧
      (output = [] → (opening = e.operator.first ↔ (∀ v ∈ e.varspecs, env v.name = none) ∨
        e.operator ∈ [.label, .path, .parameter, .continuation])) ∧
      (output = [] ↔
        ∀ v ∈ e.varspecs, ∀ given, env v.name = some given →
          ∃ texts, given.plain = .ok texts ∧ texts.IsSilent e.operator) := by
  have regular := (regular_of_parse read).1 _ member
  obtain ⟨⟨output, left⟩, found, -⟩ := bind_ok h
  obtain ⟨rfl, -⟩ := Expression.expandPresent_ok found
  have some : Expression.missing env e.varspecs ≠ [] := by
    simpa [Expression.missing_eq_nil] using lacking
  have expanded := Expression.expand_eq_ok found
  have silent := Expression.expandPresent_nil_iff regular.regular found
  rw [Expression.partialExpand_eq_ok found, if_neg (by simpa using some), Except.ok.injEq] at h
  by_cases absent : ∀ v ∈ e.varspecs, env v.name = none
  · -- Without a value there is no output.
    have nothing : output = [] := silent.mpr fun v member given held => by
      rw [absent v member] at held
      cases held
    rw [Expression.residual_of_absent absent, ← List.append_assoc, ← List.append_assoc] at h
    refine ⟨output, e.operator.first, expanded, h.symm, fun _ => rfl, ?_, fun filled => absurd nothing filled,
      fun _ => iff_of_true rfl (Or.inl absent), silent⟩
    rintro ⟨v, source, held⟩
    exact absurd (absent v source) held
  · have present : ∃ v ∈ e.varspecs, env v.name ≠ none := by simpa using absent
    rw [Expression.residual_of_present present, ← List.append_assoc, ← List.append_assoc] at h
    refine ⟨output, [e.operator.separator], expanded, h.symm, fun none => absurd none absent,
      fun _ => rfl, fun _ => rfl, fun _ => ?_, silent⟩
    rw [Expression.separator_eq_first, or_iff_right absent]

theorem partialExpand_opening_query : ∃ t e, parse "x\x7b?a,b:3,c*\x7d".toList = .ok t ∧
    .expression e ∈ t.parts ∧ (∃ v ∈ e.varspecs, Environment.only ['a'] (.string []) v.name = none) ∧
    e.partialExpand (.only ['a'] (.string [])) = .ok "?a=\x7b&b,c*\x7d".toList ∧
    ∃ output opening, e.expand (.only ['a'] (.string [])) = .ok output ∧
      "?a=\x7b&b,c*\x7d".toList = output ++ '\x7b' :: opening ++ "b,c*".toList ++ ['\x7d'] ∧
      opening = ['&'] := by
  have read : parse "x\x7b?a,b:3,c*\x7d".toList = .ok ⟨"x\x7b?a,b:3,c*\x7d".toList, [.literal ['x'],
      .expression ⟨.query, [⟨['a'], false, 0⟩, ⟨['b'], false, 3⟩, ⟨['c'], true, 0⟩]⟩]⟩ := rfl
  have member := List.mem_cons_of_mem (Part.literal ['x']) (List.mem_singleton_self
    (Part.expression ⟨.query, [⟨['a'], false, 0⟩, ⟨['b'], false, 3⟩, ⟨['c'], true, 0⟩]⟩))
  have lacking : ∃ v ∈ [⟨['a'], false, 0⟩, ⟨['b'], false, 3⟩, ⟨['c'], true, 0⟩],
      Environment.only ['a'] (.string []) (Varspec.name v) = none :=
    ⟨_, List.mem_cons_of_mem _ List.mem_cons_self, rfl⟩
  have passed : Expression.partialExpand (.only ['a'] (.string []))
      ⟨.query, [⟨['a'], false, 0⟩, ⟨['b'], false, 3⟩, ⟨['c'], true, 0⟩]⟩ =
      .ok "?a=\x7b&b,c*\x7d".toList := rfl
  obtain ⟨output, opening, expanded, written, -, present, -⟩ :=
    partialExpand_opening read member lacking passed
  exact ⟨_, _, read, member, lacking, passed, output, opening, expanded, written,
    present ⟨_, List.mem_cons_self, by simp [Environment.only]⟩⟩

/-- Behind an empty list a query goes on as if it had begun. -/
theorem partialExpand_opening_silent : ∃ t e, parse "\x7b?a,b\x7d".toList = .ok t ∧
    .expression e ∈ t.parts ∧
    e.expand (Assignment.environment [("a".toList, .datum (.list []))]) = .ok [] ∧
    e.partialExpand (Assignment.environment [("a".toList, .datum (.list []))]) =
      .ok ([] ++ '\x7b' :: ['&'] ++ "b\x7d".toList) ∧
    e.operator.first = ['?'] :=
  ⟨⟨_, [.expression ⟨.query, [⟨['a'], false, 0⟩, ⟨['b'], false, 0⟩]⟩]⟩, _, rfl,
    List.mem_cons_self, rfl, rfl, rfl⟩

end Template
end Rfc6570
