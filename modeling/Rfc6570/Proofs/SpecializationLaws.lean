import Rfc6570.Proofs.SpecializationFaults
/-!
What a pass leaves stands for what it came from: `specialize_laws`. Expanding it with no values
gives the expansion, a further pass with no values changes nothing, and it is free of expressions
exactly when every variable had a value.
-/

namespace Rfc6570

namespace Expression

theorem expandPresent_empty (e : Expression) : e.expandPresent .empty = .ok ([], e.varspecs) := by
  rw [expandPresent_eq, pieces_of_forall _ fun _ _ => rfl, missing_of_forall fun _ _ => rfl]
  rfl

theorem expand_empty (e : Expression) : e.expand .empty = .ok [] :=
  expand_eq_ok (expandPresent_empty e)

theorem partialExpand_empty {e : Expression} (filled : e.varspecs ≠ []) :
    e.partialExpand .empty = .ok (e.residual e.varspecs) := by
  rw [partialExpand_eq_ok (expandPresent_empty e)]
  simp [filled]

/-- Neither the operator nor a prefix is lost when nothing has a value. -/
def Steady (e : Expression) : Prop :=
  e.operator ≠ .reserved ∧ ∀ v ∈ e.varspecs, v.maxLength = 0

theorem steady_whole {op : Operator} (other : op ≠ .reserved) (vs : List Varspec) :
    Steady ⟨op, vs.map Varspec.whole⟩ := by
  refine ⟨other, ?_⟩
  intro v member
  obtain ⟨w, -, rfl⟩ := List.mem_map.mp member
  rfl

theorem steady_bare {vs : List Varspec} {r : Expression} (h : bare vs = .ok r) : r.Steady := by
  unfold bare at h
  split at h
  · rename_i name explode limit rest
    split at h
    · cases h
    · cases h
      exact steady_whole (by decide) (⟨name, explode, 0⟩ :: rest)
  · cases h
    exact steady_whole (by decide) vs

theorem steady_remainder {e r : Expression} {left : List Varspec} (h : e.remainder left = .ok r) :
    r.Steady := by
  unfold remainder at h
  split at h
  · split at h
    · exact steady_bare h
    · rename_i opening
      cases h
      exact steady_whole (fun reserved => opening (first?_eq_none.mpr (Or.inr reserved))) left
  · split at h
    · rename_i op found
      cases h
      refine steady_whole ?_ left
      -- A plus sign would be read as the reserved operator, and is no separator.
      rintro rfl
      have plus := Operator.ofChar?_eq_some.mp found
      revert plus
      cases e.operator <;> decide
    · cases h

theorem residual_of_parseBody {body : Text} {e : Expression} (h : parseBody body = .ok e)
    (steady : e.Steady) : e.residual e.varspecs = (Piece.braced body).write := by
  obtain ⟨specs, -, read, written, -⟩ := parseBody_ok h
  have same : e.varspecs.map residualName = specs := by
    have unlimited := steady.2
    generalize e.varspecs = vs at read unlimited
    clear written
    induction specs generalizing vs with
    | nil => rw [mapM_nil_ok read]; rfl
    | cons spec rest ih =>
      obtain ⟨v, others, first, tail, rfl⟩ := mapM_cons_ok read
      have spelled := Varspec.parse_eq_ok_iff.mp first
      rw [List.map_cons, ih others tail fun w member => unlimited w (List.mem_cons_of_mem v member),
        ← Varspec.residualName_of_spells spelled (unlimited v List.mem_cons_self)]
  have opening : e.operator.first = e.operator.key := by
    have other := steady.1
    cases found : e.operator <;> first | rfl | exact absurd found other
  rw [residual, if_pos rfl, same, opening, written]
  rfl

end Expression

namespace Part

/-- What holds of each part and of what a pass leaves of it holds of all together. -/
theorem gather_residues {env : Environment} {f g : Part → Except Fault Text} {parts : List Part}
    {rests : List (List Part)}
    (each : ∀ p ∈ parts, ∀ rest, p.residue env = .ok rest →
      ∃ text, f p = .ok text ∧ gather g rest = .ok text)
    (h : parts.mapM (residue env) = .ok rests) :
    ∃ text, gather f parts = .ok text ∧ gather g rests.flatten = .ok text := by
  induction parts generalizing rests with
  | nil =>
    rw [mapM_nil_ok h]
    exact ⟨[], rfl, rfl⟩
  | cons p others ih =>
    obtain ⟨rest, series, first, tail, rfl⟩ := mapM_cons_ok h
    obtain ⟨text, made, left⟩ := each p List.mem_cons_self rest first
    obtain ⟨more, madeMore, leftMore⟩ :=
      ih (fun q member => each q (List.mem_cons_of_mem p member)) tail
    refine ⟨text ++ more, ?_, ?_⟩
    · rw [gather_cons, made, madeMore]
      rfl
    · rw [List.flatten_cons]
      exact gather_append left leftMore

/-- What holds of the expressions that a pass leaves of each part holds of all that it leaves. -/
theorem expressions_residues {env : Environment} {P : Expression → Prop} {parts : List Part}
    {rests : List (List Part)} (series : parts.mapM (residue env) = .ok rests)
    (each : ∀ p ∈ parts, ∀ rest, p.residue env = .ok rest → ∀ e ∈ expressions rest, P e) :
    ∀ e ∈ expressions (compact rests.flatten), P e := by
  rw [expressions_compact, expressions_flatten]
  intro e member
  obtain ⟨_, among, inside⟩ := List.mem_flatten.mp member
  obtain ⟨rest, source, rfl⟩ := List.mem_map.mp among
  obtain ⟨p, origin, found⟩ := mem_of_mapM_ok series rest source
  exact each p origin rest found e inside

/-! ### One part -/

theorem residue_expand {env : Environment} {p : Part} {rest : List Part}
    (h : p.residue env = .ok rest) :
    ∃ text, p.expand env = .ok text ∧ gather (expand .empty) rest = .ok text := by
  cases p with
  | literal t =>
    cases h
    exact ⟨t, rfl, by simp [gather, expand]⟩
  | expression e =>
    obtain ⟨output, left, found, left_eq⟩ := residue_ok h
    refine ⟨output, Expression.expand_eq_ok found, ?_⟩
    rcases left_eq with ⟨-, rfl⟩ | ⟨-, r, -, rfl⟩
    · simp [gather, expand]
    · simp [gather, expand, Expression.expand_empty]

theorem expressions_residue {env : Environment} {p : Part} {rest : List Part}
    (h : p.residue env = .ok rest) : expressions rest = [] ↔ ∀ v ∈ p.varspecs, env v.name ≠ none := by
  cases p with
  | literal t =>
    cases h
    simp [expressions, varspecs]
  | expression e =>
    obtain ⟨output, left, found, left_eq⟩ := residue_ok h
    rw [varspecs, ← Expression.missing_eq_nil, ← (Expression.expandPresent_ok found).1]
    rcases left_eq with ⟨nothing, rfl⟩ | ⟨some, r, -, rfl⟩
    · simp [expressions, nothing]
    · simp [expressions, some]

theorem steady_residue {env : Environment} {p : Part} {rest : List Part}
    (h : p.residue env = .ok rest) :
    ∀ e ∈ expressions rest, e.Steady := by
  cases p with
  | literal t =>
    cases h
    simp [expressions]
  | expression e =>
    obtain ⟨output, left, -, ⟨-, rfl⟩ | ⟨-, r, read, rfl⟩⟩ := residue_ok h
    · simp [expressions]
    · simpa [expressions] using Expression.steady_remainder read

theorem partialExpand_read {piece : Piece} {p : Part} (read : piece.read = .ok p)
    (steady : ∀ e ∈ expressions [p], e.Steady) : p.partialExpand .empty = .ok piece.write := by
  cases piece with
  | free t =>
    cases read
    rfl
  | braced body =>
    obtain ⟨e, parsed, read⟩ := bind_ok read
    cases read
    rw [partialExpand, Expression.partialExpand_empty (Expression.wellFormed_of_parseBody parsed).filled,
      Expression.residual_of_parseBody parsed (steady e (by simp [expressions]))]

theorem gather_read {pieces : List Piece} {parts : List Part}
    (read : pieces.mapM Piece.read = .ok parts) (steady : ∀ e ∈ expressions parts, e.Steady) :
    gather (partialExpand .empty) parts = .ok (Piece.writeAll pieces) := by
  induction pieces generalizing parts with
  | nil =>
    rw [mapM_nil_ok read]
    rfl
  | cons piece rest ih =>
    obtain ⟨p, others, first, tail, rfl⟩ := mapM_cons_ok read
    rw [← List.singleton_append, expressions_append] at steady
    have written := partialExpand_read first fun e member => steady e (List.mem_append_left _ member)
    have more := ih tail fun e member => steady e (List.mem_append_right _ member)
    rw [gather_cons, written, more]
    rfl

/-- A residual makes a partial expansion longer than the expansion. -/
theorem length_partialExpand {env : Environment} {p : Part} {text : Text}
    (h : p.partialExpand env = .ok text) :
    ∃ output, p.expand env = .ok output ∧ output.length ≤ text.length ∧
      (text.length = output.length → ∀ v ∈ p.varspecs, env v.name ≠ none) := by
  cases p with
  | literal t =>
    cases h
    exact ⟨_, rfl, Nat.le_refl _, by simp [varspecs]⟩
  | expression e =>
    obtain ⟨⟨output, left⟩, found, h⟩ := bind_ok h
    refine ⟨output, Expression.expand_eq_ok found, ?_⟩
    rw [varspecs, ← Expression.missing_eq_nil, ← (Expression.expandPresent_ok found).1]
    by_cases nothing : left = []
    · simp only [nothing, List.isEmpty_nil, if_true, pure_eq_ok, Except.ok.injEq] at h
      exact ⟨Nat.le_of_eq (congrArg List.length h), fun _ => nothing⟩
    · have longer : output ++ e.residual left = text := by simpa [nothing] using h
      have residual : 0 < (e.residual left).length := by simp [Expression.residual]
      rw [← longer, List.length_append]
      exact ⟨by omega, fun same => by omega⟩

theorem length_gather {env : Environment} {parts : List Part} {text : Text}
    (h : gather (partialExpand env) parts = .ok text) :
    ∃ output, gather (expand env) parts = .ok output ∧ output.length ≤ text.length ∧
      (text.length = output.length → ∀ p ∈ parts, ∀ v ∈ p.varspecs, env v.name ≠ none) := by
  induction parts generalizing text with
  | nil =>
    cases h
    exact ⟨[], rfl, Nat.le_refl _, by simp⟩
  | cons p rest ih =>
    obtain ⟨first, more, made, series, rfl⟩ := gather_cons_ok h
    obtain ⟨output, expanded, shorter, present⟩ := length_partialExpand made
    obtain ⟨others, expandedMore, shorterMore, presentMore⟩ := ih series
    refine ⟨output ++ others, by rw [gather_cons, expanded, expandedMore]; rfl, ?_, ?_⟩
    · simp only [List.length_append]
      omega
    · intro same
      simp only [List.length_append] at same
      intro q member
      rcases List.mem_cons.mp member with rfl | member
      · exact present (by omega)
      · exact presentMore (by omega) q member

theorem partialExpand_of_present {env : Environment} {p : Part}
    (h : ∀ v ∈ p.varspecs, env v.name ≠ none) : p.partialExpand env = p.expand env := by
  cases p with
  | literal t => rfl
  | expression e =>
    rw [partialExpand, expand, Expression.partialExpand, Expression.expand]
    cases found : e.expandPresent env with
    | error f => rfl
    | ok made =>
      obtain ⟨output, left⟩ := made
      have nothing : Expression.missing env e.varspecs = [] := Expression.missing_eq_nil.mpr h
      rw [← (Expression.expandPresent_ok found).1] at nothing
      simp [nothing]

end Part

namespace Template

theorem forall_names {t : Template} {P : Text → Prop} :
    (∀ name ∈ t.names, P name) ↔ ∀ p ∈ t.parts, ∀ v ∈ p.varspecs, P v.name := by
  simp only [names, varspecs, List.forall_mem_map, List.forall_mem_flatMap]

theorem specialize_ok {env : Environment} {t t' : Template} (formed : ∀ p ∈ t.parts, p.WellFormed)
    (h : t.specialize env = .ok t') :
    ∃ rests, t.partialExpand env = .ok t'.text ∧ t.parts.mapM (Part.residue env) = .ok rests ∧
      t'.parts = Part.compact rests.flatten := by
  have written := h
  obtain ⟨text, expanded, -⟩ := bind_ok written
  rw [specialize_eq formed expanded] at h
  obtain ⟨rests, series, h⟩ := bind_ok h
  cases h
  exact ⟨rests, expanded, series, rfl⟩

/-- A pass without values leaves a steady template as it is. -/
theorem partialExpand_empty {source : Text} {t : Template} (read : parse source = .ok t)
    (steady : ∀ e ∈ Part.expressions t.parts, e.Steady) : t.partialExpand .empty = .ok t.text := by
  obtain ⟨text, parts⟩ := parse_ok read
  obtain ⟨pieces, written, -, found⟩ := exists_pieces parts
  rw [partialExpand, Part.partialExpandAll_eq_gather, Part.gather_read found steady, text, written]

theorem parse_text_of_specialize {env : Environment} {t t' : Template}
    (h : t.specialize env = .ok t') :
    parse t'.text = .ok t' := by
  obtain ⟨text, -, read⟩ := bind_ok h
  rwa [(parse_ok read).1]

/-- What a pass leaves stands for the template under the values of the pass. -/
theorem specialize_laws {env : Environment} {source : Text} {t t' : Template}
    (read : parse source = .ok t) (h : t.specialize env = .ok t') :
    (∃ output, t'.expand .empty = .ok output ∧ t.expand env = .ok output) ∧
    (t'.partialExpand .empty = .ok t'.text ∧ t'.specialize .empty = .ok t') ∧
    (t'.isExpanded = true ↔ ∀ name ∈ t.names, env name ≠ none) ∧
    (t.partialExpand env = t.expand env ↔ ∀ name ∈ t.names, env name ≠ none) := by
  have formed := wellFormed_of_parse read
  obtain ⟨rests, expanded, series, parts⟩ := specialize_ok formed h
  have reread := parse_text_of_specialize h
  have again : t'.partialExpand .empty = .ok t'.text := by
    apply partialExpand_empty reread
    rw [parts]
    exact Part.expressions_residues series fun p _ rest => Part.steady_residue
  refine ⟨?_, ⟨again, ?_⟩, ?_, ?_⟩
  · obtain ⟨output, made, left⟩ := Part.gather_residues (fun p _ _ => Part.residue_expand) series
    refine ⟨output, ?_, made⟩
    rw [expand, parts, Part.expandAll_eq_gather, Part.gather_compact fun _ => rfl, left]
  · rw [specialize, again, ok_bind, reread]
  · rw [isExpanded, Part.all_isLiteral_iff, parts, Part.expressions_compact, Part.expressions_flatten,
      forall_names, List.flatten_eq_nil_iff, List.forall_mem_map]
    constructor
    · intro nothing p member
      obtain ⟨rest, among, found⟩ := exists_ok_of_mapM_ok series p member
      exact (Part.expressions_residue found).mp (nothing rest among)
    · intro present rest among
      obtain ⟨p, member, found⟩ := mem_of_mapM_ok series rest among
      exact (Part.expressions_residue found).mpr (present p member)
  · rw [forall_names]
    constructor
    · intro same
      rw [partialExpand, Part.partialExpandAll_eq_gather] at expanded
      obtain ⟨output, made, -, present⟩ := Part.length_gather expanded
      rw [partialExpand, expand, Part.partialExpandAll_eq_gather, Part.expandAll_eq_gather, expanded,
        made, Except.ok.injEq] at same
      exact present (congrArg List.length same)
    · intro present
      rw [partialExpand, expand, Part.partialExpandAll, Part.expandAll,
        mapM_congr_of_forall fun p member => Part.partialExpand_of_present (present p member)]

theorem specialize_laws_query : ∃ t t', parse "\x7b?a,b\x7d".toList = .ok t ∧
    t.specialize (.only "a".toList (.string "1".toList)) = .ok t' ∧
    t'.partialExpand .empty = .ok t'.text ∧ t'.text = "?a=1\x7b&b\x7d".toList := by
  have read : parse "\x7b?a,b\x7d".toList = .ok ⟨"\x7b?a,b\x7d".toList,
      [.expression ⟨.query, [⟨['a'], false, 0⟩, ⟨['b'], false, 0⟩]⟩]⟩ := rfl
  have passed : specialize (.only "a".toList (.string "1".toList)) ⟨"\x7b?a,b\x7d".toList,
      [.expression ⟨.query, [⟨['a'], false, 0⟩, ⟨['b'], false, 0⟩]⟩]⟩ = .ok ⟨"?a=1\x7b&b\x7d".toList,
        [.literal "?a=1".toList, .expression ⟨.continuation, [⟨['b'], false, 0⟩]⟩]⟩ := rfl
  exact ⟨_, _, read, passed, (specialize_laws read passed).2.1.1, rfl⟩

end Template
end Rfc6570
