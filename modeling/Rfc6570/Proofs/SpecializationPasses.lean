import Rfc6570.Proofs.ExpressionPasses
import Rfc6570.Proofs.SpecializationLaws
/-!
A template that gets its values in several passes. Each pass reads the text that the pass before
it wrote; `specialize_resume` says what one pass keeps, and `specializeAll_eq` that the passes
together leave what one pass with all values leaves.
-/

namespace Rfc6570

theorem Expression.Divisible.steady {passes : List Environment} {e : Expression}
    (h : e.Divisible passes) : e.Steady := by
  refine ⟨?_, h.unlimited⟩
  intro reserved
  have among := h.operator
  rw [reserved] at among
  simp at among

namespace Part

theorem gather_literal_expression {f : Part → Except Fault Text} (copied : ∀ t, f (.literal t) = .ok t)
    {e : Expression} {text : Text} (h : f (.expression e) = .ok text) (t : Text) :
    gather f [.literal t, .expression e] = .ok (t ++ text) := by
  simp [gather, copied, h]

theorem partialExpand_of_residue {env : Environment} {p : Part} {rest : List Part}
    (h : p.residue env = .ok rest) : ∃ text, p.partialExpand env = .ok text := by
  cases p with
  | literal t => exact ⟨t, rfl⟩
  | expression e =>
    obtain ⟨output, left, found, -⟩ := residue_ok h
    exact ⟨_, Expression.partialExpand_eq_ok found⟩

/-- What a pass leaves of a part goes on where the pass ended. -/
theorem residue_resume {env later : Environment} {passes : List Environment} {p : Part}
    (divisible : ∀ e, p = .expression e → e.Divisible (env :: passes)) (filled : env.IsFilled)
    (filledLater : later.IsFilled) :
    ∃ rest, p.residue env = .ok rest ∧ (∀ e ∈ expressions rest, e.Divisible passes) ∧
      (∃ text, p.expand (env.before later) = .ok text ∧ gather (expand later) rest = .ok text) ∧
      ∃ text, p.partialExpand (env.before later) = .ok text ∧
        gather (partialExpand later) rest = .ok text := by
  cases p with
  | literal t => exact ⟨_, rfl, by simp [expressions], ⟨t, rfl, by simp [gather, expand]⟩,
      t, rfl, by simp [gather, partialExpand]⟩
  | expression e =>
    obtain ⟨output, r, more, left, found, remains, same, next, resumed, both, residual⟩ :=
      Expression.expandPresent_resume (divisible e rfl) filled filledLater
    have expanded := Expression.expand_eq_ok both
    have written := Expression.partialExpand_eq_ok both
    rw [residue, found, ok_bind]
    by_cases nothing : Expression.missing env e.varspecs = []
    · have ended : r.expandPresent later = .ok ([], []) := by
        rw [Expression.expandPresent_eq, same, nothing]
        rfl
      rw [ended] at resumed
      cases resumed
      simp only [if_pos nothing]
      refine ⟨_, rfl, by simp [expressions], ⟨_, expanded, ?_⟩, _, written, ?_⟩
      · simp [gather, expand]
      · simp [gather, partialExpand]
    · simp only [if_neg nothing, remains]
      refine ⟨_, rfl, by simpa [expressions] using next, ⟨_, expanded, ?_⟩, _, written, ?_⟩
      · exact gather_literal_expression (fun _ => rfl) (Expression.expand_eq_ok resumed) output
      · rw [List.append_assoc, ← residual]
        exact gather_literal_expression (fun _ => rfl) (Expression.partialExpand_eq_ok resumed) output

end Part

namespace Template

/-- One pass after another; each reads the text that the one before it left. -/
def specializeAll (passes : List Environment) (t : Template) : Except Fault Template :=
  passes.foldlM (fun t env => t.specialize env) t

/-- What one pass keeps: it leaves a template to which the later values do what they do, together
with the values of the pass, to the template that it had. -/
theorem specialize_resume {env later : Environment} {passes : List Environment} {source : Text}
    {t : Template} (read : parse source = .ok t)
    (divisible : ∀ e ∈ Part.expressions t.parts, e.Divisible (env :: passes)) (filled : env.IsFilled)
    (filledLater : later.IsFilled) :
    ∃ t', t.specialize env = .ok t' ∧ (∀ e ∈ Part.expressions t'.parts, e.Divisible passes) ∧
      (∃ output, t.expand (env.before later) = .ok output ∧ t'.expand later = .ok output) ∧
      ∃ text, t.partialExpand (env.before later) = .ok text ∧ t'.partialExpand later = .ok text := by
  have each (p : Part) (member : p ∈ t.parts) :=
    Part.residue_resume (p := p) (fun e same => divisible e (Part.mem_expressions.mpr (same ▸ member)))
      filled filledLater
  obtain ⟨rests, series⟩ := exists_mapM_ok fun p member => (each p member).imp fun rest h => h.1
  obtain ⟨texts, written⟩ := exists_mapM_ok fun p member =>
    (each p member).elim fun rest h => Part.partialExpand_of_residue h.1
  have expanded : t.partialExpand env = .ok texts.flatten := by
    rw [partialExpand, Part.partialExpandAll, written]
    rfl
  refine ⟨⟨texts.flatten, Part.compact rests.flatten⟩, ?_, ?_, ?_, ?_⟩
  · rw [specialize_eq (wellFormed_of_parse read) expanded, series]
    rfl
  · refine Part.expressions_residues series ?_
    intro p member rest found
    obtain ⟨_, here, next, -⟩ := each p member
    cases found.symm.trans here
    exact next
  · rw [expand, expand, Part.expandAll_eq_gather, Part.expandAll_eq_gather,
      Part.gather_compact fun _ => rfl]
    refine Part.gather_residues ?_ series
    intro p member rest found
    obtain ⟨_, here, -, texts, -⟩ := each p member
    cases found.symm.trans here
    exact texts
  · rw [partialExpand, partialExpand, Part.partialExpandAll_eq_gather, Part.partialExpandAll_eq_gather,
      Part.gather_compact fun _ => rfl]
    refine Part.gather_residues ?_ series
    intro p member rest found
    obtain ⟨_, here, -, -, texts⟩ := each p member
    cases found.symm.trans here
    exact texts

/-- Passes one after the other leave what one pass leaves in which each variable has its value
from the first pass that supplies it, and expand to the same. -/
theorem specializeAll_eq {passes : List Environment} {source : Text} {t : Template}
    (read : parse source = .ok t) (filled : ∀ env ∈ passes, env.IsFilled)
    (divisible : ∀ e ∈ Part.expressions t.parts, e.Divisible passes) :
    ∃ t', specializeAll passes t = .ok t' ∧
      t.partialExpand (Environment.firstOf passes) = .ok t'.text ∧
      ∃ output, t'.expand .empty = .ok output ∧
        t.expand (Environment.firstOf passes) = .ok output := by
  induction passes generalizing source t with
  | nil =>
    have same := partialExpand_empty read fun e member => (divisible e member).steady
    obtain ⟨output, expanded, -⟩ := Part.length_gather same
    exact ⟨t, rfl, same, output, expanded, expanded⟩
  | cons env passes ih =>
    obtain ⟨present, filledRest⟩ := List.forall_mem_cons.mp filled
    obtain ⟨next, passed, divisibleNext, ⟨output, expanded, goesOn⟩, text, written, leftText⟩ :=
      specialize_resume read divisible present (Environment.IsFilled.firstOf filledRest)
    obtain ⟨t', rest, last, output', ended, expandedNext⟩ :=
      ih (parse_text_of_specialize passed) filledRest divisibleNext
    rw [Environment.firstOf_cons, written, expanded]
    rw [leftText] at last
    rw [goesOn] at expandedNext
    cases expandedNext
    refine ⟨t', ?_, last, output, ended, rfl⟩
    rw [specializeAll, List.foldlM_cons, passed]
    exact rest

theorem specializeAll_eq_query : ∃ t t' output, parse "\x7b?a,b\x7d".toList = .ok t ∧
    specializeAll [.only "a".toList (.string "1".toList),
      .only "b".toList (.list [.text "2".toList])] t = .ok t' ∧
    t'.expand .empty = .ok output ∧ output = "?a=1&b=2".toList := by
  have read : parse "\x7b?a,b\x7d".toList = .ok ⟨"\x7b?a,b\x7d".toList,
      [.expression ⟨.query, [⟨['a'], false, 0⟩, ⟨['b'], false, 0⟩]⟩]⟩ := rfl
  have filled : ∀ env ∈ [Environment.only "a".toList (.string "1".toList),
      .only "b".toList (.list [.text "2".toList])], env.IsFilled := by
    have text : PlainValue.IsFilled (.string ['1']) := List.cons_ne_nil _ _
    have series : PlainValue.IsFilled (.list [['2']]) := ⟨by simp, by simp⟩
    simp only [List.forall_mem_cons]
    exact ⟨Environment.isFilled_only _ rfl text, Environment.isFilled_only _ rfl series,
      List.forall_mem_nil _⟩
  have divisible : ∀ e ∈ [(⟨.query, [⟨['a'], false, 0⟩, ⟨['b'], false, 0⟩]⟩ : Expression)],
      e.Divisible [.only "a".toList (.string "1".toList),
        .only "b".toList (.list [.text "2".toList])] := by
    intro e member
    obtain rfl := List.mem_singleton.mp member
    exact ⟨by decide, by decide, by decide⟩
  obtain ⟨t', passed, -, output, ended, expanded⟩ := specializeAll_eq read filled divisible
  cases expanded
  exact ⟨_, t', _, read, passed, ended, rfl⟩

end Template
end Rfc6570
