import Rfc6570.Proofs.Specialization
/-!
When the text of a partial expansion is no template, and that neither this nor the expressions of
the template depend on what the values hold. Main statements: `specialize_fails_iff` and
`specialize_independent`.
-/

namespace Rfc6570

namespace Part

theorem expandPresent_of_partialExpandAll {env : Environment} {parts : List Part} {text : Text}
    (h : partialExpandAll env parts = .ok text) {e : Expression} (member : .expression e ∈ parts) :
    ∃ output left, e.expandPresent env = .ok (output, left) := by
  obtain ⟨texts, expanded, -⟩ := bind_ok h
  obtain ⟨_, _, expanded⟩ := exists_ok_of_mapM_ok expanded _ member
  obtain ⟨⟨output, left⟩, found, -⟩ := bind_ok expanded
  exact ⟨output, left, found⟩

end Part

namespace Expression

/-- What a pass leaves of the expression is no expression: it begins with a comma, or with a point
that was the whole name of its first variable. -/
def Unreadable (env : Environment) (e : Expression) : Prop :=
  e.operator ∈ [.simple, .reserved, .fragment] ∧
      (∃ v ∈ e.varspecs, env v.name ≠ none) ∧ (∃ v ∈ e.varspecs, env v.name = none) ∨
    e.operator = .reserved ∧ (∀ v ∈ e.varspecs, env v.name = none) ∧
      e.varspecs.head?.map Varspec.name = some ['.']

theorem bare_error {vs : List Varspec} {f : Fault} :
    bare vs = .error f ↔ f = .varname [] ∧ vs.head?.map Varspec.name = some ['.'] := by
  unfold bare
  split
  · rename_i name explode limit rest
    split
    · simp [*, eq_comm]
    · simp [*]
  · rename_i other
    constructor
    · intro impossible
      cases impossible
    · rintro ⟨-, point⟩
      obtain ⟨⟨name, explode, limit⟩, first, named⟩ := Option.map_eq_some_iff.mp point
      obtain ⟨rest, rfl⟩ := List.head?_eq_some_iff.mp first
      simp only at named
      subst named
      exact absurd rfl (other [] explode limit rest)

theorem missing_length_iff {env : Environment} {vs : List Varspec} :
    (missing env vs).length = vs.length ↔ ∀ v ∈ vs, env v.name = none := by
  simp [missing]

theorem ofChar?_separator_eq_none {op : Operator} :
    Operator.ofChar? op.separator = none ↔ op ∈ [.simple, .reserved, .fragment] := by
  cases op <;> decide

theorem first?_eq_none {op : Operator} : op.first? = none ↔ op = .simple ∨ op = .reserved := by
  cases op <;> decide

/-- The residual of some missing variables is read, unless the expression is unreadable. -/
theorem remainder_error {env : Environment} {e : Expression} (formed : e.WellFormed)
    (some : missing env e.varspecs ≠ []) {f : Fault} :
    e.remainder (missing env e.varspecs) = .error f ↔ f = .varname [] ∧ Unreadable env e := by
  have lacking : ∃ v ∈ e.varspecs, env v.name = none := by
    simpa using mt missing_eq_nil.mpr some
  unfold remainder Unreadable
  by_cases all : ∀ v ∈ e.varspecs, env v.name = none
  · have alone : ¬ ∃ v ∈ e.varspecs, env v.name ≠ none := by simpa using all
    rw [if_pos (missing_length_iff.mpr all), missing_of_forall all]
    by_cases plain : e.operator.first? = none
    · rw [if_pos plain, bare_error]
      constructor
      · rintro ⟨fault, point⟩
        refine ⟨fault, Or.inr ⟨?_, all, point⟩⟩
        rcases first?_eq_none.mp plain with simple | reserved
        · obtain ⟨v, first, named⟩ := Option.map_eq_some_iff.mp point
          exact absurd (by rw [named]; rfl) (formed.bare simple v first)
        · exact reserved
      · rintro ⟨fault, ⟨-, present, -⟩ | ⟨-, -, point⟩⟩
        · exact absurd present alone
        · exact ⟨fault, point⟩
    · rw [if_neg plain]
      constructor
      · intro impossible
        cases impossible
      · rintro ⟨-, ⟨-, present, -⟩ | ⟨reserved, -, -⟩⟩
        · exact absurd present alone
        · exact absurd (first?_eq_none.mpr (Or.inr reserved)) plain
  · have present : ∃ v ∈ e.varspecs, env v.name ≠ none := by simpa using all
    rw [if_neg (mt missing_length_iff.mp all)]
    cases continued : Operator.ofChar? e.operator.separator with
    | none =>
      have among := ofChar?_separator_eq_none.mp continued
      simp [among, present, lacking, all, eq_comm]
    | some op =>
      have apart : e.operator ∉ [.simple, .reserved, .fragment] := by
        intro among
        rw [ofChar?_separator_eq_none.mpr among] at continued
        cases continued
      simp [apart, all]

end Expression

namespace Part

theorem residue_error {env : Environment} {e : Expression} (formed : e.WellFormed) {output : Text}
    {left : List Varspec} (found : e.expandPresent env = .ok (output, left)) {f : Fault} :
    residue env (.expression e) = .error f ↔ f = .varname [] ∧ e.Unreadable env := by
  obtain ⟨rfl, -⟩ := Expression.expandPresent_ok found
  rw [residue, found, ok_bind]
  by_cases nothing : Expression.missing env e.varspecs = []
  · have present := Expression.missing_eq_nil.mp nothing
    obtain ⟨v, source⟩ := List.exists_mem_of_ne_nil _ formed.filled
    simp only [if_pos nothing, pure_eq_ok, reduceCtorEq, false_iff, not_and]
    rintro - (⟨-, -, w, member, lacking⟩ | ⟨-, all, -⟩)
    · exact present w member lacking
    · exact present v source (all v source)
  · simp only [if_neg nothing]
    rw [← Expression.remainder_error formed nothing]
    cases e.remainder (Expression.missing env e.varspecs) <;> simp

end Part

namespace Template

/-- Exactly when the text that partial expansion leaves is no template: when it left a comma or a
lone point at the front of an expression. The fault is always that of an empty name. -/
theorem specialize_fails_iff {env : Environment} {source text : Text} {t : Template}
    (read : parse source = .ok t) (expanded : t.partialExpand env = .ok text) :
    ((∃ f, t.specialize env = .error f) ↔ ∃ e, .expression e ∈ t.parts ∧
      (e.operator ∈ [.simple, .reserved, .fragment] ∧
          (∃ v ∈ e.varspecs, env v.name ≠ none) ∧ (∃ v ∈ e.varspecs, env v.name = none) ∨
        e.operator = .reserved ∧ (∀ v ∈ e.varspecs, env v.name = none) ∧
          e.varspecs.head?.map Varspec.name = some ['.'])) ∧
    ∀ f, t.specialize env = .error f → f = .varname [] := by
  have formed := wellFormed_of_parse read
  rw [specialize_eq formed expanded]
  have failing {p : Part} {f : Fault} (member : p ∈ t.parts) (h : p.residue env = .error f) :
      f = .varname [] ∧ ∃ e, p = .expression e ∧ e.Unreadable env := by
    cases p with
    | literal u => cases h
    | expression e =>
      obtain ⟨_, _, found⟩ := Part.expandPresent_of_partialExpandAll expanded member
      obtain ⟨fault, unreadable⟩ := (Part.residue_error (formed _ member) found).mp h
      exact ⟨fault, e, rfl, unreadable⟩
  refine ⟨⟨?_, ?_⟩, ?_⟩
  · rintro ⟨f, h⟩
    rcases bind_error h with series | ⟨_, _, h⟩
    · obtain ⟨p, member, h⟩ := mem_of_mapM_error series
      obtain ⟨-, e, rfl, unreadable⟩ := failing member h
      exact ⟨e, member, unreadable⟩
    · cases h
  · rintro ⟨e, member, unreadable⟩
    obtain ⟨_, _, found⟩ := Part.expandPresent_of_partialExpandAll expanded member
    have fails := (Part.residue_error (formed _ member) found).mpr ⟨rfl, unreadable⟩
    cases series : t.parts.mapM (Part.residue env) with
    | error f => exact ⟨f, rfl⟩
    | ok rests =>
      obtain ⟨_, _, h⟩ := exists_ok_of_mapM_ok series _ member
      rw [fails] at h
      cases h
  · intro f h
    rcases bind_error h with series | ⟨_, _, h⟩
    · obtain ⟨p, member, h⟩ := mem_of_mapM_error series
      exact (failing member h).1
    · cases h

theorem specialize_fails_comma : ∃ t, parse "\x7ba,b\x7d".toList = .ok t ∧
    t.partialExpand (.only "a".toList (.string "1".toList)) = .ok "1\x7b,b\x7d".toList ∧
    ∃ f, t.specialize (.only "a".toList (.string "1".toList)) = .error f := by
  have read : parse "\x7ba,b\x7d".toList = .ok ⟨"\x7ba,b\x7d".toList,
      [.expression ⟨.simple, [⟨['a'], false, 0⟩, ⟨['b'], false, 0⟩]⟩]⟩ := rfl
  refine ⟨_, read, rfl, (specialize_fails_iff read rfl).1.mpr ?_⟩
  refine ⟨_, List.mem_cons_self, Or.inl ⟨by decide, ?_, ?_⟩⟩
  · exact ⟨_, List.mem_cons_self, by simp [Environment.only]⟩
  · exact ⟨_, List.mem_cons_of_mem _ List.mem_cons_self, rfl⟩

/-- Values have no influence on what is left: two passes that leave the same variables without a
value fail alike, or lead to templates with the same expressions. -/
theorem specialize_independent {env₁ env₂ : Environment} {source text₁ text₂ : Text} {t : Template}
    (read : parse source = .ok t) (same : ∀ name ∈ t.names, env₁ name = none ↔ env₂ name = none)
    (first : t.partialExpand env₁ = .ok text₁) (second : t.partialExpand env₂ = .ok text₂) :
    (∃ f, t.specialize env₁ = .error f ∧ t.specialize env₂ = .error f) ∨
      ∃ t₁ t₂, t.specialize env₁ = .ok t₁ ∧ t.specialize env₂ = .ok t₂ ∧
        Part.expressions t₁.parts = Part.expressions t₂.parts := by
  have formed := wellFormed_of_parse read
  rw [specialize_eq formed first, specialize_eq formed second]
  have agree : ∀ p ∈ t.parts,
      (∃ f, p.residue env₁ = .error f ∧ p.residue env₂ = .error f) ∨
        ∃ rest₁ rest₂, p.residue env₁ = .ok rest₁ ∧ p.residue env₂ = .ok rest₂ ∧
          Part.expressions rest₁ = Part.expressions rest₂ := by
    intro p member
    cases p with
    | literal u => exact Or.inr ⟨_, _, rfl, rfl, rfl⟩
    | expression e =>
      obtain ⟨output₁, left₁, found₁⟩ := Part.expandPresent_of_partialExpandAll first member
      obtain ⟨output₂, left₂, found₂⟩ := Part.expandPresent_of_partialExpandAll second member
      have left : left₁ = left₂ := by
        rw [(Expression.expandPresent_ok found₁).1, (Expression.expandPresent_ok found₂).1]
        apply List.filter_congr
        intro v source
        have named : v.name ∈ t.names :=
          List.mem_map_of_mem (List.mem_flatMap.mpr ⟨_, member, source⟩)
        exact Bool.eq_iff_iff.mpr (by simpa using same v.name named)
      subst left
      rw [Part.residue, Part.residue, found₁, found₂, ok_bind, ok_bind]
      by_cases nothing : left₁ = []
      · simp only [if_pos nothing]
        exact Or.inr ⟨_, _, rfl, rfl, rfl⟩
      · simp only [if_neg nothing]
        cases e.remainder left₁ with
        | error f => exact Or.inl ⟨f, rfl, rfl⟩
        | ok r => exact Or.inr ⟨_, _, rfl, rfl, rfl⟩
  rcases mapM_agree agree with ⟨f, failed₁, failed₂⟩ | ⟨rests₁, rests₂, found₁, found₂, shown⟩
  · exact Or.inl ⟨f, by rw [failed₁]; rfl, by rw [failed₂]; rfl⟩
  · rw [found₁, found₂]
    refine Or.inr ⟨_, _, rfl, rfl, ?_⟩
    rw [Part.expressions_compact, Part.expressions_compact, Part.expressions_flatten,
      Part.expressions_flatten, shown]

theorem specialize_independent_brace : ∃ t, parse "\x7b+a\x7d\x7b?b,c\x7d".toList = .ok t ∧
    ((∃ f, t.specialize (.only "b".toList (.string "1".toList)) = .error f ∧
        t.specialize (.only ['b'] (.string "\x7d\x7bx".toList)) = .error f) ∨
      ∃ t₁ t₂, t.specialize (.only "b".toList (.string "1".toList)) = .ok t₁ ∧
        t.specialize (.only ['b'] (.string "\x7d\x7bx".toList)) = .ok t₂ ∧
        Part.expressions t₁.parts = Part.expressions t₂.parts) := by
  have read : parse "\x7b+a\x7d\x7b?b,c\x7d".toList = .ok ⟨"\x7b+a\x7d\x7b?b,c\x7d".toList,
      [.expression ⟨.reserved, [⟨['a'], false, 0⟩]⟩,
        .expression ⟨.query, [⟨['b'], false, 0⟩, ⟨['c'], false, 0⟩]⟩]⟩ := rfl
  refine ⟨_, read, specialize_independent read ?_ rfl rfl⟩
  intro name _
  simp [Environment.only]

end Template
end Rfc6570
