import Rfc6570.Proofs.FilledValues
import Rfc6570.Proofs.SpecializationFaults
/-!
One expression in two passes. Where the separator is itself an operator, an expression whose first
variables get their values in one pass and its others in the next is written as it would be in one
pass with the values of both: `expandPresent_resume`.
-/

namespace Rfc6570

namespace Operator

/-- The operator that a separator selects writes what the first operator writes, and begins with
the separator. -/
theorem continues {op next : Operator} (h : ofChar? op.separator = some next) :
    next.separator = op.separator ∧ next.first = [op.separator] ∧ next.named = op.named ∧
      next.ifEmpty? = op.ifEmpty? ∧ next.keepsReserved = op.keepsReserved := by
  cases op <;> cases h <;> exact ⟨rfl, rfl, rfl, rfl, rfl⟩

theorem exists_continuation {op : Operator}
    (h : op ∈ [.label, .path, .parameter, .query, .continuation]) :
    ∃ next ∈ [label, .path, .parameter, .query, .continuation], ofChar? op.separator = some next := by
  cases op with
  | simple | reserved | fragment => simp at h
  | label | path | parameter => exact ⟨_, h, rfl⟩
  | query | continuation => exact ⟨.continuation, by simp, rfl⟩

theorem first?_of_continues {op next : Operator} (h : ofChar? op.separator = some next) :
    op.first? ≠ none := by
  cases op <;> cases h <;> simp [first?]

end Operator

namespace Expression

/-! ### The same pieces under the next operator, and in two passes -/

theorem expandPlain_continues {op next : Operator} (h : Operator.ofChar? op.separator = some next)
    (v : Varspec) (texts : PlainValue) : expandPlain next v texts = expandPlain op v texts := by
  obtain ⟨separator, -, named, ifEmpty, keeps⟩ := Operator.continues h
  have before : nameBefore next = nameBefore op := by
    funext v isEmpty
    rw [nameBefore, nameBefore, named, ifEmpty]
  have encoded : encode next = encode op := by
    funext data
    rw [encode, encode, keeps]
  have string : expandString next = expandString op := by
    funext v t
    rw [expandString, expandString, before, encoded]
  have entry : expandEntry next = expandEntry op := by
    funext between entry
    rw [expandEntry, expandEntry, encoded]
  cases texts with
  | string t => rw [expandPlain, expandPlain, string]
  | list items =>
    rw [expandPlain, expandPlain, expandList, expandList, separator, before, encoded, string]
  | assoc entries =>
    rw [expandPlain, expandPlain, expandAssoc, expandAssoc, separator, before, entry]

theorem expandValue_continues {op next : Operator} (h : Operator.ofChar? op.separator = some next)
    (v : Varspec) (given : Given) : expandValue next v given = expandValue op v given := by
  simp only [expandValue, expandPlain_continues h]

theorem pieces_continues {op next : Operator} (h : Operator.ofChar? op.separator = some next)
    (env : Environment) (vs : List Varspec) : pieces next env vs = pieces op env vs := by
  induction vs with
  | nil => rfl
  | cons v rest ih =>
    rw [pieces, pieces, ih]
    cases env v.name with
    | none => rfl
    | some given => simp only [expandValue_continues h]

/-- When every variable with a value stands before every one without, a second pass adds its
pieces at the end. -/
theorem pieces_before {op : Operator} {env later : Environment} {vs : List Varspec}
    {front back : List Text}
    (ordered : vs.Pairwise fun v w => env w.name ≠ none → env v.name ≠ none)
    (first : pieces op env vs = .ok front) (second : pieces op later (missing env vs) = .ok back) :
    pieces op (env.before later) vs = .ok (front ++ back) := by
  induction vs generalizing front with
  | nil =>
    cases first
    exact second
  | cons v rest ih =>
    cases found : env v.name with
    | none =>
      -- No variable after one without a value has one, so this pass wrote nothing more.
      have absent : ∀ w ∈ v :: rest, env w.name = none := by
        intro w member
        rcases List.mem_cons.mp member with rfl | member
        · exact found
        · exact Decidable.byContradiction fun present =>
            List.rel_of_pairwise_cons ordered member present found
      rw [pieces_of_forall op absent] at first
      cases first
      rw [missing_of_forall absent] at second
      rw [List.nil_append, ← second]
      exact pieces_congr fun w member => Environment.before_of_none (absent w member) later
    | some value =>
      rw [missing, List.filter_cons_of_neg (by simp [found]), ← missing] at second
      simp only [pieces, found] at first
      obtain ⟨piece, expanded, first⟩ := bind_ok first
      obtain ⟨others, series, first⟩ := bind_ok first
      cases first
      rw [pieces, Environment.before_of_some found]
      simp only [expanded, ih ordered.of_cons series second, ok_bind, pure_eq_ok, List.cons_append]

theorem missing_before (env later : Environment) (vs : List Varspec) :
    missing (env.before later) vs = missing later (missing env vs) := by
  rw [missing, missing, missing, List.filter_filter]
  apply List.filter_congr
  intro v _
  rw [Environment.before, Option.isNone_or, Bool.and_comm]

/-! ### One output after another -/

theorem assemble_append {op next : Operator} (h : Operator.ofChar? op.separator = some next)
    {front back : List Text} (filled : front ≠ []) (solid : ∀ piece ∈ front, piece ≠ [])
    (solidBack : ∀ piece ∈ back, piece ≠ []) :
    assemble op (front ++ back) = assemble op front ++ assemble next back := by
  obtain ⟨separator, opening, -⟩ := Operator.continues h
  by_cases more : back = []
  · subst more
    simp [assemble]
  · have solidAll : ∀ piece ∈ front ++ back, piece ≠ [] := fun piece member =>
      (List.mem_append.mp member).elim (solid piece) (solidBack piece)
    rw [assemble_of_solid op (by simp [filled]) solidAll, assemble_of_solid op filled solid,
      assemble_of_solid next more solidBack, Text.join_append op.separator filled more, opening,
      separator]
    simp

/-! ### One pass after another -/

/-- The expression may be written in several passes: its separator is an operator of its own, no
variable has a prefix, and none gets its value in a later pass than one to its right. -/
structure Divisible (passes : List Environment) (e : Expression) : Prop where
  operator : e.operator ∈ [.label, .path, .parameter, .query, .continuation]
  unlimited : ∀ v ∈ e.varspecs, v.maxLength = 0
  ordered : e.varspecs.Pairwise fun v w =>
    Environment.firstPass passes v.name ≤ Environment.firstPass passes w.name

theorem Divisible.present_before {env : Environment} {passes : List Environment} {e : Expression}
    (h : e.Divisible (env :: passes)) :
    e.varspecs.Pairwise fun v w => env w.name ≠ none → env v.name ≠ none := by
  refine h.ordered.imp ?_
  intro v w sooner present absent
  rw [Environment.firstPass_of_some present, Environment.firstPass_of_none absent] at sooner
  omega

theorem Divisible.missing {env : Environment} {passes : List Environment} {e : Expression}
    (h : e.Divisible (env :: passes)) {op : Operator}
    (operator : op ∈ [.label, .path, .parameter, .query, .continuation]) :
    Divisible passes ⟨op, missing env e.varspecs⟩ := by
  refine ⟨operator, fun v member => h.unlimited v (List.mem_filter.mp member).1, ?_⟩
  refine (h.ordered.sublist List.filter_sublist).imp_of_mem ?_
  intro v w left right sooner
  have absent {x : Varspec} (member : x ∈ Expression.missing env e.varspecs) : env x.name = none := by
    simpa using (List.mem_filter.mp member).2
  rw [Environment.firstPass_of_none (absent left),
    Environment.firstPass_of_none (absent right)] at sooner
  exact Nat.le_of_succ_le_succ sooner

theorem remainder_of_none {e : Expression} (continued : e.operator.first? ≠ none)
    (unlimited : ∀ v ∈ e.varspecs, v.maxLength = 0) : e.remainder e.varspecs = .ok e := by
  rw [remainder, if_pos rfl, if_neg continued, Varspec.map_whole unlimited]

theorem remainder_of_some {e : Expression} {left : List Varspec}
    (fewer : left.length ≠ e.varspecs.length) {next : Operator} (continued : Operator.ofChar? e.operator.separator = some next)
    (unlimited : ∀ v ∈ left, v.maxLength = 0) : e.remainder left = .ok ⟨next, left⟩ := by
  rw [remainder, if_neg fewer, continued, Varspec.map_whole unlimited]

/-- Both begin with the separator. -/
theorem residual_continues {e : Expression} {next : Operator}
    (continued : Operator.ofChar? e.operator.separator = some next) {left rest : List Varspec}
    (fewer : rest.length ≠ e.varspecs.length) :
    residual ⟨next, left⟩ rest = e.residual rest := by
  obtain ⟨separator, opening, -⟩ := Operator.continues continued
  rw [residual, residual, if_neg fewer]
  simp only [opening, separator, ite_self]

/-- What is left goes on where the output ended: its expansion is the end of the expansion with
the values of both passes, and it leaves the same residual. -/
theorem expandPresent_resume {env later : Environment} {passes : List Environment} {e : Expression}
    (h : e.Divisible (env :: passes)) (filled : env.IsFilled) (filledLater : later.IsFilled) :
    ∃ output r more left, e.expandPresent env = .ok (output, missing env e.varspecs) ∧
      e.remainder (missing env e.varspecs) = .ok r ∧ r.varspecs = missing env e.varspecs ∧
      r.Divisible passes ∧ r.expandPresent later = .ok (more, left) ∧
      e.expandPresent (env.before later) = .ok (output ++ more, left) ∧
      r.residual left = e.residual left := by
  obtain ⟨next, among, continued⟩ := Operator.exists_continuation h.operator
  by_cases untouched : (missing env e.varspecs).length = e.varspecs.length
  -- The pass had a value for no variable: the expression is left as it was.
  · have absent := missing_length_iff.mp untouched
    have remains : e.Divisible passes := by
      have rest := h.missing h.operator
      rwa [missing_of_forall absent] at rest
    obtain ⟨ps, series, -, -⟩ := pieces_ok e.operator filledLater h.unlimited
    have expanded : e.expandPresent later = .ok (assemble e.operator ps, missing later e.varspecs) := by
      rw [expandPresent_eq, series]
      rfl
    have same : e.expandPresent (env.before later) = e.expandPresent later :=
      expandPresent_congr fun v member => Environment.before_of_none (absent v member) later
    rw [missing_of_forall absent]
    refine ⟨[], e, _, _, ?_, ?_, rfl, remains, expanded, same.trans expanded, rfl⟩
    · rw [expandPresent_eq, pieces_of_forall _ absent, missing_of_forall absent]
      rfl
    · exact remainder_of_none (Operator.first?_of_continues continued) h.unlimited
  -- The pass wrote a first piece, after which the separator opens what is left.
  · have rest := h.missing among
    obtain ⟨front, series, solid, count⟩ := pieces_ok e.operator filled h.unlimited
    obtain ⟨back, seriesBack, solidBack, -⟩ := pieces_ok e.operator filledLater rest.unlimited
    have some : front ≠ [] := by
      rintro rfl
      exact untouched (by simpa using count)
    have fewer : (missing later (missing env e.varspecs)).length ≠ e.varspecs.length := by
      have shorter :
          (missing later (missing env e.varspecs)).length ≤ (missing env e.varspecs).length :=
        List.length_filter_le _ _
      have atMost : (missing env e.varspecs).length ≤ e.varspecs.length := List.length_filter_le _ _
      omega
    refine ⟨assemble e.operator front, ⟨next, missing env e.varspecs⟩, assemble next back, _, ?_,
      remainder_of_some untouched continued rest.unlimited, rfl, rest, ?_, ?_,
      residual_continues continued fewer⟩
    · rw [expandPresent_eq, series]
      rfl
    · rw [expandPresent_eq, pieces_continues continued, seriesBack]
      rfl
    · rw [expandPresent_eq, pieces_before h.present_before series seriesBack, missing_before,
        ← assemble_append continued some solid solidBack]
      rfl

end Expression
end Rfc6570
