import Rfc6570.Proofs.SpecializationLaws
/-!
The variables of the template that a pass leaves. They are those without a value, in order and
without their prefixes, but for one case: the residual of an expression with the reserved operator
does not begin with that operator, so that a point at the front of its first name is read as one.
Main statement: `varspecs_specialize`.
-/

namespace Rfc6570

/-- Series whose members are as long in both lists are the same when all members are. -/
theorem flatMap_eq_flatMap_iff {α β : Type} {f g : α → List β} {xs : List α}
    (length : ∀ x ∈ xs, (f x).length = (g x).length) :
    xs.flatMap f = xs.flatMap g ↔ ∀ x ∈ xs, f x = g x := by
  induction xs with
  | nil => simp
  | cons x rest ih =>
    obtain ⟨first, length⟩ := List.forall_mem_cons.mp length
    rw [List.flatMap_cons, List.flatMap_cons, List.forall_mem_cons, ← ih length]
    constructor
    · intro same
      exact List.append_inj same first
    · rintro ⟨here, there⟩
      rw [here, there]

namespace Expression

/-- The first name begins with a point. -/
def Pointed (vs : List Varspec) : Prop :=
  ∃ v ∈ vs.head?, v.name.head? = some '.'

/-- Variables of which the first has no point at the front of its name any more. -/
def withoutPoint : List Varspec → List Varspec
  | ⟨'.' :: name, explode, limit⟩ :: rest => ⟨name, explode, limit⟩ :: rest
  | vs => vs

def survivors (env : Environment) (e : Expression) : List Varspec :=
  let left := (missing env e.varspecs).map Varspec.whole
  if e.operator = .reserved ∧ left.length = e.varspecs.length then withoutPoint left else left

/-- A pass makes a point of the first name an operator. -/
def LosesPoint (env : Environment) (e : Expression) : Prop :=
  e.operator = .reserved ∧ (∀ v ∈ e.varspecs, env v.name = none) ∧ Pointed e.varspecs

theorem pointed_map_whole {vs : List Varspec} : Pointed (vs.map Varspec.whole) ↔ Pointed vs := by
  cases vs <;> simp [Pointed, Varspec.whole]

theorem length_withoutPoint (vs : List Varspec) : (withoutPoint vs).length = vs.length := by
  unfold withoutPoint
  split <;> rfl

theorem not_pointed {vs : List Varspec}
    (h : ∀ name explode limit rest, vs ≠ ⟨'.' :: name, explode, limit⟩ :: rest) : ¬ Pointed vs := by
  rintro ⟨⟨name, explode, limit⟩, front, point⟩
  obtain ⟨rest, rfl⟩ := List.head?_eq_some_iff.mp front
  obtain ⟨name, rfl⟩ := List.head?_eq_some_iff.mp point
  exact h name explode limit rest rfl

theorem withoutPoint_eq_self {vs : List Varspec} : withoutPoint vs = vs ↔ ¬ Pointed vs := by
  unfold withoutPoint
  split
  · simp [Pointed]
  · rename_i other
    exact iff_of_true rfl (not_pointed other)

theorem varspecs_bare {vs : List Varspec} {r : Expression} (h : bare vs = .ok r) :
    r.varspecs = withoutPoint (vs.map Varspec.whole) := by
  unfold bare at h
  split at h
  · split at h <;> cases h
    rfl
  · rename_i other
    cases h
    exact (withoutPoint_eq_self.mpr (mt pointed_map_whole.mp (not_pointed other))).symm

theorem varspecs_remainder {env : Environment} {e r : Expression} (formed : e.WellFormed)
    (h : e.remainder (missing env e.varspecs) = .ok r) : r.varspecs = e.survivors env := by
  unfold remainder at h
  unfold survivors
  simp only [List.length_map]
  split at h
  · rename_i untouched
    split at h
    · rename_i plain
      rw [varspecs_bare h]
      rcases first?_eq_none.mp plain with simple | reserved
      -- The first name of a simple expression has no point, or it would have been read as one.
      · rw [if_neg (by simp [simple]), withoutPoint_eq_self, pointed_map_whole,
          missing_of_forall (missing_length_iff.mp untouched)]
        rintro ⟨v, front, point⟩
        exact formed.bare simple v front point
      · rw [if_pos ⟨reserved, untouched⟩]
    · rename_i opening
      have other : e.operator ≠ .reserved := fun reserved =>
        opening (first?_eq_none.mpr (Or.inr reserved))
      cases h
      rw [if_neg (by simp [other])]
  · rename_i fewer
    rw [if_neg (by simp [fewer])]
    split at h
    · cases h
      rfl
    · cases h

theorem length_survivors (env : Environment) (e : Expression) :
    (e.survivors env).length = ((missing env e.varspecs).map Varspec.whole).length := by
  unfold survivors
  simp only
  split
  · exact length_withoutPoint _
  · rfl

theorem survivors_eq_iff {env : Environment} {e : Expression} :
    e.survivors env = (missing env e.varspecs).map Varspec.whole ↔ ¬ e.LosesPoint env := by
  unfold survivors LosesPoint
  simp only [List.length_map, missing_length_iff]
  split
  · rename_i whole
    obtain ⟨reserved, absent⟩ := whole
    rw [withoutPoint_eq_self, pointed_map_whole, missing_of_forall absent]
    exact not_congr ⟨fun point => ⟨reserved, absent, point⟩, fun loses => loses.2.2⟩
  · rename_i other
    exact iff_of_true rfl fun loses => other ⟨loses.1, loses.2.1⟩

end Expression

namespace Part

def survivors (env : Environment) : Part → List Varspec
  | .literal _ => []
  | .expression e => e.survivors env

theorem varspecs_residue {env : Environment} {p : Part} {rest : List Part} (formed : p.WellFormed)
    (h : p.residue env = .ok rest) : rest.flatMap varspecs = p.survivors env := by
  cases p with
  | literal t =>
    cases h
    rfl
  | expression e =>
    obtain ⟨output, left, found, ⟨nothing, rfl⟩ | ⟨-, r, read, rfl⟩⟩ := residue_ok h
    · rw [(Expression.expandPresent_ok found).1] at nothing
      have none : e.survivors env = [] := by
        rw [← List.length_eq_zero_iff, Expression.length_survivors, nothing]
        rfl
      simp [varspecs, survivors, none]
    · rw [(Expression.expandPresent_ok found).1] at read
      simpa [varspecs, survivors] using Expression.varspecs_remainder formed read

/-- The variables of all that a pass leaves are those that survive in each part. -/
theorem varspecs_residues {env : Environment} {parts : List Part} {rests : List (List Part)}
    (formed : ∀ p ∈ parts, p.WellFormed) (h : parts.mapM (residue env) = .ok rests) :
    rests.flatten.flatMap varspecs = parts.flatMap (survivors env) := by
  induction parts generalizing rests with
  | nil =>
    rw [mapM_nil_ok h]
    rfl
  | cons p others ih =>
    obtain ⟨firm, formed⟩ := List.forall_mem_cons.mp formed
    obtain ⟨rest, series, first, tail, rfl⟩ := mapM_cons_ok h
    rw [List.flatten_cons, List.flatMap_append, varspecs_residue firm first, ih formed tail,
      List.flatMap_cons]

/-- The variables of a part that have no value, without their prefixes. -/
def unsupplied (env : Environment) (p : Part) : List Varspec :=
  (Expression.missing env p.varspecs).map Varspec.whole

theorem survivors_eq_iff {env : Environment} {p : Part} :
    p.survivors env = p.unsupplied env ↔ ∀ e, p = .expression e → ¬ e.LosesPoint env := by
  cases p with
  | literal t => simp [survivors, unsupplied, varspecs, Expression.missing]
  | expression e => simpa [survivors, unsupplied, varspecs] using Expression.survivors_eq_iff

theorem length_survivors (env : Environment) (p : Part) :
    (p.survivors env).length = (p.unsupplied env).length := by
  cases p with
  | literal t => rfl
  | expression e => exact Expression.length_survivors env e

end Part

namespace Template

theorem flatMap_unsupplied (env : Environment) (t : Template) :
    t.parts.flatMap (Part.unsupplied env) =
      (t.varspecs.filter fun v => (env v.name).isNone).map Varspec.whole := by
  rw [varspecs, List.filter_flatMap, List.map_flatMap]
  rfl

/-- A pass leaves the variables that survive it. These are the variables without a value, in order
and each without its prefix, just when no expression loses the point of its first name. -/
theorem varspecs_specialize {env : Environment} {source : Text} {t t' : Template}
    (read : parse source = .ok t) (h : t.specialize env = .ok t') :
    t'.varspecs = t.parts.flatMap (Part.survivors env) ∧
    (t'.varspecs = (t.varspecs.filter fun v => (env v.name).isNone).map Varspec.whole ↔
      ∀ e, .expression e ∈ t.parts → ¬ e.LosesPoint env) := by
  have formed := wellFormed_of_parse read
  obtain ⟨rests, -, series, parts⟩ := specialize_ok formed h
  have left : t'.varspecs = t.parts.flatMap (Part.survivors env) := by
    rw [varspecs, parts, Part.varspecs_compact, Part.varspecs_residues formed series]
  refine ⟨left, ?_⟩
  -- A point that is lost costs no variable, so the lists can be compared part by part.
  rw [left, ← flatMap_unsupplied, flatMap_eq_flatMap_iff fun p _ => Part.length_survivors env p]
  constructor
  · intro same e member
    exact Part.survivors_eq_iff.mp (same _ member) e rfl
  · intro none p member
    exact Part.survivors_eq_iff.mpr fun e expression => none e (expression ▸ member)

theorem varspecs_specialize_query : ∃ t t', parse "\x7b+a:3\x7d\x7b?b,c*\x7d".toList = .ok t ∧
    t.specialize (.only "b".toList (.string "1".toList)) = .ok t' ∧
    t'.text = "\x7ba\x7d?b=1\x7b&c*\x7d".toList ∧
    t'.varspecs = [⟨['a'], false, 0⟩, ⟨['c'], true, 0⟩] := by
  have read : parse "\x7b+a:3\x7d\x7b?b,c*\x7d".toList = .ok ⟨"\x7b+a:3\x7d\x7b?b,c*\x7d".toList,
      [.expression ⟨.reserved, [⟨['a'], false, 3⟩]⟩,
        .expression ⟨.query, [⟨['b'], false, 0⟩, ⟨['c'], true, 0⟩]⟩]⟩ := rfl
  have passed : specialize (.only "b".toList (.string "1".toList))
      ⟨"\x7b+a:3\x7d\x7b?b,c*\x7d".toList, [.expression ⟨.reserved, [⟨['a'], false, 3⟩]⟩,
        .expression ⟨.query, [⟨['b'], false, 0⟩, ⟨['c'], true, 0⟩]⟩]⟩ =
      .ok ⟨"\x7ba\x7d?b=1\x7b&c*\x7d".toList, [.expression ⟨.simple, [⟨['a'], false, 0⟩]⟩,
        .literal "?b=1".toList, .expression ⟨.continuation, [⟨['c'], true, 0⟩]⟩]⟩ := rfl
  refine ⟨_, _, read, passed, rfl, (varspecs_specialize read passed).2.mpr ?_⟩
  rintro e member ⟨reserved, -, v, front, point⟩
  rcases List.mem_cons.mp member with same | member
  · cases same
    cases front
    cases point
  · cases List.mem_singleton.mp member
    cases reserved

/-- A pass without values renames a variable. -/
theorem specialize_renames : ∃ t t', parse "\x7b+.a\x7d".toList = .ok t ∧
    t.specialize (Assignment.environment []) = .ok t' ∧ t'.text = "\x7b.a\x7d".toList ∧
    (t.varspecs.filter fun v => (Assignment.environment [] v.name).isNone).map Varspec.whole =
      [⟨['.', 'a'], false, 0⟩] ∧
    t'.varspecs = [⟨['a'], false, 0⟩] :=
  ⟨⟨_, [.expression ⟨.reserved, [⟨['.', 'a'], false, 0⟩]⟩]⟩,
    ⟨_, [.expression ⟨.label, [⟨['a'], false, 0⟩]⟩]⟩, rfl, rfl, rfl, rfl, rfl⟩

end Template
end Rfc6570
