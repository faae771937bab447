import Rfc6570.Expansion
import Rfc6570.Proofs.TemplatePieces
/-!
Series of parts: the texts that are made of them, and the expressions among them. Neither changes
when literals that meet are put together.
-/

namespace Rfc6570.Part

/-! ### Texts, one after the other -/

/-- The texts that `f` makes of parts, one after the other. -/
def gather (f : Part → Except Fault Text) (parts : List Part) : Except Fault Text :=
  parts.mapM f >>= fun texts => pure texts.flatten

theorem expandAll_eq_gather (env : Environment) (parts : List Part) :
    expandAll env parts = gather (expand env) parts := rfl

theorem partialExpandAll_eq_gather (env : Environment) (parts : List Part) :
    partialExpandAll env parts = gather (partialExpand env) parts := rfl

theorem gather_cons (f : Part → Except Fault Text) (p : Part) (rest : List Part) :
    gather f (p :: rest) =
      (f p >>= fun first => gather f rest >>= fun more => pure (first ++ more)) := by
  unfold gather
  rw [List.mapM_cons]
  cases f p with
  | error e => rfl
  | ok first => cases rest.mapM f <;> rfl

/-- A series is gathered from its two sides, and fails as the first of them that fails. -/
theorem gather_append_eq (f : Part → Except Fault Text) (left right : List Part) :
    gather f (left ++ right) =
      (gather f left >>= fun s => gather f right >>= fun t => pure (s ++ t)) := by
  unfold gather
  rw [List.mapM_append]
  cases left.mapM f with
  | error e => rfl
  | ok before =>
    cases right.mapM f with
    | error e => rfl
    | ok after => simp

theorem gather_append {f : Part → Except Fault Text} {left right : List Part} {s t : Text}
    (first : gather f left = .ok s) (second : gather f right = .ok t) :
    gather f (left ++ right) = .ok (s ++ t) := by
  rw [gather_append_eq, first, second]
  rfl

theorem gather_cons_ok {f : Part → Except Fault Text} {p : Part} {rest : List Part} {text : Text}
    (h : gather f (p :: rest) = .ok text) :
    ∃ first more, f p = .ok first ∧ gather f rest = .ok more ∧ text = first ++ more := by
  rw [gather_cons] at h
  obtain ⟨first, made, h⟩ := bind_ok h
  obtain ⟨more, series, h⟩ := bind_ok h
  cases h
  exact ⟨first, more, made, series, rfl⟩

theorem gather_prepend {f : Part → Except Fault Text} (copied : ∀ t, f (.literal t) = .ok t) (t : Text)
    (parts : List Part) : gather f (prepend t parts) = gather f (.literal t :: parts) := by
  unfold prepend
  split
  · rename_i u rest
    rw [gather_cons, gather_cons, gather_cons, copied, copied, copied]
    cases gather f rest with
    | error e => rfl
    | ok more => simp
  · cases t with
    | nil =>
      rw [gather_cons, copied]
      cases found : gather f parts with
      | error e => exact found
      | ok more => exact found
    | cons c t => rfl

theorem gather_compact {f : Part → Except Fault Text} (copied : ∀ t, f (.literal t) = .ok t)
    (parts : List Part) : gather f (compact parts) = gather f parts := by
  induction parts with
  | nil => rfl
  | cons p rest ih =>
    cases p with
    | literal t => rw [compact, gather_prepend copied, gather_cons, gather_cons, ih]
    | expression e => rw [compact, gather_cons, gather_cons, ih]

/-! ### Expressions -/

def expressions (parts : List Part) : List Expression :=
  parts.filterMap fun
    | .literal _ => none
    | .expression e => some e

theorem expressions_append (left right : List Part) :
    expressions (left ++ right) = expressions left ++ expressions right :=
  List.filterMap_append

theorem expressions_prepend (t : Text) (parts : List Part) :
    expressions (prepend t parts) = expressions parts := by
  have alone (u : Text) : expressions (Template.literal u) = [] := by
    cases u <;> rfl
  unfold prepend
  split
  · rfl
  · rw [expressions_append, alone]
    rfl

theorem expressions_compact (parts : List Part) : expressions (compact parts) = expressions parts := by
  induction parts with
  | nil => rfl
  | cons p rest ih =>
    cases p with
    | literal t => rw [compact, expressions_prepend, ih]; rfl
    | expression e => exact congrArg (e :: ·) ih

theorem expressions_flatten (series : List (List Part)) :
    expressions series.flatten = (series.map expressions).flatten :=
  List.filterMap_flatten

theorem varspecs_eq_expressions (parts : List Part) :
    parts.flatMap varspecs = (expressions parts).flatMap Expression.varspecs := by
  induction parts with
  | nil => rfl
  | cons p rest ih =>
    cases p with
    | literal t => exact ih
    | expression e => exact congrArg (e.varspecs ++ ·) ih

theorem varspecs_compact (parts : List Part) :
    (compact parts).flatMap varspecs = parts.flatMap varspecs := by
  rw [varspecs_eq_expressions, expressions_compact, ← varspecs_eq_expressions]

theorem mem_expressions {e : Expression} {parts : List Part} :
    e ∈ expressions parts ↔ .expression e ∈ parts := by
  rw [expressions, List.mem_filterMap]
  constructor
  · rintro ⟨p, member, found⟩
    cases p with
    | literal t => cases found
    | expression r =>
      cases found
      exact member
  · intro member
    exact ⟨_, member, rfl⟩

theorem all_isLiteral_iff (parts : List Part) :
    parts.all isLiteral = true ↔ expressions parts = [] := by
  induction parts with
  | nil => simp [expressions]
  | cons p rest ih =>
    cases p with
    | literal t => simpa [expressions, isLiteral] using ih
    | expression e => simp [expressions, isLiteral]

end Rfc6570.Part
