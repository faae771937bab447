import Rfc6570.Proofs.Environments
import Rfc6570.Proofs.ExpansionAlphabet
import Rfc6570.Proofs.ExpressionGrammar
import Rfc6570.Proofs.PartSeries
/-!
Partial expansion and reading its text again, as one operation on parts. A pass makes of an
expression what it has written and the expression that its residual is read as; `specialize_eq`
says that the template which a pass leaves consists of these parts.
-/

namespace Rfc6570

namespace Part

def pass (env : Environment) : Part → Except Fault (List Piece)
  | .literal t => .ok [.free t]
  | .expression e => do
    let (output, left) ← e.expandPresent env
    pure (if left = [] then [.free output] else [.free output, .braced (e.residualBody left)])

def residue (env : Environment) : Part → Except Fault (List Part)
  | .literal t => .ok [.literal t]
  | .expression e => do
    let (output, left) ← e.expandPresent env
    if left = [] then pure [.literal output]
    else do
      let rest ← e.remainder left
      pure [.literal output, .expression rest]

theorem residue_ok {env : Environment} {e : Expression} {rest : List Part}
    (h : residue env (.expression e) = .ok rest) :
    ∃ output left, e.expandPresent env = .ok (output, left) ∧
      (left = [] ∧ rest = [.literal output] ∨
        left ≠ [] ∧ ∃ r, e.remainder left = .ok r ∧ rest = [.literal output, .expression r]) := by
  unfold residue at h
  obtain ⟨⟨output, left⟩, found, h⟩ := bind_ok h
  refine ⟨output, left, found, ?_⟩
  simp only at h
  split at h
  · cases h
    exact Or.inl ⟨by assumption, rfl⟩
  · obtain ⟨r, read, h⟩ := bind_ok h
    cases h
    exact Or.inr ⟨by assumption, r, read, rfl⟩

theorem partialExpand_eq (env : Environment) (p : Part) :
    p.partialExpand env = (p.pass env >>= fun pieces => pure (Piece.writeAll pieces)) := by
  cases p with
  | literal t => simp [partialExpand, pass, Piece.writeAll, Piece.write]
  | expression e =>
    rw [partialExpand, Expression.partialExpand, pass]
    cases e.expandPresent env with
    | error f => rfl
    | ok found =>
      obtain ⟨output, left⟩ := found
      by_cases nothing : left = []
      · simp [nothing, Piece.writeAll, Piece.write]
      · simp [nothing, Piece.writeAll, Piece.write, Expression.residual_eq_write]

theorem partialExpandAll_eq (env : Environment) (parts : List Part) :
    partialExpandAll env parts =
      (parts.mapM (pass env) >>= fun series => pure (Piece.writeAll series.flatten)) := by
  induction parts with
  | nil => rfl
  | cons p rest ih =>
    rw [partialExpandAll_eq_gather, gather_cons, ← partialExpandAll_eq_gather, ih, partialExpand_eq,
      List.mapM_cons]
    cases p.pass env with
    | error f => rfl
    | ok pieces =>
      cases rest.mapM (pass env) with
      | error f => rfl
      | ok series => simp [Piece.writeAll_append]

theorem missing_named {e : Expression} (formed : e.WellFormed) (env : Environment) :
    ∀ v ∈ Expression.missing env e.varspecs, Characters.isName v.name = true :=
  fun v member => formed.named v (List.mem_filter.mp member).1

theorem braceFree_residualBody {e : Expression} {left : List Varspec}
    (named : ∀ v ∈ left, Characters.isName v.name = true) : BraceFree (e.residualBody left) := by
  have opening : BraceFree (if left.length = e.varspecs.length then e.operator.first
      else [e.operator.separator]) := by
    split <;> cases e.operator <;> exact ⟨by decide, by decide⟩
  refine opening.append ⟨?_, ?_⟩
  all_goals
    intro member
    rcases Text.mem_join member with comma | ⟨word, source, inside⟩
    · cases comma
    · obtain ⟨v, among, rfl⟩ := List.mem_map.mp source
      exact (Varspec.spells_residualName (named v among)).not_mem (by decide) (by decide) (by decide)
        inside

theorem residualBody_ne_nil {e : Expression} {left : List Varspec} (filled : left ≠ [])
    (named : ∀ v ∈ left, Characters.isName v.name = true) : e.residualBody left ≠ [] := by
  obtain ⟨v, rest, rfl⟩ := List.exists_cons_of_ne_nil filled
  have spelled := (Characters.isName_iff.mp (named v List.mem_cons_self)).1
  rw [Expression.residualBody, List.map_cons, Text.join_cons, Expression.residualName]
  simp [spelled]

theorem pass_sound {env : Environment} {p : Part} (formed : p.WellFormed) {pieces : List Piece}
    (h : p.pass env = .ok pieces) : ∀ q ∈ pieces, q.Sound := by
  cases p with
  | literal t =>
    cases h
    intro q member
    rw [List.mem_singleton.mp member]
    exact formed
  | expression e =>
    obtain ⟨⟨output, left⟩, found, h⟩ := bind_ok h
    have free : BraceFree output :=
      Expression.braceFree_of_uriText (Expression.uriText_expandPresent formed.named found)
    have named := missing_named formed env
    rw [← (Expression.expandPresent_ok found).1] at named
    cases h
    intro q member
    split at member
    · rw [List.mem_singleton.mp member]
      exact free
    · rename_i filled
      rcases List.mem_cons.mp member with rfl | member
      · exact free
      · rw [List.mem_singleton.mp member]
        exact ⟨braceFree_residualBody named, residualBody_ne_nil filled named⟩

theorem read_pass {env : Environment} {p : Part} (formed : p.WellFormed) {pieces : List Piece}
    (h : p.pass env = .ok pieces) : pieces.mapM Piece.read = p.residue env := by
  cases p with
  | literal t =>
    cases h
    rfl
  | expression e =>
    obtain ⟨⟨output, left⟩, found, h⟩ := bind_ok h
    have named := missing_named formed env
    rw [← (Expression.expandPresent_ok found).1] at named
    cases h
    rw [residue, found, ok_bind]
    by_cases nothing : left = []
    · simp [nothing, Piece.read]
    · simp only [if_neg nothing, List.mapM_cons, Piece.read,
        Expression.parseBody_residualBody nothing named]
      cases e.remainder left <;> rfl

theorem mapM_read_pass {env : Environment} {parts : List Part} (formed : ∀ p ∈ parts, p.WellFormed)
    {series : List (List Piece)} (h : parts.mapM (pass env) = .ok series) :
    series.flatten.mapM Piece.read =
      (parts.mapM (residue env) >>= fun rests => pure rests.flatten) := by
  induction parts generalizing series with
  | nil =>
    rw [mapM_nil_ok h]
    rfl
  | cons p rest ih =>
    obtain ⟨pieces, others, first, tail, rfl⟩ := mapM_cons_ok h
    have readFirst := read_pass (formed p List.mem_cons_self) first
    have readOthers := ih (fun q member => formed q (List.mem_cons_of_mem p member)) tail
    rw [List.flatten_cons, List.mapM_append, readFirst, readOthers, List.mapM_cons]
    cases p.residue env with
    | error f => rfl
    | ok left => cases rest.mapM (residue env) <;> rfl

end Part

namespace Template

/-- The template that a pass leaves has the parts that the pass leaves of each part. -/
theorem specialize_eq {env : Environment} {t : Template} {text : Text}
    (formed : ∀ p ∈ t.parts, p.WellFormed) (h : t.partialExpand env = .ok text) :
    t.specialize env = (t.parts.mapM (Part.residue env) >>= fun rests =>
      pure ⟨text, Part.compact rests.flatten⟩) := by
  have written := h
  rw [partialExpand, Part.partialExpandAll_eq] at written
  obtain ⟨series, passed, same⟩ := bind_ok written
  cases same
  have sound : ∀ q ∈ series.flatten, q.Sound := by
    intro q member
    obtain ⟨pieces, among, inside⟩ := List.mem_flatten.mp member
    obtain ⟨p, source, found⟩ := mem_of_mapM_ok passed pieces among
    exact Part.pass_sound (formed p source) found q inside
  rw [specialize, h, ok_bind, parse, parseParts_writeAll sound, Part.mapM_read_pass formed passed]
  cases t.parts.mapM (Part.residue env) <;> rfl

end Template
end Rfc6570
