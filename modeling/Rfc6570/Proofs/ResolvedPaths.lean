import Rfc6570.Proofs.Splitting
import Rfc6570.Reference
/-!
Relative paths resolved at a base. Empty segments are left out in the middle, so a resolved path has
no slash behind a slash, whatever the base. Main statement: `resolvePath_single_slashes`.
-/

namespace Rfc6570.Reference

/-- Segments of which only the first may be empty. -/
structure IsSolid (segments : List Text) : Prop where
  slashless : ∀ s ∈ segments, '/' ∉ s
  filled : ∀ s ∈ segments.tail, s ≠ []

variable {done segments : List Text} {segment : Text}

theorem IsSolid.nil : IsSolid [] :=
  ⟨List.forall_mem_nil _, List.forall_mem_nil _⟩

theorem IsSolid.dropLast (solid : IsSolid done) : IsSolid done.dropLast := by
  refine ⟨fun s member => solid.slashless s (List.dropLast_subset done member), fun s member => ?_⟩
  rw [List.tail_dropLast] at member
  exact solid.filled s (List.dropLast_subset _ member)

theorem IsSolid.concat (solid : IsSolid done) (slashless : '/' ∉ segment)
    (filled : done = [] ∨ segment ≠ []) : IsSolid (done ++ [segment]) := by
  constructor
  · intro s member
    rcases List.mem_append.mp member with before | last
    · exact solid.slashless s before
    · rwa [List.mem_singleton.mp last]
  · cases done with
    | nil => exact List.forall_mem_nil _
    | cons first rest =>
      intro s member
      rcases List.mem_append.mp member with before | last
      · exact solid.filled s before
      · rw [List.mem_singleton.mp last]
        exact filled.resolve_left (List.cons_ne_nil first rest)

theorem IsSolid.walk (solid : IsSolid done) (slashless : '/' ∉ segment)
    (filled : done = [] ∨ segment ≠ []) : IsSolid (walk done segment) := by
  unfold Reference.walk
  split
  · exact solid.dropLast
  · split
    · exact solid
    · exact solid.concat slashless filled

theorem isSolid_foldl_walk (solid : IsSolid segments) : IsSolid (segments.foldl walk []) := by
  cases segments with
  | nil => exact .nil
  | cons first rest =>
    obtain ⟨slashless, others⟩ := List.forall_mem_cons.mp solid.slashless
    have filled : ∀ s ∈ rest, s ≠ [] := solid.filled
    have start : IsSolid (walk [] first) := IsSolid.nil.walk slashless (Or.inl rfl)
    rw [List.foldl_cons]
    generalize walk [] first = done at start
    clear solid
    induction rest generalizing done with
    | nil => exact start
    | cons second rest ih =>
      obtain ⟨next, others⟩ := List.forall_mem_cons.mp others
      obtain ⟨some, filled⟩ := List.forall_mem_cons.mp filled
      exact ih others filled _ (start.walk next (Or.inr some))

/-- Squeezed segments are solid up to the last. -/
theorem exists_squeeze {all : List Text} (some : all ≠ []) (slashless : ∀ s ∈ all, '/' ∉ s) :
    ∃ front last, squeeze all = front ++ [last] ∧ IsSolid front ∧ '/' ∉ last := by
  obtain ⟨first, rest, rfl⟩ := List.exists_cons_of_ne_nil some
  obtain ⟨head, others⟩ := List.forall_mem_cons.mp slashless
  cases rest with
  | nil => exact ⟨[], first, rfl, .nil, head⟩
  | cons second rest =>
    have more := List.cons_ne_nil second rest
    refine ⟨first :: (second :: rest).dropLast.filter (!·.isEmpty), (second :: rest).getLast more,
      ?_, ⟨?_, ?_⟩, others _ (List.getLast_mem _)⟩
    · rw [squeeze, List.getLast?_eq_some_getLast more, Option.toList_some]
      exact more
    · refine List.forall_mem_cons.mpr ⟨head, fun s member => others s ?_⟩
      exact List.dropLast_subset _ (List.mem_filter.mp member).1
    · intro s member
      simpa using (List.mem_filter.mp member).2

/-- Where a slash stands behind a slash, a segment in the middle is empty. -/
theorem join_single_slashes (solid : IsSolid segments) (slashless : '/' ∉ segment) (u v : Text) :
    Text.join '/' (segments ++ [segment]) ≠ u ++ '/' :: '/' :: v := by
  intro same
  have each : ∀ s ∈ segments ++ [segment], '/' ∉ s := by
    intro s member
    rcases List.mem_append.mp member with before | last
    · exact solid.slashless s before
    · rwa [List.mem_singleton.mp last]
  have split : segments ++ [segment] = u.splitOn '/' ++ [] :: v.splitOn '/' := by
    have parts : (Text.join '/' (segments ++ [segment])).splitOn '/' = segments ++ [segment] :=
      List.splitOn_intercalate '/' each (by simp)
    have second : ('/' :: v).splitOn '/' = [] :: v.splitOn '/' :=
      List.splitOn_append_cons_self [] v
    rw [← parts, same, List.splitOn_append_cons_self, second]
  obtain ⟨first, rest, front⟩ := List.exists_cons_of_ne_nil (List.splitOn_ne_nil '/' u)
  obtain ⟨last, others, back⟩ := List.exists_cons_of_ne_nil (List.splitOn_ne_nil '/' v)
  have inner := congrArg List.dropLast split
  rw [List.dropLast_concat, front, back, List.dropLast_append_of_ne_nil (by simp)] at inner
  refine solid.filled [] ?_ rfl
  rw [inner]
  simp

theorem resolvePath_single_slashes (base : Text) {path : Text} (relative : path.head? ≠ some '/')
    (u v : Text) : resolvePath base path ≠ u ++ '/' :: '/' :: v := by
  have all : ∀ s ∈ directory base ++ path.splitOn '/', '/' ∉ s := by
    intro s member
    refine (List.mem_append.mp member).elim (fun front => ?_) Text.not_mem_of_mem_splitOn
    unfold directory at front
    simp only at front
    split at front
    · exact Text.not_mem_of_mem_splitOn front
    · exact Text.not_mem_of_mem_splitOn (List.dropLast_subset _ front)
  obtain ⟨front, last, squeezed, solid, slashless⟩ := exists_squeeze
    (List.append_ne_nil_of_right_ne_nil _ (List.splitOn_ne_nil '/' path)) all
  have walked := isSolid_foldl_walk solid
  -- The last segment is written as it is, or stands for a directory and leaves an empty one.
  have joined : ∃ before segment, IsSolid before ∧ '/' ∉ segment ∧
      resolvePath base path = if (Text.join '/' (before ++ [segment])).isEmpty then ['/']
        else Text.join '/' (before ++ [segment]) := by
    simp only [resolvePath, if_neg relative, squeezed, List.foldl_append, List.foldl_cons,
      List.foldl_nil, List.getLast?_concat, Option.some.injEq]
    by_cases up : last = ['.', '.']
    · exact ⟨_, [], walked.dropLast, List.not_mem_nil, by simp [up, walk]⟩
    · by_cases here : last = ['.']
      · exact ⟨_, [], walked, List.not_mem_nil, by simp [here, walk]⟩
      · exact ⟨_, last, walked, slashless, by simp [up, here, walk]⟩
  obtain ⟨before, segment, solid, slashless, path⟩ := joined
  rw [path]
  split
  · intro same
    have short := congrArg List.length same
    simp only [List.length_append, List.length_cons, List.length_nil] at short
    omega
  · exact join_single_slashes solid slashless u v

theorem resolvePath_ne_nil (base path : Text) : resolvePath base path ≠ [] := by
  unfold resolvePath
  simp only
  generalize Text.join '/' _ = joined
  split
  · exact List.cons_ne_nil _ _
  · rename_i filled
    simpa using filled

end Rfc6570.Reference
