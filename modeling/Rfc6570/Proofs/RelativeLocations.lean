import Rfc6570.Proofs.LocationChain
import Rfc6570.Proofs.ReferenceWriting
import Rfc6570.Proofs.ResolvedPaths
/-!
A relative reference as the first location. It is completed before it is resolved at the base, and
one that begins with no slash is taken for an address on the web then, with the dots in front of its
first slash for the host. Main statement: `resolve_relative`.
-/

namespace Rfc6570
namespace Reference

variable {e : Edition} {b location : Text}

/-! ### Resolving -/

theorem resolve_scheme (base r : Reference) : (resolve base r).scheme = r.scheme := by
  unfold resolve
  split
  · rfl
  · split <;> rfl

theorem resolve_of_authority (base : Reference) {r : Reference} (host : r.authority ≠ []) :
    resolve base r = r := by
  simp [resolve, host]

theorem resolve_of_path (base : Reference) {r : Reference} (alone : r.authority = [])
    (filled : r.path ≠ []) :
    resolve base r =
      { r with authority := base.authority, path := resolvePath base.path r.path } := by
  simp [resolve, alone, filled]

theorem resolve_of_empty (base : Reference) {r : Reference} (alone : r.authority = [])
    (path : r.path = []) (params : r.params = []) :
    (resolve base r).authority = base.authority ∧ (resolve base r).path = base.path := by
  simp [resolve, alone, path, params]

/-! ### Completed references -/

/-- A reference without a scheme of its own is joined like its completed form exactly where the base
is on the web and both are written alike. -/
theorem join_completed_iff {completed : Reference} {given : Text → Reference} (filled : b ≠ [])
    (some : location ≠ [])
    (far : ∀ scheme, parse e scheme ("http://".toList ++ location) = .ok completed)
    (web : completed.scheme = "http".toList)
    (near : ∀ scheme, parse e scheme location = .ok (given scheme))
    (own : ∀ scheme, (given scheme).scheme = scheme)
    (apart : ∀ base, parse e [] b = .ok base → base.scheme = [] →
      (resolve base (given [])).authority = [] →
      ¬ "http://".toList <+: (resolve base (given [])).path) :
    join e b ("http://".toList ++ location) = join e b location ↔
      ∀ base, parse e [] b = .ok base → base.scheme = "http".toList ∧
        (resolve base completed).render e = (resolve base (given "http".toList)).render e := by
  have more : "http://".toList ++ location ≠ [] := List.cons_ne_nil _ _
  cases read : parse e [] b with
  | error f =>
    rw [join_error filled some read, join_error filled more read]
    exact iff_of_true rfl nofun
  | ok base =>
    rw [join_ok filled more read (far base.scheme), join_ok filled some read (near base.scheme),
      own base.scheme, web]
    by_cases scheme : base.scheme = "http".toList
    · have related : ¬ ("http".toList ≠ "http".toList ∨
          (!(hierarchical e).contains "http".toList) = true) := by cases e <;> decide
      rw [scheme, if_neg related, if_neg related]
      refine ⟨fun same other equal => ?_, fun every => congrArg _ (every base rfl).2⟩
      obtain rfl := Except.ok.inj equal
      exact ⟨scheme, Except.ok.inj same⟩
    · -- The completed one stays as it is, so the other would have to be written like it.
      rw [if_pos (Or.inl (Ne.symm scheme))]
      refine iff_of_false (fun same => ?_) fun every => scheme (every base rfl).1
      have written := Except.ok.inj same
      split at written
      · exact absurd (List.append_left_eq_self.mp written) (List.cons_ne_nil _ _)
      · rename_i related
        have known : (hierarchical e).contains base.scheme = true := by simpa using related
        rw [← own base.scheme, ← resolve_scheme base] at known scheme
        obtain ⟨bare, alone, front⟩ := http_isPrefix_render known scheme ⟨location, written⟩
        rw [resolve_scheme, own] at bare
        rw [bare] at alone front
        exact apart base read bare alone front

theorem authority_append_inj {first second path other : Text} (left : '/' ∉ first)
    (right : '/' ∉ second) :
    first ++ '/' :: path = second ++ '/' :: other ↔ first = second ∧ path = other := by
  refine ⟨fun same => ?_, by rintro ⟨rfl, rfl⟩; rfl⟩
  have sides := congrArg (Text.cut '/') same
  rw [Text.cut_append left, Text.cut_append right] at sides
  exact Prod.mk.injEq .. ▸ sides

/-- Behind `http://` what stands in front of the first slash or mark is the host. -/
theorem parse_completed {host : Text} (dots : host ∈ [[], ['.'], ['.', '.']]) {mark : Char}
    (ends : mark ∈ ['/', '?', '#']) (e : Edition) (tail scheme : Text) :
    parse e scheme ("http://".toList ++ (host ++ mark :: tail)) =
      .ok (behindAuthority e "http".toList host (mark :: withoutBreaks tail)) := by
  simp only [List.mem_cons, List.not_mem_nil, or_false] at dots ends
  rcases dots with rfl | rfl | rfl <;> rcases ends with rfl | rfl | rfl <;>
    exact parse_of_checked rfl rfl rfl rfl

theorem join_completed_mark {mark : Char} (marked : mark ∈ ['?', '#']) (filled : b ≠ [])
    (tail : Text) :
    join e b ("http://".toList ++ mark :: tail) = join e b (mark :: tail) ↔
      ∀ base, parse e [] b = .ok base → base.scheme = "http".toList := by
  have near (scheme : Text) : parse e scheme (mark :: tail) =
      .ok (behindAuthority e scheme [] (mark :: withoutBreaks tail)) := by
    simp only [List.mem_cons, List.not_mem_nil, or_false] at marked
    rcases marked with rfl | rfl
    all_goals exact parse_relative (by decide) rfl (by decide) _ _ _
  have far := parse_completed List.mem_cons_self (List.mem_cons_of_mem '/' marked) e tail
  rw [join_completed_iff filled (List.cons_ne_nil mark tail) far rfl near fun _ => rfl]
  · simp
  · intro base read bare alone
    obtain ⟨path, params⟩ := behindAuthority_mark marked e [] [] (withoutBreaks tail)
    obtain ⟨authority, segments⟩ := resolve_of_empty base rfl path params
    rw [segments]
    exact not_http_path read bare (authority.symm.trans alone)

theorem join_completed_dots {dots : Text} (up : dots ∈ [['.'], ['.', '.']]) (filled : b ≠ [])
    (tail : Text) :
    join e b ("http://".toList ++ (dots ++ '/' :: tail)) = join e b (dots ++ '/' :: tail) ↔
      ∀ base, parse e [] b = .ok base → base.scheme = "http".toList ∧ base.authority = dots ∧
        ∀ r, parse e base.scheme (dots ++ '/' :: tail) = .ok r →
          dots ++ rooted (resolve base r).path = r.path := by
  have near (scheme : Text) : parse e scheme (dots ++ '/' :: tail) =
      .ok (behindAuthority e scheme [] (dots ++ '/' :: withoutBreaks tail)) := by
    simp only [List.mem_cons, List.not_mem_nil, or_false] at up
    rcases up with rfl | rfl
    all_goals exact parse_relative (by decide) rfl (by decide) _ _ _
  have far := parse_completed (List.mem_cons_of_mem [] up) List.mem_cons_self e tail
  have plain : '#' ∉ dots ∧ '?' ∉ dots ∧ '/' ∉ dots ∧ dots ≠ [] ∧
      ∀ path : Text, (dots ++ '/' :: path).head? ≠ some '/' := by
    simp only [List.mem_cons, List.not_mem_nil, or_false] at up
    rcases up with rfl | rfl <;> simp
  obtain ⟨noFragment, noQuery, noSlash, host, relative⟩ := plain
  rw [join_completed_iff filled (by simp) far rfl near fun _ => rfl]
  · obtain ⟨path, params, query, fragment, behind⟩ :=
      exists_behindAuthority e "http".toList (withoutBreaks tail)
    refine forall₂_congr fun base read => and_congr_right fun web => ?_
    have completed := behind dots [] List.not_mem_nil List.not_mem_nil
    have given := behind [] dots noFragment noQuery
    rw [List.nil_append] at completed
    rw [web, near]
    simp only [Except.ok.injEq, forall_eq', completed, given]
    rw [resolve_of_authority base host, resolve_of_path base rfl (by simp)]
    obtain ⟨rest, root⟩ := exists_rooted (resolvePath_ne_nil base.path (dots ++ '/' :: path))
    rw [render_web rfl (by simp) (Or.inl host), render_web rfl (resolvePath_ne_nil _ _)
      (Or.inr (resolvePath_single_slashes base.path (relative path) []))]
    -- What is written behind the path is one text for both.
    refine (List.append_left_inj (marked ';' params ++ _)).trans ?_
    rw [List.append_right_inj, root]
    refine (authority_append_inj noSlash (slash_not_mem_authority read)).trans ?_
    rw [List.append_right_inj, List.cons_inj_right, eq_comm, @eq_comm _ path]
  · intro base read bare alone
    obtain ⟨path, params, query, fragment, behind⟩ :=
      exists_behindAuthority e [] (withoutBreaks tail)
    rw [behind [] dots noFragment noQuery, resolve_of_path base rfl (by simp)]
    rintro ⟨more, front⟩
    exact resolvePath_single_slashes base.path (relative path) "http:".toList more front.symm

end Reference

namespace Locations

open Reference (rooted)

theorem complete_slash (tail : Text) : complete ('/' :: tail) = '/' :: tail := rfl

theorem complete_relative {c : Char} (relative : c ∈ ['?', '#', '.']) (tail : Text) :
    complete (c :: tail) = "http://".toList ++ c :: tail := by
  simp only [List.mem_cons, List.not_mem_nil, or_false] at relative
  rcases relative with rfl | rfl | rfl <;> rfl

theorem resolve_at (e : Edition) {l : Locations} {b location : Text} {rest : List Text}
    (given : l.locations = location :: rest) (plain : l.store.entries = [])
    (based : l.base? = some b) (filled : b ≠ []) :
    l.resolve e = (do
      let first ← Reference.join e b (complete location)
      let others ← chain (Reference.join e) first rest
      pure (first :: others)) := by
  have ready : ∀ t ∈ l.locations, l.ready t = .ok (id t) := fun t _ => by rw [ready, plain]; rfl
  have first : resolveFirst (Reference.join e) (some b) location =
      Reference.join e b (complete location) := by
    cases b with
    | nil => exact absurd rfl filled
    | cons => rfl
  rw [resolve, resolveWith_eq, mapM_ok_of_forall ready, List.map_id, given, based, ok_bind,
    resolveAll, first]

/-- A base acts on the completed first location. One that begins with a slash means the same as it
stands. One that begins with a mark does so where the base is on the web, and one that begins with
dots and a slash where the base has the dots for its host and the path of the location besides. -/
theorem resolve_relative (e : Edition) {l : Locations} {b location : Text} {rest : List Text}
    (given : l.locations = location :: rest) (plain : l.store.entries = [])
    (based : l.base? = some b) (filled : b ≠ []) :
    l.resolve e = (do
      let first ← Reference.join e b (complete location)
      let others ← chain (Reference.join e) first rest
      pure (first :: others)) ∧
    (∀ tail, location = '/' :: tail →
      Reference.join e b (complete location) = Reference.join e b location) ∧
    (∀ mark ∈ ['?', '#'], ∀ tail, location = mark :: tail →
      (Reference.join e b (complete location) = Reference.join e b location ↔
        ∀ base, Reference.parse e [] b = .ok base → base.scheme = "http".toList)) ∧
    ∀ dots ∈ [['.'], ['.', '.']], ∀ tail, location = dots ++ '/' :: tail →
      (Reference.join e b (complete location) = Reference.join e b location ↔
        ∀ base, Reference.parse e [] b = .ok base → base.scheme = "http".toList ∧
          base.authority = dots ∧ ∀ r, Reference.parse e base.scheme location = .ok r →
            dots ++ rooted (base.resolve r).path = r.path) := by
  refine ⟨resolve_at e given plain based filled, ?_, ?_, ?_⟩
  · rintro tail rfl
    rw [complete_slash]
  · rintro mark marked tail rfl
    rw [complete_relative (List.mem_append_left ['.'] marked)]
    exact Reference.join_completed_mark marked filled tail
  · rintro dots up tail rfl
    have completed : complete (dots ++ '/' :: tail) = "http://".toList ++ (dots ++ '/' :: tail) := by
      simp only [List.mem_cons, List.not_mem_nil, or_false] at up
      rcases up with rfl | rfl <;> exact complete_relative (by simp) _
    rw [completed]
    exact Reference.join_completed_dots up filled tail

/-- A query behind a base on the web. -/
theorem resolve_relative_query : ∃ l : Locations,
    l.locations = ["?x".toList] ∧ l.base? = some "http://h/a/b".toList ∧
    l.resolve .current = .ok ["http://h/a/b?x".toList] ∧
    Reference.join .current "http://h/a/b".toList (complete "?x".toList) =
      Reference.join .current "http://h/a/b".toList "?x".toList := by
  let l : Locations := { locations := ["?x".toList], base? := some "http://h/a/b".toList }
  obtain ⟨resolved, -, mark, -⟩ :=
    resolve_relative .current (rfl : l.locations = ["?x".toList]) rfl rfl (by simp)
  have web : ∀ base, Reference.parse .current [] "http://h/a/b".toList = .ok base →
      base.scheme = "http".toList := by
    intro base read
    cases read
    rfl
  exact ⟨l, rfl, rfl, resolved.trans rfl, (mark '?' (by simp) ['x'] rfl).mpr web⟩

/-- A path relative to the base is taken for one of the host `..`. -/
theorem resolve_relative_parent :
    (do
      let l ← ({} : Locations).setBase .current "https://h/a/b".toList
      (l.add "../c".toList).resolve .current) = .ok ["http://../c".toList] ∧
    Reference.join .current "https://h/a/b".toList "../c".toList = .ok "https://h/c".toList :=
  ⟨rfl, rfl⟩

end Locations
end Rfc6570
