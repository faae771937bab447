import Rfc6570.Proofs.ReferenceReading
/-!
Writing a URI reference. Behind `http` and an authority the path begins with a slash, and no
reference of another scheme is written like an address on the web. Main statements: `render_web`,
`http_isPrefix_render` and `join_ok`.
-/

namespace Rfc6570.Reference

variable {e : Edition}

/-! ### Writing -/

def ending (r : Reference) : Text :=
  marked ';' r.params ++ (marked '?' r.query ++ marked '#' r.fragment)

theorem head_ending {r : Reference} {c : Char} (first : r.ending.head? = some c) :
    c = ';' ∨ c = '?' ∨ c = '#' := by
  have mark {m : Char} {t rest : Text} (head : (marked m t ++ rest).head? = some c) :
      c = m ∨ rest.head? = some c := by
    unfold marked at head
    split at head
    · exact Or.inr head
    · exact Or.inl (Option.some.inj head).symm
  rcases mark first with params | first
  · exact Or.inl params
  · rcases mark first with query | first
    · exact Or.inr (Or.inl query)
    · rw [← List.append_nil (marked '#' r.fragment)] at first
      exact Or.inr (Or.inr ((mark first).resolve_right nofun))

/-- A front that has not the first character of what follows ends within the path. -/
theorem isPrefix_of_append {front path behind : Text} (whole : front <+: path ++ behind)
    (apart : ∀ c, behind.head? = some c → c ∉ front) : front <+: path := by
  induction path generalizing front with
  | nil =>
    cases front with
    | nil => exact List.nil_prefix
    | cons c front =>
      obtain ⟨more, rfl⟩ := whole
      exact absurd List.mem_cons_self (apart c rfl)
  | cons c path ih =>
    cases front with
    | nil => exact List.nil_prefix
    | cons d front =>
      obtain ⟨rfl, rest⟩ := List.cons_prefix_cons.mp whole
      refine List.cons_prefix_cons.mpr ⟨rfl, ih rest fun c first => ?_⟩
      exact (not_or.mp (mt List.mem_cons.mpr (apart c first))).2

/-- A path behind an authority begins with a slash. -/
def rooted (path : Text) : Text :=
  if path.isEmpty || path.head? == some '/' then path else '/' :: path

theorem rooted_append {path : Text} (filled : path ≠ []) (behind : Text) :
    rooted (path ++ behind) = rooted path ++ behind := by
  obtain ⟨c, rest, rfl⟩ := List.exists_cons_of_ne_nil filled
  simp only [rooted, List.cons_append, List.isEmpty_cons, List.head?_cons, Bool.false_or]
  split <;> rfl

theorem exists_rooted {path : Text} (filled : path ≠ []) : ∃ rest, rooted path = '/' :: rest := by
  obtain ⟨c, rest, rfl⟩ := List.exists_cons_of_ne_nil filled
  simp only [rooted, List.isEmpty_cons, List.head?_cons, Bool.false_or, beq_iff_eq,
    Option.some.injEq]
  split
  · rename_i slash
    exact ⟨rest, slash ▸ rfl⟩
  · exact ⟨c :: rest, rfl⟩

theorem renderPath_bare {r : Reference} (bare : r.scheme = []) (alone : r.authority = [])
    (path : Text) : r.renderPath e path = path := by
  rw [renderPath, bare, alone]
  rfl

theorem renderPath_rooted {r : Reference} {path : Text}
    (marked : r.authority ≠ [] ∨ r.scheme = "http".toList ∧ path.take 2 ≠ ['/', '/']) :
    r.renderPath e path = '/' :: '/' :: (r.authority ++ rooted path) := by
  have written : (!r.authority.isEmpty ||
      (!r.scheme.isEmpty && (withAuthority e).contains r.scheme &&
        path.take 2 != ['/', '/'])) = true := by
    rcases marked with some | ⟨web, single⟩
    · simp [some]
    · have known : (withAuthority e).contains "http".toList = true := by cases e <;> decide
      simp only [Bool.or_eq_true, Bool.and_eq_true, web, known, bne_iff_ne]
      exact Or.inr ⟨⟨rfl, trivial⟩, single⟩
  rw [renderPath, if_pos written, rooted]
  split <;> simp

theorem render_eq (e : Edition) (r : Reference) :
    r.render e = (if r.scheme.isEmpty then [] else r.scheme ++ [':']) ++
      r.renderPath e (r.path ++ marked ';' r.params) ++
        (marked '?' r.query ++ marked '#' r.fragment) :=
  List.append_assoc _ _ _

/-- Over the web a path stands behind the authority, unless it begins with two slashes itself. -/
theorem render_web {r : Reference} (web : r.scheme = "http".toList) (filled : r.path ≠ [])
    (behind : r.authority ≠ [] ∨ ∀ rest, r.path ≠ '/' :: '/' :: rest) :
    r.render e = "http://".toList ++ (r.authority ++ rooted r.path) ++ r.ending := by
  have start : r.authority ≠ [] ∨
      r.scheme = "http".toList ∧ (r.path ++ marked ';' r.params).take 2 ≠ ['/', '/'] := by
    refine behind.imp_right fun single => ⟨web, ?_⟩
    obtain ⟨c, rest, path⟩ := List.exists_cons_of_ne_nil filled
    rw [path]
    cases rest with
    | nil => unfold marked; split <;> simp
    | cons d rest =>
      intro same
      obtain ⟨rfl, rfl⟩ : c = '/' ∧ d = '/' := by simpa using same
      exact single rest path
  rw [render_eq, renderPath_rooted start, rooted_append filled, web, ending]
  simp

/-- What is written like an address on the web has its scheme, or a path like one. -/
theorem http_isPrefix_render {r : Reference} (known : (hierarchical e).contains r.scheme = true)
    (other : r.scheme ≠ "http".toList) (front : "http://".toList <+: r.render e) :
    r.scheme = [] ∧ r.authority = [] ∧ "http://".toList <+: r.path := by
  by_cases bare : r.scheme = []
  · by_cases alone : r.authority = []
    · rw [render_eq, renderPath_bare bare alone, bare, List.append_assoc,
        List.append_assoc r.path] at front
      have apart : ∀ c, r.ending.head? = some c → c ∉ "http://".toList := by
        intro c first
        rcases head_ending first with rfl | rfl | rfl <;> decide
      exact ⟨bare, alone, isPrefix_of_append front apart⟩
    · rw [render_eq, renderPath_rooted (Or.inl alone), bare] at front
      obtain ⟨more, whole⟩ := front
      cases whole
  · obtain ⟨more, whole⟩ := front
    have own := Text.cut_append (colon_not_mem_scheme known)
      (r.renderPath e (r.path ++ marked ';' r.params) ++
        (marked '?' r.query ++ marked '#' r.fragment))
    have web := Text.cut_append (by decide : ':' ∉ "http".toList) ("//".toList ++ more)
    have written : r.render e = r.scheme ++ ':' ::
        (r.renderPath e (r.path ++ marked ';' r.params) ++
          (marked '?' r.query ++ marked '#' r.fragment)) := by
      rw [render_eq, if_neg (by simpa using bare)]
      simp
    rw [← written, ← whole] at own
    exact absurd (congrArg Prod.fst (own.symm.trans web)) other

/-! ### Joining -/

variable {b t : Text} {base r : Reference} {f : Fault}

theorem join_error (filled : b ≠ []) (some : t ≠ []) (read : parse e [] b = .error f) :
    join e b t = .error f := by
  rw [join, if_neg (by simpa using filled), if_neg (by simpa using some), read]
  rfl

theorem join_ok (filled : b ≠ []) (some : t ≠ []) (read : parse e [] b = .ok base)
    (given : parse e base.scheme t = .ok r) :
    join e b t = .ok (if r.scheme ≠ base.scheme ∨ !(hierarchical e).contains r.scheme then t
      else (resolve base r).render e) := by
  rw [join, if_neg (by simpa using filled), if_neg (by simpa using some), read, ok_bind, given,
    ok_bind]
  split <;> rfl

end Rfc6570.Reference
