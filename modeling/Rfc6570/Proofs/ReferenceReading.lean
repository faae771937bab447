import Mathlib.Data.List.TakeDrop
import Rfc6570.Proofs.Outcome
import Rfc6570.Proofs.Splitting
import Rfc6570.Reference
/-!
Reading a URI reference, a component at a time. One that begins with no letter has no scheme of its
own, and only one with a scheme begins like an address on the web. What stands in front of a slash
does not count for the parameters of a path. Main statements: `exists_behindAuthority` and
`not_http_path`.
-/

namespace Rfc6570.Reference

variable {e : Edition}

/-! ### Reading -/

def withoutBreaks (t : Text) : Text :=
  t.filter fun c => !(c == '\t' || c == '\n' || c == '\r')

/-- The reference of a scheme and an authority with what stands behind them. -/
def behindAuthority (e : Edition) (scheme authority rest : Text) : Reference :=
  let (rest, fragment) := Text.cut '#' rest
  let (path, query) := Text.cut '?' rest
  let (path, params) := if (withParams e).contains scheme then readParams path else (path, [])
  { scheme, authority, path, params, query, fragment }

theorem clean_cons {c : Char} (printable : 32 < c.toNat) (t : Text) :
    clean (c :: t) = c :: withoutBreaks t := by
  have solid : c ≠ '\t' ∧ c ≠ '\n' ∧ c ≠ '\r' := by
    refine ⟨?_, ?_, ?_⟩
    all_goals
      rintro rfl
      exact absurd printable (by decide)
  simp [clean, withoutBreaks, Nat.not_le.mpr printable, solid]

/-- Nothing that does not begin with a letter is a scheme. -/
theorem readScheme_of_not_alpha {c : Char} (other : c.isAlpha = false) (base rest : Text) :
    readScheme base (c :: rest) = (base, c :: rest) := by
  unfold readScheme
  split
  · rename_i first name after found
    obtain ⟨same, -⟩ := Text.cut?_eq_some.mp found
    obtain ⟨rfl, -⟩ := List.cons_eq_cons.mp same
    rw [other, Bool.false_and, if_neg Bool.false_ne_true]
  · rfl

theorem parse_eq (e : Edition) (base t : Text) :
    parse e base t = (do
      let (scheme, rest) := readScheme base (clean t)
      let (authority, rest) := readAuthority rest
      (checkBrackets authority).mapError Fault.authority
      (checkCharacters authority).mapError Fault.authority
      pure (behindAuthority e scheme authority rest)) := rfl

theorem parse_of_checked {base t scheme authority rest after : Text}
    (scheme_read : readScheme base (clean t) = (scheme, rest))
    (authority_read : readAuthority rest = (authority, after))
    (brackets : checkBrackets authority = .ok ()) (characters : checkCharacters authority = .ok ()) :
    parse e base t = .ok (behindAuthority e scheme authority after) := by
  rw [parse_eq, scheme_read]
  simp only [authority_read, brackets, characters]
  rfl

/-- A text that begins with no letter and no slash is read at the scheme and without an authority. -/
theorem parse_relative {c : Char} (printable : 32 < c.toNat) (other : c.isAlpha = false)
    (slash : c ≠ '/') (e : Edition) (base tail : Text) :
    parse e base (c :: tail) = .ok (behindAuthority e base [] (c :: withoutBreaks tail)) := by
  have scheme_read : readScheme base (clean (c :: tail)) = (base, c :: withoutBreaks tail) := by
    rw [clean_cons printable, readScheme_of_not_alpha other]
  refine parse_of_checked scheme_read ?_ rfl rfl
  unfold readAuthority
  split
  · rename_i same
    exact absurd (List.cons_eq_cons.mp same).1 slash
  · rfl

theorem parse_ok {base t : Text} {r : Reference} (read : parse e base t = .ok r) :
    ∃ scheme rest authority after, readScheme base (clean t) = (scheme, rest) ∧
      readAuthority rest = (authority, after) ∧ r = behindAuthority e scheme authority after := by
  rw [parse_eq] at read
  obtain ⟨-, -, read⟩ := bind_ok read
  obtain ⟨-, -, read⟩ := bind_ok read
  cases read
  exact ⟨_, _, _, _, rfl, rfl, rfl⟩

/-! ### Paths -/

/-- A text that ends where a segment begins. -/
def EndsAtSlash (t : Text) : Prop :=
  t = [] ∨ ∃ before, t = before ++ ['/']

theorem exists_lastSegment (path : Text) :
    ∃ before last, path = before ++ last ∧ EndsAtSlash before ∧ '/' ∉ last := by
  cases found : Text.cut? '/' path.reverse with
  | none => exact ⟨[], path, rfl, Or.inl rfl, by simpa using Text.cut?_eq_none.mp found⟩
  | some sides =>
    obtain ⟨last, before⟩ := sides
    obtain ⟨split, free⟩ := Text.cut?_eq_some.mp found
    refine ⟨before.reverse ++ ['/'], last.reverse, ?_, Or.inr ⟨_, rfl⟩, by simpa using free⟩
    rw [← List.reverse_reverse path, split]
    simp

theorem readParams_nil : readParams [] = ([], []) := rfl

theorem readParams_append {before last : Text} (edge : EndsAtSlash before) (free : '/' ∉ last) :
    readParams (before ++ last) = (before ++ (Text.cut ';' last).1, (Text.cut ';' last).2) := by
  have stops : before.reverse.takeWhile (· != '/') = [] := by
    rcases edge with rfl | ⟨front, rfl⟩
    · rfl
    · simp
  have segment : ((before ++ last).reverse.takeWhile (· != '/')).reverse = last := by
    have all : ∀ c ∈ last.reverse, (c != '/') = true := by
      intro c member
      have different : c ≠ '/' := by
        rintro rfl
        exact free (List.mem_reverse.mp member)
      simpa using different
    rw [List.reverse_append, List.takeWhile_append_of_pos all, stops, List.append_nil,
      List.reverse_reverse]
  have front : (before ++ last).take ((before ++ last).length - last.length) = before := by
    rw [List.length_append, Nat.add_sub_cancel, List.take_left]
  rw [readParams, segment, Text.cut]
  simp only [front]
  cases Text.cut? ';' last <;> rfl

/-- What stands in front of a slash does not count for the parameters behind it. -/
theorem exists_readParams (rest : Text) :
    ∃ path params, ∀ front, readParams (front ++ '/' :: rest) = (front ++ '/' :: path, params) := by
  obtain ⟨before, last, rfl, edge, free⟩ := exists_lastSegment rest
  refine ⟨before ++ (Text.cut ';' last).1, (Text.cut ';' last).2, fun front => ?_⟩
  have behind : EndsAtSlash (front ++ '/' :: before) := by
    rcases edge with rfl | ⟨inner, rfl⟩
    · exact Or.inr ⟨front, rfl⟩
    · exact Or.inr ⟨front ++ '/' :: inner, by simp⟩
  have whole : front ++ '/' :: (before ++ last) = front ++ '/' :: before ++ last := by simp
  rw [whole, readParams_append behind free]
  simp

theorem readParams_isPrefix (path : Text) : (readParams path).1 <+: path := by
  obtain ⟨before, last, rfl, edge, free⟩ := exists_lastSegment path
  rw [readParams_append edge free]
  exact (List.prefix_append_right_inj before).mpr (Text.cut_fst_isPrefix ';' last)

theorem cut_append_slash {sep : Char} (other : sep ≠ '/') {front : Text} (absent : sep ∉ front)
    (t : Text) :
    Text.cut sep (front ++ '/' :: t) = (front ++ '/' :: (Text.cut sep t).1, (Text.cut sep t).2) := by
  have free : sep ∉ front ++ ['/'] := by simp [absent, other]
  simpa using Text.cut_append_of_not_mem free t

/-- A text without marks in front of a slash is part of the path, and of nothing else. -/
theorem exists_behindAuthority (e : Edition) (scheme rest : Text) :
    ∃ path params query fragment, ∀ authority front, '#' ∉ front → '?' ∉ front →
      behindAuthority e scheme authority (front ++ '/' :: rest) =
        ⟨scheme, authority, front ++ '/' :: path, params, query, fragment⟩ := by
  obtain ⟨body, fragment, hash⟩ : ∃ body fragment, Text.cut '#' rest = (body, fragment) :=
    ⟨_, _, rfl⟩
  obtain ⟨path, query, mark⟩ : ∃ path query, Text.cut '?' body = (path, query) := ⟨_, _, rfl⟩
  by_cases parted : (withParams e).contains scheme
  · obtain ⟨segments, params, read⟩ := exists_readParams path
    refine ⟨segments, params, query, fragment, fun authority front noFragment noQuery => ?_⟩
    rw [behindAuthority, cut_append_slash (by decide) noFragment, hash]
    simp only [cut_append_slash (by decide : '?' ≠ '/') noQuery, mark, if_pos parted, read]
  · refine ⟨path, [], query, fragment, fun authority front noFragment noQuery => ?_⟩
    rw [behindAuthority, cut_append_slash (by decide) noFragment, hash]
    simp only [cut_append_slash (by decide : '?' ≠ '/') noQuery, mark, if_neg parted]

theorem behindAuthority_path_isPrefix (e : Edition) (scheme authority rest : Text) :
    (behindAuthority e scheme authority rest).path <+: rest := by
  have path : (Text.cut '?' (Text.cut '#' rest).1).1 <+: rest :=
    (Text.cut_fst_isPrefix '?' _).trans (Text.cut_fst_isPrefix '#' rest)
  by_cases parted : (withParams e).contains scheme
  · simp only [behindAuthority, if_pos parted]
    exact (readParams_isPrefix _).trans path
  · simp only [behindAuthority, if_neg parted]
    exact path

/-- A query or a fragment alone. -/
theorem behindAuthority_mark {mark : Char} (marked : mark ∈ ['?', '#']) (e : Edition)
    (scheme authority rest : Text) :
    (behindAuthority e scheme authority (mark :: rest)).path = [] ∧
      (behindAuthority e scheme authority (mark :: rest)).params = [] := by
  have path : (Text.cut '?' (Text.cut '#' (mark :: rest)).1).1 = [] := by
    simp only [List.mem_cons, List.not_mem_nil, or_false] at marked
    rcases marked with rfl | rfl
    · have inner : Text.cut '#' ('?' :: rest) = ('?' :: (Text.cut '#' rest).1, (Text.cut '#' rest).2) :=
        Text.cut_append_of_not_mem (by decide : '#' ∉ ['?']) rest
      rw [inner]
      rfl
    · rfl
  by_cases parted : (withParams e).contains scheme
  · simp only [behindAuthority, if_pos parted, path, readParams_nil, and_self]
  · simp only [behindAuthority, if_neg parted, path, and_self]

/-! ### Schemes and authorities -/

theorem colon_not_mem_scheme {scheme : Text} (known : (hierarchical e).contains scheme = true) :
    ':' ∉ scheme := by
  have every : (hierarchical e).all (fun s => !s.contains ':') = true := by cases e <;> decide
  have free := List.all_eq_true.mp every scheme (List.contains_iff_mem.mp known)
  simpa using free

theorem readScheme_ok {base t scheme rest : Text} (read : readScheme base t = (scheme, rest)) :
    scheme = base ∧ rest = t ∨ scheme ≠ [] := by
  unfold readScheme at read
  split at read
  · split at read
    · cases read
      exact Or.inr (by simp)
    · cases read
      exact Or.inl ⟨rfl, rfl⟩
  · cases read
    exact Or.inl ⟨rfl, rfl⟩

theorem readAuthority_ok {t authority rest : Text} (read : readAuthority t = (authority, rest)) :
    '/' ∉ authority ∧ ((authority = [] ∧ rest = t) ∨ t = '/' :: '/' :: (authority ++ rest) ∧
      ∀ c, rest.head? = some c → endsAuthority c = true) := by
  unfold readAuthority at read
  split at read
  · rename_i behind
    rw [List.span_eq_takeWhile_dropWhile] at read
    cases read
    refine ⟨fun member => ?_, Or.inr ⟨by rw [List.takeWhile_append_dropWhile], fun c first => ?_⟩⟩
    · exact absurd (List.all_eq_true.mp List.all_takeWhile _ member) (by decide)
    · have stopped := List.head?_dropWhile_not (fun c => !endsAuthority c) behind
      rw [first] at stopped
      simpa using stopped
  · cases read
    exact ⟨List.not_mem_nil, Or.inl ⟨rfl, rfl⟩⟩

theorem slash_not_mem_authority {base t : Text} {r : Reference} (read : parse e base t = .ok r) :
    '/' ∉ r.authority := by
  obtain ⟨scheme, rest, authority, after, -, found, rfl⟩ := parse_ok read
  exact (readAuthority_ok found).1

/-- A text that begins like an address on the web has a scheme, so no path without one does. -/
theorem not_http_path {t : Text} {r : Reference} (read : parse e [] t = .ok r)
    (bare : r.scheme = []) (alone : r.authority = []) : ¬ "http://".toList <+: r.path := by
  obtain ⟨scheme, rest, authority, after, scheme_read, authority_read, rfl⟩ := parse_ok read
  obtain rfl : scheme = [] := bare
  obtain rfl : authority = [] := alone
  rintro ⟨more, path⟩
  obtain ⟨behind, split⟩ := behindAuthority_path_isPrefix e [] [] after
  rw [← path, List.append_assoc] at split
  subst split
  rcases (readAuthority_ok authority_read).2 with ⟨-, same⟩ | ⟨-, stops⟩
  · obtain ⟨-, whole⟩ := (readScheme_ok scheme_read).resolve_right (by simp)
    rw [← whole, ← same] at scheme_read
    cases scheme_read
  · exact absurd (stops 'h' rfl) (by decide)

end Rfc6570.Reference
