import Rfc6570.Expansion
import Rfc6570.Proofs.TemplatePieces
import Rfc6570.Proofs.VarspecGrammar
/-!
The bodies of expressions. `wellFormed_of_parse` says what every expression of a template that was
read satisfies, and `parseBody_residualBody` what is read from the body that partial expansion
leaves: the operator is chosen anew by the first character, which may be a separator, or a point
that belonged to a name.
-/

namespace Rfc6570

namespace Varspec

theorem Spells.isName {spec : Text} {v : Varspec} (h : Spells spec v) :
    Characters.isName v.name = true := by
  cases h <;> assumption

theorem Spells.exists_tail {spec : Text} {v : Varspec} (h : Spells spec v) :
    ∃ tail, spec = v.name ++ tail := by
  cases h with
  | plain => exact ⟨[], by simp⟩
  | exploded => exact ⟨['*'], rfl⟩
  | @cut _ digits => exact ⟨':' :: digits, rfl⟩

theorem Spells.not_mem {spec : Text} {v : Varspec} (h : Spells spec v) {c : Char}
    (other : (Characters.varchar.contains c || c == '%') = false) (star : c ≠ '*') (colon : c ≠ ':') :
    c ∉ spec := by
  have absent := Characters.not_mem_name h.isName other
  cases h with
  | plain => exact absent
  | exploded => simp [absent, star]
  | @cut _ digits _ _ length =>
    have noDigit : c ∉ digits := by
      intro member
      have digit := (readLength?_some length).2.2 c member
      have inside : Characters.digit.all Characters.varchar.contains = true := by decide
      have varchar := List.all_eq_true.mp inside c (List.contains_iff_mem.mp digit)
      rw [varchar] at other
      cases other
    simp [absent, colon, noDigit]

def whole (v : Varspec) : Varspec :=
  { v with maxLength := 0 }

theorem whole_of_maxLength {v : Varspec} (h : v.maxLength = 0) : v.whole = v := by
  rw [whole, ← h]

theorem map_whole {vs : List Varspec} (h : ∀ v ∈ vs, v.maxLength = 0) : vs.map whole = vs :=
  (List.map_congr_left fun v member => whole_of_maxLength (h v member)).trans (List.map_id vs)

theorem spells_residualName {v : Varspec} (named : Characters.isName v.name = true) :
    Spells (Expression.residualName v) v.whole := by
  obtain ⟨name, explode, limit⟩ := v
  cases explode with
  | false => simpa [Expression.residualName, whole] using Spells.plain named
  | true => exact Spells.exploded named

theorem residualName_of_spells {spec : Text} {v : Varspec} (h : Spells spec v)
    (unlimited : v.maxLength = 0) : spec = Expression.residualName v := by
  cases h with
  | plain => simp [Expression.residualName]
  | exploded => rfl
  | cut named length =>
    have positive := (readLength?_some length).1
    simp only at unlimited
    omega

end Varspec

namespace Operator

theorem lookup_of_key {op : Operator} {c : Char} (h : op.key? = some c) (rest : Text) :
    lookup (c :: rest) = (op, rest) := by
  simp [lookup, ofChar?_eq_some.mpr h]

theorem lookup_of_none {c : Char} (h : ofChar? c = none) (rest : Text) :
    lookup (c :: rest) = (.simple, c :: rest) := by
  simp [lookup, h]

/-- An operator and what is left make up the body; a simple one leaves a body that selects none. -/
theorem lookup_eq {body rest : Text} {op : Operator} (h : lookup body = (op, rest)) :
    body = op.key ++ rest ∧ (op = .simple → ∀ c ∈ body.head?, ofChar? c = none) := by
  cases body with
  | nil =>
    cases h
    simp [key, key?]
  | cons c body =>
    rw [lookup] at h
    split at h
    · rename_i op' found
      cases h
      have selected := ofChar?_eq_some.mp found
      refine ⟨by simp [key, selected], ?_⟩
      rintro rfl
      cases selected
    · rename_i found
      cases h
      simp [key, key?, found]

theorem ofChar?_of_name {name : Text} {c : Char} (named : Characters.isName name = true)
    (member : c ∈ name) (other : c ≠ '.') : ofChar? c = none := by
  cases found : ofChar? c with
  | none => rfl
  | some op =>
    have selected := ofChar?_eq_some.mp found
    cases op <;> simp only [key?, Option.some.injEq, reduceCtorEq] at selected <;> subst selected <;>
      first | exact absurd rfl other | exact absurd member (Characters.not_mem_name named (by decide))

theorem key?_of_first? {op : Operator} (h : op.first? ≠ none) : op.key? = op.first? := by
  cases op <;> first | rfl | exact absurd rfl h

theorem separator_of_ofChar? {op : Operator} (h : ofChar? op.separator = none) :
    op.separator = ',' := by
  cases op <;> first | rfl | cases h

theorem key?_label : key? .label = some '.' := rfl

end Operator

namespace Expression

/-! ### Expressions that were read -/

/-- What an expression of a template satisfies. -/
structure WellFormed (e : Expression) : Prop where
  filled : e.varspecs ≠ []
  named : ∀ v ∈ e.varspecs, Characters.isName v.name = true
  bare : e.operator = .simple → ∀ v ∈ e.varspecs.head?, v.name.head? ≠ some '.'

theorem parseBody_ok {body : Text} {e : Expression} (h : parseBody body = .ok e) :
    ∃ specs, specs ≠ [] ∧ specs.mapM Varspec.parse = .ok e.varspecs ∧
      body = e.operator.key ++ Text.join ',' specs ∧
      (e.operator = .simple → ∀ c ∈ body.head?, Operator.ofChar? c = none) := by
  unfold parseBody at h
  obtain ⟨op, rest, found⟩ : ∃ op rest, Operator.lookup body = (op, rest) := ⟨_, _, rfl⟩
  obtain ⟨written, bare⟩ := Operator.lookup_eq found
  rw [found] at h
  obtain ⟨vs, read, h⟩ := bind_ok h
  cases h
  refine ⟨rest.splitOn ',', List.splitOn_ne_nil ',' rest, read, ?_, bare⟩
  rw [show Text.join ',' (rest.splitOn ',') = rest from List.intercalate_splitOn ',']
  exact written

theorem splitOn_join_specs {specs : List Text} (filled : specs ≠ [])
    (each : ∀ spec ∈ specs, ∃ v, Varspec.parse spec = .ok v) :
    (Text.join ',' specs).splitOn ',' = specs := by
  refine List.splitOn_intercalate ',' ?_ filled
  intro spec member
  obtain ⟨v, parsed⟩ := each spec member
  exact (Varspec.parse_eq_ok_iff.mp parsed).not_mem (by decide) (by decide) (by decide)

/-- An operator and varspecs are read from what they make up, unless a simple expression begins with
the character of an operator. -/
theorem parseBody_join {op : Operator} {specs : List Text} {vs : List Varspec} (filled : specs ≠ [])
    (read : specs.mapM Varspec.parse = .ok vs)
    (bare : op = .simple → ∀ c ∈ (Text.join ',' specs).head?, Operator.ofChar? c = none) :
    parseBody (op.key ++ Text.join ',' specs) = .ok ⟨op, vs⟩ := by
  have split := splitOn_join_specs filled fun spec member =>
    (exists_ok_of_mapM_ok read spec member).imp fun _ => And.right
  have found : Operator.lookup (op.key ++ Text.join ',' specs) = (op, Text.join ',' specs) := by
    cases selected : op.key? with
    | some c =>
      rw [Operator.key, selected]
      exact Operator.lookup_of_key selected _
    | none =>
      have simple : op = .simple := by
        cases op <;> first | rfl | cases selected
      subst simple
      rw [Operator.key, selected, Option.toList_none, List.nil_append]
      cases joined : Text.join ',' specs with
      | nil => rfl
      | cons c rest => exact Operator.lookup_of_none (bare rfl c (by rw [joined]; rfl)) rest
  rw [parseBody, found]
  simp only [split, read, ok_bind, pure_eq_ok]

theorem wellFormed_of_parseBody {body : Text} {e : Expression} (h : parseBody body = .ok e) :
    e.WellFormed := by
  obtain ⟨specs, filled, read, written, bare⟩ := parseBody_ok h
  obtain ⟨spec, rest, rfl⟩ := List.exists_cons_of_ne_nil filled
  obtain ⟨v, others, first, -, same⟩ := mapM_cons_ok read
  refine ⟨by simp [same], ?_, ?_⟩
  · intro w member
    obtain ⟨s, _, parsed⟩ := mem_of_mapM_ok read w member
    exact (Varspec.parse_eq_ok_iff.mp parsed).isName
  · intro simple w member point
    obtain rfl : v = w := by simpa [same] using member
    obtain ⟨tail, rfl⟩ := (Varspec.parse_eq_ok_iff.mp first).exists_tail
    have front : body.head? = some '.' := by
      rw [written, simple, Text.join_cons]
      simp [Operator.key, Operator.key?, point]
    have none := bare simple '.' front
    cases none

/-! ### What partial expansion leaves -/

def residualBody (e : Expression) (left : List Varspec) : Text :=
  (if left.length = e.varspecs.length then e.operator.first else [e.operator.separator]) ++
    Text.join ',' (left.map residualName)

theorem residual_eq_write (e : Expression) (left : List Varspec) :
    e.residual left = (Piece.braced (e.residualBody left)).write := rfl

/-- Variables without an operator, in which a point at the front is taken for one. -/
def bare : List Varspec → Except Fault Expression
  | ⟨'.' :: name, explode, _⟩ :: rest =>
    if name = [] then .error (.varname [])
    else .ok ⟨.label, ⟨name, explode, 0⟩ :: rest.map Varspec.whole⟩
  | vs => .ok ⟨.simple, vs.map Varspec.whole⟩

def remainder (e : Expression) (left : List Varspec) : Except Fault Expression :=
  if left.length = e.varspecs.length then
    if e.operator.first? = none then bare left
    else .ok ⟨e.operator, left.map Varspec.whole⟩
  else
    match Operator.ofChar? e.operator.separator with
    | some op => .ok ⟨op, left.map Varspec.whole⟩
    | none => .error (.varname [])

theorem mapM_parse_residuals {vs : List Varspec}
    (named : ∀ v ∈ vs, Characters.isName v.name = true) :
    (vs.map residualName).mapM Varspec.parse = .ok (vs.map Varspec.whole) := by
  rw [List.mapM_map]
  exact mapM_ok_of_forall fun v source =>
    Varspec.parse_eq_ok_iff.mpr (Varspec.spells_residualName (named v source))

theorem parseBody_of_key {op : Operator} {c : Char} (selected : op.key? = some c)
    {vs : List Varspec} (filled : vs ≠ []) (named : ∀ v ∈ vs, Characters.isName v.name = true) :
    parseBody (c :: Text.join ',' (vs.map residualName)) = .ok ⟨op, vs.map Varspec.whole⟩ := by
  have bare : op = .simple → ∀ c ∈ (Text.join ',' (vs.map residualName)).head?,
      Operator.ofChar? c = none := by
    rintro rfl
    cases selected
  have read := parseBody_join (by simpa using filled) (mapM_parse_residuals named) bare
  rwa [Operator.key, selected] at read

theorem parseBody_comma (rest : Text) : parseBody (',' :: rest) = .error (.varname []) := by
  rw [parseBody, Operator.lookup_of_none rfl]
  simp only [List.splitOn_cons_eq_if_modifyHead, beq_self_eq_true, if_true, List.mapM_cons]
  rfl

theorem parseBody_point {explode : Bool} {limit : Int} (rest : List Varspec) :
    parseBody (Text.join ',' ((⟨['.'], explode, limit⟩ :: rest).map residualName)) =
      .error (.varname []) := by
  have refused : Varspec.parse (if explode then ['*'] else []) = .error (.varname []) := by
    cases explode <;> rfl
  have single : ',' ∉ if explode then ['*'] else [] := by
    cases explode <;> decide
  rw [List.map_cons, Text.join_cons, residualName, List.append_assoc, List.cons_append, parseBody,
    List.nil_append, Operator.lookup_of_key Operator.key?_label]
  simp only [Text.splitOn_append_of_not_mem single]
  cases rest with
  | nil => simp [refused]
  | cons v rest =>
    rw [List.map_cons, List.flatMap_cons, List.cons_append, List.splitOn_cons_eq_if_modifyHead,
      if_pos (beq_self_eq_true ','), List.modifyHead_cons, List.append_nil, List.mapM_cons, refused]
    rfl

theorem parseBody_bare {vs : List Varspec} (filled : vs ≠ [])
    (named : ∀ v ∈ vs, Characters.isName v.name = true) :
    parseBody (Text.join ',' (vs.map residualName)) = bare vs := by
  unfold bare
  split
  · rename_i name explode limit rest
    split
    · rename_i empty
      subst empty
      exact parseBody_point rest
    -- The point is taken for the operator, and the name goes on after it.
    · rename_i more
      have first := Characters.isName_iff.mp (named _ List.mem_cons_self)
      have tail : Characters.isName name = true :=
        Characters.isName_iff.mpr ⟨more, Characters.isNameTail_cons (c := '.') (by decide) name ▸ first.2⟩
      have shorter : ∀ v ∈ (⟨name, explode, limit⟩ : Varspec) :: rest,
          Characters.isName v.name = true := by
        intro v member
        rcases List.mem_cons.mp member with rfl | member
        · exact tail
        · exact named v (List.mem_cons_of_mem _ member)
      have keyed := parseBody_of_key Operator.key?_label (List.cons_ne_nil _ _) shorter
      rw [List.map_cons, Text.join_cons] at keyed ⊢
      exact keyed
  · rename_i other
    obtain ⟨v, rest, rfl⟩ := List.exists_cons_of_ne_nil filled
    have first := named v List.mem_cons_self
    obtain ⟨c, name, spelled⟩ := List.exists_cons_of_ne_nil (Characters.isName_iff.mp first).1
    have point : c ≠ '.' := by
      rintro rfl
      obtain ⟨_, explode, limit⟩ := v
      cases spelled
      exact other name explode limit rest rfl
    have keyless := Operator.ofChar?_of_name first (spelled ▸ List.mem_cons_self) point
    have front : (Text.join ',' ((v :: rest).map residualName)).head? = some c := by
      rw [List.map_cons, Text.join_cons, residualName, spelled]
      rfl
    have bare : Operator.simple = .simple →
        ∀ c ∈ (Text.join ',' ((v :: rest).map residualName)).head?, Operator.ofChar? c = none := by
      rintro - d head
      rw [front] at head
      cases head
      exact keyless
    exact parseBody_join (by simp) (mapM_parse_residuals named) bare

theorem parseBody_residualBody {e : Expression} {left : List Varspec} (filled : left ≠ [])
    (named : ∀ v ∈ left, Characters.isName v.name = true) :
    parseBody (e.residualBody left) = e.remainder left := by
  unfold residualBody remainder
  split
  · cases opening : e.operator.first? with
    | none =>
      rw [Operator.first, opening, if_pos rfl]
      exact parseBody_bare filled named
    | some c =>
      rw [Operator.first, opening, if_neg (by simp)]
      have selected := (Operator.key?_of_first? (by simp [opening])).trans opening
      exact parseBody_of_key selected filled named
  · split
    · rename_i op found
      exact parseBody_of_key (Operator.ofChar?_eq_some.mp found) filled named
    · rename_i found
      rw [Operator.separator_of_ofChar? found]
      exact parseBody_comma _

end Expression

/-! ### Templates that were read -/

def Part.WellFormed : Part → Prop
  | .literal t => BraceFree t
  | .expression e => e.WellFormed

theorem Piece.wellFormed_of_read {p : Piece} (sound : p.Sound) {part : Part} (h : p.read = .ok part) :
    part.WellFormed := by
  cases p with
  | free t =>
    cases h
    exact sound
  | braced body =>
    obtain ⟨e, read, h⟩ := bind_ok h
    cases h
    exact Expression.wellFormed_of_parseBody read

theorem Template.parse_ok {text : Text} {t : Template} (h : Template.parse text = .ok t) :
    t.text = text ∧ Template.parseParts text = .ok t.parts := by
  unfold Template.parse at h
  obtain ⟨parts, read, h⟩ := bind_ok h
  cases h
  exact ⟨rfl, read⟩

theorem Template.wellFormed_of_parse {text : Text} {t : Template} (h : Template.parse text = .ok t) :
    ∀ p ∈ t.parts, p.WellFormed := by
  obtain ⟨pieces, -, sound, read⟩ := Template.exists_pieces (Template.parse_ok h).2
  intro part member
  obtain ⟨piece, source, found⟩ := mem_of_mapM_ok read part member
  exact Piece.wellFormed_of_read (sound piece source) found

end Rfc6570
