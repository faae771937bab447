import Rfc6570.Proofs.ExpressionGrammar
import Rfc6570.Proofs.Numerals
/-!
Reading a template and writing its parts are inverse: `parse_renderAll`. Parts in regular form are
read from what they write. A text is read when it consists of free text and of bodies of
expressions between braces; its parts are in regular form then, and write it without the leading
zeros of its lengths.
-/

namespace Rfc6570

namespace Varspec

/-- The form of the varspecs that are read. -/
structure IsRegular (v : Varspec) : Prop where
  named : Characters.isName v.name = true
  nonneg : 0 ≤ v.maxLength
  small : v.maxLength ≤ 9999
  single : v.explode = true → v.maxLength = 0

theorem Spells.isRegular {spec : Text} {v : Varspec} (h : Spells spec v) : v.IsRegular := by
  cases h with
  | plain named => exact ⟨named, by simp, by simp, by simp⟩
  | exploded named => exact ⟨named, by simp, by simp, by simp⟩
  | cut named length =>
    have bound := readLength?_le length
    exact ⟨named, Int.natCast_nonneg _, Int.ofNat_le.mpr bound, by simp⟩

theorem render_of_unlimited (name : Text) (explode : Bool) :
    render ⟨name, explode, 0⟩ = name ++ if explode then ['*'] else [] := by
  simp [render]

theorem render_of_length (name : Text) {n : Nat} (positive : n ≠ 0) :
    render ⟨name, false, n⟩ = name ++ ':' :: Text.decimal n := by
  have limited : (n : Int) ≠ 0 := Int.natCast_ne_zero.mpr positive
  rw [render, if_neg limited, if_neg Bool.false_ne_true, List.append_nil]
  rfl

theorem spells_render {v : Varspec} (h : v.IsRegular) : Spells v.render v := by
  obtain ⟨named, nonneg, small, single⟩ := h
  obtain ⟨name, explode, limit⟩ := v
  obtain ⟨n, rfl⟩ := Int.eq_ofNat_of_zero_le nonneg
  by_cases unlimited : n = 0
  · subst unlimited
    rw [show ((0 : Nat) : Int) = 0 from rfl, render_of_unlimited]
    cases explode with
    | false => simpa using Spells.plain named
    | true => exact Spells.exploded named
  · have whole : explode = false := by
      cases explode with
      | false => rfl
      | true => exact absurd (single rfl) (Int.natCast_ne_zero.mpr unlimited)
    subst whole
    rw [render_of_length name unlimited]
    exact Spells.cut named (readLength?_decimal unlimited (Int.ofNat_le.mp small))

end Varspec

namespace Expression

/-- The form of the expressions that are read. -/
structure IsRegular (e : Expression) : Prop extends e.WellFormed where
  regular : ∀ v ∈ e.varspecs, v.IsRegular

theorem isRegular_of_parseBody {body : Text} {e : Expression} (h : parseBody body = .ok e) :
    e.IsRegular := by
  refine ⟨wellFormed_of_parseBody h, ?_⟩
  obtain ⟨specs, -, read, -, -⟩ := parseBody_ok h
  intro v member
  obtain ⟨spec, -, parsed⟩ := mem_of_mapM_ok read v member
  exact (Varspec.parse_eq_ok_iff.mp parsed).isRegular

def body (e : Expression) : Text :=
  e.operator.key ++ Text.join ',' (e.varspecs.map Varspec.render)

theorem parseBody_body {e : Expression} (h : e.IsRegular) : parseBody e.body = .ok e := by
  have read : (e.varspecs.map Varspec.render).mapM Varspec.parse = .ok e.varspecs :=
    mapM_map_ok fun v member =>
      Varspec.parse_eq_ok_iff.mpr (Varspec.spells_render (h.regular v member))
  refine parseBody_join (by simpa using h.filled) read ?_
  intro simple c front
  obtain ⟨v, rest, spelled⟩ := List.exists_cons_of_ne_nil h.filled
  have named := h.named v (spelled ▸ List.mem_cons_self)
  have point := h.bare simple v (by rw [spelled]; rfl)
  obtain ⟨first, name, begins⟩ := List.exists_cons_of_ne_nil (Characters.isName_iff.mp named).1
  rw [spelled, List.map_cons, Text.join_cons, Varspec.render, begins] at front
  cases front
  rw [begins] at named point
  exact Operator.ofChar?_of_name named List.mem_cons_self (by simpa using point)

theorem render_eq_write (e : Expression) : e.render = (Piece.braced e.body).write := rfl

theorem braceFree_of_parseBody {body : Text} {e : Expression} (h : parseBody body = .ok e) :
    BraceFree body := by
  obtain ⟨specs, -, read, rfl, -⟩ := parseBody_ok h
  have key : BraceFree e.operator.key := by
    cases e.operator <;> exact ⟨by decide, by decide⟩
  refine key.append ⟨?_, ?_⟩
  all_goals
    intro member
    rcases Text.mem_join member with comma | ⟨spec, source, inside⟩
    · cases comma
    · obtain ⟨v, -, parsed⟩ := exists_ok_of_mapM_ok read spec source
      exact (Varspec.parse_eq_ok_iff.mp parsed).not_mem (by decide) (by decide) (by decide) inside

theorem ne_nil_of_parseBody {body : Text} {e : Expression} (h : parseBody body = .ok e) :
    body ≠ [] := by
  rintro rfl
  cases h

/-! ### The grammar of bodies -/

/-- A body without the one character at its front that may select an operator. -/
def withoutKey : Text → Text
  | [] => []
  | c :: rest => if ['+', '.', '/', ';', '?', '&', '#'].contains c then rest else c :: rest

/-- Varspecs with commas between them, at least one, behind at most one character of an operator. -/
def IsBody (body : Text) : Prop :=
  ∃ specs, specs ≠ [] ∧ withoutKey body = Text.join ',' specs ∧
    ∀ spec ∈ specs, ∃ v, Varspec.parse spec = .ok v

theorem lookup_snd (body : Text) : (Operator.lookup body).2 = withoutKey body := by
  cases body with
  | nil => rfl
  | cons c rest =>
    cases found : Operator.ofChar? c with
    | none =>
      have other : ['+', '.', '/', ';', '?', '&', '#'].contains c = false := by
        rw [List.contains_eq_mem, decide_eq_false_iff_not]
        intro member
        simp only [List.mem_cons, List.not_mem_nil, or_false] at member
        rcases member with rfl | rfl | rfl | rfl | rfl | rfl | rfl <;> cases found
      rw [Operator.lookup_of_none found, withoutKey, other]
      rfl
    | some op =>
      have selected := Operator.ofChar?_eq_some.mp found
      rw [Operator.lookup_of_key selected, withoutKey, if_pos]
      cases op <;> cases selected <;> decide

theorem exists_parseBody_iff {body : Text} : (∃ e, parseBody body = .ok e) ↔ IsBody body := by
  constructor
  · rintro ⟨e, h⟩
    unfold parseBody at h
    obtain ⟨op, rest, found⟩ : ∃ op rest, Operator.lookup body = (op, rest) := ⟨_, _, rfl⟩
    have left := lookup_snd body
    rw [found] at h left
    obtain ⟨vs, read, -⟩ := bind_ok h
    refine ⟨rest.splitOn ',', List.splitOn_ne_nil ',' rest, ?_, ?_⟩
    · rw [← left]
      exact (List.intercalate_splitOn ',').symm
    · intro spec member
      obtain ⟨v, -, parsed⟩ := exists_ok_of_mapM_ok read spec member
      exact ⟨v, parsed⟩
  · rintro ⟨specs, filled, left, each⟩
    obtain ⟨vs, read⟩ := exists_mapM_ok each
    obtain ⟨op, rest, found⟩ : ∃ op rest, Operator.lookup body = (op, rest) := ⟨_, _, rfl⟩
    have same : rest = Text.join ',' specs := by
      rw [← left, ← lookup_snd, found]
    refine ⟨⟨op, vs⟩, ?_⟩
    rw [parseBody, found, same]
    simp only [splitOn_join_specs filled each, read, ok_bind, pure_eq_ok]

end Expression

namespace Piece

/-- Text without braces, or the body of an expression between two. -/
def IsGrammatical : Piece → Prop
  | .free t => BraceFree t
  | .braced body => Expression.IsBody body

theorem isGrammatical_iff {p : Piece} : p.IsGrammatical ↔ p.Sound ∧ ∃ part, p.read = .ok part := by
  cases p with
  | free t =>
    constructor
    · intro free
      exact ⟨free, _, rfl⟩
    · rintro ⟨free, -⟩
      exact free
  | braced body =>
    rw [IsGrammatical, ← Expression.exists_parseBody_iff]
    constructor
    · rintro ⟨e, parsed⟩
      refine ⟨⟨Expression.braceFree_of_parseBody parsed, Expression.ne_nil_of_parseBody parsed⟩, ?_⟩
      exact ⟨.expression e, by rw [read, parsed]; rfl⟩
    · rintro ⟨-, part, parsed⟩
      obtain ⟨e, parsed, -⟩ := bind_ok parsed
      exact ⟨e, parsed⟩

end Piece

namespace Part

def renderAll (parts : List Part) : Text :=
  parts.flatMap render

/-- The form of the parts of a template: a literal has some text. -/
def IsRegular : Part → Prop
  | .literal t => t ≠ [] ∧ BraceFree t
  | .expression e => e.IsRegular

/-- No two literals stand side by side. -/
def Apart : List Part → Prop
  | [] => True
  | .literal _ :: rest => HeadFree rest ∧ Apart rest
  | .expression _ :: rest => Apart rest

def piece : Part → Piece
  | .literal t => .free t
  | .expression e => .braced e.body

theorem renderAll_eq_writeAll (parts : List Part) :
    renderAll parts = Piece.writeAll (parts.map piece) := by
  rw [renderAll, Piece.writeAll, List.flatMap_map]
  refine congrArg (fun f => parts.flatMap f) (funext fun p => ?_)
  cases p with
  | literal t => rfl
  | expression e => exact Expression.render_eq_write e

theorem read_piece {p : Part} (h : p.IsRegular) : p.piece.read = .ok p := by
  cases p with
  | literal t => rfl
  | expression e =>
    rw [piece, Piece.read, Expression.parseBody_body h]
    rfl

theorem sound_piece {p : Part} (h : p.IsRegular) : p.piece.Sound := by
  cases p with
  | literal t => exact h.2
  | expression e =>
    have parsed := Expression.parseBody_body h
    exact ⟨Expression.braceFree_of_parseBody parsed, Expression.ne_nil_of_parseBody parsed⟩

theorem isRegular_of_read {p : Piece} (sound : p.Sound) {part : Part} (h : p.read = .ok part) :
    part = .literal [] ∨ part.IsRegular := by
  cases p with
  | free t =>
    cases h
    cases t with
    | nil => exact Or.inl rfl
    | cons c t => exact Or.inr ⟨List.cons_ne_nil c t, sound⟩
  | braced body =>
    obtain ⟨e, parsed, h⟩ := bind_ok h
    cases h
    exact Or.inr (Expression.isRegular_of_parseBody parsed)

/-! ### Compact parts -/

theorem prepend_of_headFree {parts : List Part} (free : HeadFree parts) (t : Text) :
    prepend t parts = Template.literal t ++ parts := by
  unfold prepend
  split
  · rename_i u rest
    exact absurd rfl (free u rest)
  · rfl

theorem compact_eq_self {parts : List Part} (regular : ∀ p ∈ parts, p.IsRegular)
    (apart : Apart parts) : compact parts = parts := by
  induction parts with
  | nil => rfl
  | cons p rest ih =>
    obtain ⟨first, regular⟩ := List.forall_mem_cons.mp regular
    have tail := ih regular
    cases p with
    | literal t =>
      have filled : t ≠ [] := first.1
      rw [compact, tail apart.2, prepend_of_headFree apart.1, Template.literal, if_neg (by simpa using filled)]
      rfl
    | expression e => rw [compact, tail apart]

theorem apart_prepend {parts : List Part} (apart : Apart parts) (t : Text) :
    Apart (prepend t parts) := by
  unfold prepend
  split
  · exact apart
  · rename_i other
    cases t with
    | nil => exact apart
    | cons c t => exact ⟨other, apart⟩

theorem apart_compact (parts : List Part) : Apart (compact parts) := by
  induction parts with
  | nil => trivial
  | cons p rest ih =>
    cases p with
    | literal t => exact apart_prepend ih t
    | expression e => exact ih

theorem isRegular_prepend {parts : List Part} (regular : ∀ p ∈ parts, p.IsRegular) {t : Text}
    (free : BraceFree t) : ∀ p ∈ prepend t parts, p.IsRegular := by
  unfold prepend
  split
  · rename_i u rest
    obtain ⟨⟨filled, bare⟩, others⟩ := List.forall_mem_cons.mp regular
    refine List.forall_mem_cons.mpr ⟨⟨?_, free.append bare⟩, others⟩
    exact List.append_ne_nil_of_right_ne_nil t filled
  · cases t with
    | nil => exact regular
    | cons c t => exact List.forall_mem_cons.mpr ⟨⟨List.cons_ne_nil c t, free⟩, regular⟩

theorem isRegular_compact {parts : List Part}
    (each : ∀ p ∈ parts, p = .literal [] ∨ p.IsRegular) : ∀ p ∈ compact parts, p.IsRegular := by
  induction parts with
  | nil => simp [compact]
  | cons p rest ih =>
    obtain ⟨first, others⟩ := List.forall_mem_cons.mp each
    cases p with
    | literal t =>
      refine isRegular_prepend (ih others) ?_
      rcases first with empty | regular
      · cases empty
        exact BraceFree.nil
      · exact regular.2
    | expression e =>
      have regular : IsRegular (.expression e) := first.resolve_left (by simp)
      exact List.forall_mem_cons.mpr ⟨regular, ih others⟩

end Part

namespace Template

/-! ### Leading zeros -/

/-- What is left of a template's text, without the leading zeros of its lengths. A length stands
`inside` braces, behind a colon; `leading` says that no other digit has been met in it. -/
def trimFrom (inside leading : Bool) : Text → Text
  | [] => []
  | c :: rest =>
    if leading && c == '0' then trimFrom inside true rest
    else c :: trimFrom (c == '\x7b' || inside && c != '\x7d') (inside && c == ':') rest

/-- A template's text without the leading zeros of the lengths in it. -/
def trimmed (t : Text) : Text :=
  trimFrom false false t

theorem trimFrom_free {t : Text} (free : BraceFree t) (rest : Text) :
    trimFrom false false (t ++ rest) = t ++ trimFrom false false rest := by
  induction t with
  | nil => rfl
  | cons c t ih =>
    obtain ⟨opening, closing⟩ := free
    simp only [List.mem_cons, not_or] at opening closing
    have other : (c == '\x7b') = false := by simpa using Ne.symm opening.1
    rw [List.cons_append, trimFrom]
    simp [other, ih ⟨opening.2, closing.2⟩]

theorem trimFrom_inside {t : Text} (colon : ':' ∉ t) (closing : '\x7d' ∉ t) (rest : Text) :
    trimFrom true false (t ++ rest) = t ++ trimFrom true false rest := by
  induction t with
  | nil => rfl
  | cons c t ih =>
    simp only [List.mem_cons, not_or] at colon closing
    have other : (c == ':') = false := by simpa using Ne.symm colon.1
    have open' : (c != '\x7d') = true := by simpa using Ne.symm closing.1
    rw [List.cons_append, trimFrom]
    simp [other, open', ih colon.2 closing.2]

theorem trimFrom_digits {digits : Text} (only : ∀ c ∈ digits, Characters.digit.contains c = true)
    (filled : digits.dropWhile (· == '0') ≠ []) (rest : Text) :
    trimFrom true true (digits ++ rest) =
      digits.dropWhile (· == '0') ++ trimFrom true false rest := by
  induction digits with
  | nil => exact absurd rfl filled
  | cons c digits ih =>
    have others : ∀ d ∈ digits, Characters.digit.contains d = true :=
      fun d member => only d (List.mem_cons_of_mem c member)
    by_cases zero : c = '0'
    · subst zero
      rw [List.dropWhile_cons_of_pos (by decide)] at filled ⊢
      rw [List.cons_append, trimFrom]
      exact ih others filled
    · have first := only c List.mem_cons_self
      have absent {d : Char} (noDigit : Characters.digit.contains d = false) : d ∉ c :: digits := by
        intro member
        rw [only d member] at noDigit
        cases noDigit
      have colon := absent (d := ':') (by decide)
      have closing := absent (d := '\x7d') (by decide)
      rw [List.dropWhile_cons_of_neg (by simpa using zero), ← trimFrom_inside colon closing,
        List.cons_append, trimFrom, trimFrom]
      simp [zero]

theorem trimFrom_spec {spec : Text} {v : Varspec} (h : Varspec.Spells spec v) (rest : Text) :
    trimFrom true false (spec ++ rest) = v.render ++ trimFrom true false rest := by
  have name := h.isName
  have colon := Characters.not_mem_name name (c := ':') (by decide)
  have closing := Characters.not_mem_name name (c := '\x7d') (by decide)
  cases h with
  | plain =>
    rw [Varspec.render_of_unlimited, if_neg Bool.false_ne_true, List.append_nil]
    exact trimFrom_inside colon closing rest
  | exploded =>
    rw [Varspec.render_of_unlimited, if_pos rfl]
    exact trimFrom_inside (by simp [colon]) (by simp [closing]) rest
  | @cut _ digits _ _ length =>
    obtain ⟨positive, -, only⟩ := Varspec.readLength?_some length
    have written := Varspec.decimal_readLength? length
    have filled : digits.dropWhile (· == '0') ≠ [] := written ▸ Nat.toDigits_ne_nil
    rw [Varspec.render_of_length _ positive, written, List.append_assoc, List.append_assoc,
      trimFrom_inside colon closing, List.cons_append, List.cons_append, trimFrom]
    simp [trimFrom_digits only filled]

theorem trimFrom_specs {specs : List Text} {vs : List Varspec}
    (read : specs.mapM Varspec.parse = .ok vs) (rest : Text) :
    trimFrom true false (Text.join ',' specs ++ rest) =
      Text.join ',' (vs.map Varspec.render) ++ trimFrom true false rest := by
  induction specs generalizing vs with
  | nil =>
    rw [mapM_nil_ok read]
    rfl
  | cons spec others ih =>
    obtain ⟨v, ws, first, tail, rfl⟩ := mapM_cons_ok read
    have spelled := Varspec.parse_eq_ok_iff.mp first
    cases others with
    | nil =>
      rw [mapM_nil_ok tail]
      simpa using trimFrom_spec spelled rest
    | cons second others =>
      obtain ⟨w, ws, -, -, rfl⟩ := mapM_cons_ok tail
      have more := ih tail
      rw [List.map_cons] at more
      rw [Text.join_cons_cons, List.append_assoc, trimFrom_spec spelled, List.map_cons, List.map_cons,
        Text.join_cons_cons, List.append_assoc, List.cons_append, trimFrom]
      simp [more]

theorem trimFrom_piece {p : Piece} (sound : p.Sound) {part : Part} (read : p.read = .ok part)
    (rest : Text) : trimFrom false false (p.write ++ rest) = part.render ++ trimFrom false false rest := by
  cases p with
  | free t =>
    cases read
    exact trimFrom_free sound rest
  | braced body =>
    obtain ⟨e, parsed, read⟩ := bind_ok read
    cases read
    obtain ⟨specs, -, found, rfl, -⟩ := Expression.parseBody_ok parsed
    have key : ':' ∉ e.operator.key ∧ '\x7d' ∉ e.operator.key := by
      cases e.operator <;> decide
    have inside := trimFrom_specs found ('\x7d' :: rest)
    rw [Piece.write, List.cons_append, List.cons_append, trimFrom, Part.render, Expression.render]
    simp only [Bool.false_and, Bool.false_eq_true, if_false, beq_self_eq_true, Bool.true_or,
      List.append_assoc, List.cons_append, List.nil_append]
    rw [trimFrom_inside key.1 key.2, inside, trimFrom]
    simp

theorem trimFrom_pieces {pieces : List Piece} (sound : ∀ p ∈ pieces, p.Sound) {parts : List Part}
    (read : pieces.mapM Piece.read = .ok parts) :
    trimmed (Piece.writeAll pieces) = Part.renderAll parts := by
  induction pieces generalizing parts with
  | nil =>
    rw [mapM_nil_ok read]
    rfl
  | cons p rest ih =>
    obtain ⟨part, others, first, tail, rfl⟩ := mapM_cons_ok read
    obtain ⟨firm, sound⟩ := List.forall_mem_cons.mp sound
    have more := ih sound tail
    rw [Piece.writeAll_cons, trimmed, trimFrom_piece firm first, ← trimmed, more]
    rfl

/-! ### Both directions -/

theorem exists_parse_iff {text : Text} : (∃ t, parse text = .ok t) ↔
    ∃ pieces, text = Piece.writeAll pieces ∧ ∀ p ∈ pieces, p.IsGrammatical := by
  constructor
  · rintro ⟨t, h⟩
    obtain ⟨pieces, written, sound, read⟩ := exists_pieces (parse_ok h).2
    refine ⟨pieces, written, fun p member => Piece.isGrammatical_iff.mpr ⟨sound p member, ?_⟩⟩
    obtain ⟨part, -, found⟩ := exists_ok_of_mapM_ok read p member
    exact ⟨part, found⟩
  · rintro ⟨pieces, rfl, grammatical⟩
    have each (p : Piece) (member : p ∈ pieces) := Piece.isGrammatical_iff.mp (grammatical p member)
    obtain ⟨parts, read⟩ := exists_mapM_ok fun p member => (each p member).2
    rw [parse, parseParts_writeAll fun p member => (each p member).1, read]
    exact ⟨_, rfl⟩

theorem parse_renderAll {parts : List Part} (regular : ∀ p ∈ parts, p.IsRegular)
    (apart : Part.Apart parts) :
    parse (Part.renderAll parts) = .ok ⟨Part.renderAll parts, parts⟩ := by
  have sound : ∀ p ∈ parts.map Part.piece, p.Sound :=
    List.forall_mem_map.mpr fun p member => Part.sound_piece (regular p member)
  have read : (parts.map Part.piece).mapM Piece.read = .ok parts :=
    mapM_map_ok fun p member => Part.read_piece (regular p member)
  rw [parse, Part.renderAll_eq_writeAll, parseParts_writeAll sound, read]
  simp only [ok_bind, pure_eq_ok, Part.compact_eq_self regular apart]

theorem regular_of_parse {text : Text} {t : Template} (h : parse text = .ok t) :
    (∀ p ∈ t.parts, p.IsRegular) ∧ Part.Apart t.parts := by
  obtain ⟨-, parts⟩ := parse_ok h
  obtain ⟨pieces, rfl, sound, read⟩ := exists_pieces parts
  -- The parts are those of the pieces, and reading has put them into compact form.
  have compact : t.parts = Part.compact t.parts := by
    rw [parseParts_writeAll sound, read] at parts
    exact (Except.ok.inj parts).symm
  rw [compact]
  refine ⟨Part.isRegular_compact ?_, Part.apart_compact _⟩
  intro part member
  obtain ⟨p, source, found⟩ := mem_of_mapM_ok read part member
  exact Part.isRegular_of_read (sound p source) found

/-- Regular parts are read from what they write. A text is read just when it consists of free text
and of bodies of expressions between braces, and its parts are regular then and write it without
leading zeros. -/
theorem parse_render_inverse :
    (∀ parts, (∀ p ∈ parts, p.IsRegular) → Part.Apart parts →
      parse (Part.renderAll parts) = .ok ⟨Part.renderAll parts, parts⟩) ∧
    ∀ text, ((∃ t, parse text = .ok t) ↔
        ∃ pieces, text = Piece.writeAll pieces ∧ ∀ p ∈ pieces, p.IsGrammatical) ∧
      ∀ t, parse text = .ok t → (∀ p ∈ t.parts, p.IsRegular) ∧ Part.Apart t.parts ∧
        Part.renderAll t.parts = trimmed text := by
  refine ⟨fun parts => parse_renderAll, fun text => ⟨exists_parse_iff, ?_⟩⟩
  intro t h
  obtain ⟨regular, apart⟩ := regular_of_parse h
  obtain ⟨pieces, written, sound, read⟩ := exists_pieces (parse_ok h).2
  refine ⟨regular, apart, ?_⟩
  rw [written, trimFrom_pieces sound read]

theorem parse_render_inverse_zeros : ∃ t, parse "a\x7b?x:003,y*\x7d".toList = .ok t ∧
    Part.renderAll t.parts = "a\x7b?x:3,y*\x7d".toList ∧
    parse (Part.renderAll t.parts) = .ok ⟨Part.renderAll t.parts, t.parts⟩ := by
  have read : parse "a\x7b?x:003,y*\x7d".toList = .ok ⟨"a\x7b?x:003,y*\x7d".toList,
      [.literal ['a'], .expression ⟨.query, [⟨['x'], false, 3⟩, ⟨['y'], true, 0⟩]⟩]⟩ := rfl
  obtain ⟨regular, apart, written⟩ := (parse_render_inverse.2 _).2 _ read
  exact ⟨_, read, written, parse_render_inverse.1 _ regular apart⟩

end Template
end Rfc6570
