import Rfc6570.Proofs.ExpansionJoining
import Rfc6570.Proofs.ExpressionGrammar
/-!
The characters of expansions. Whatever the values hold, an expression expands to characters that
its operator permits and to percent-encoded triplets: `uriText_expandPresent`. No operator permits
a brace. Main statement: `uriText_expand`, an expression that was read expands to URI text, in which
the reserved characters are the operator's own unless it keeps those of the values.
-/

namespace Rfc6570

/-- A text of allowed characters and percent-encoded triplets. -/
inductive UriText (allowed : Char → Bool) : Text → Prop
  | nil : UriText allowed []
  | char {c : Char} {rest : Text} (legal : allowed c = true) (more : UriText allowed rest) :
      UriText allowed (c :: rest)
  | triplet {a b : Char} {rest : Text} (high : Characters.hexDigit.contains a = true)
      (low : Characters.hexDigit.contains b = true) (more : UriText allowed rest) :
      UriText allowed ('%' :: a :: b :: rest)

namespace UriText

variable {allowed : Char → Bool}

theorem append {s t : Text} (left : UriText allowed s) (right : UriText allowed t) :
    UriText allowed (s ++ t) := by
  induction left with
  | nil => exact right
  | char legal _ ih => exact .char legal ih
  | triplet high low _ ih => exact .triplet high low ih

theorem mono {permitted : Char → Bool} (wider : ∀ c, allowed c = true → permitted c = true) {t : Text}
    (h : UriText allowed t) : UriText permitted t := by
  induction h with
  | nil => exact .nil
  | char legal _ ih => exact .char (wider _ legal) ih
  | triplet high low _ ih => exact .triplet high low ih

theorem join {sep : Char} (legal : allowed sep = true) {words : List Text}
    (each : ∀ word ∈ words, UriText allowed word) : UriText allowed (Text.join sep words) := by
  cases words with
  | nil => exact .nil
  | cons first rest =>
    rw [Text.join_cons]
    refine (each first List.mem_cons_self).append ?_
    have later : ∀ word ∈ rest, UriText allowed word := fun word member =>
      each word (List.mem_cons_of_mem first member)
    clear each
    induction rest with
    | nil => exact .nil
    | cons second rest ih =>
      rw [List.flatMap_cons]
      exact (UriText.char legal (later second List.mem_cons_self)).append
        (ih fun word member => later word (List.mem_cons_of_mem second member))

theorem of_nameTail {t : Text} (h : Characters.isNameTail t = true) :
    UriText Characters.varchar.contains t := by
  fun_induction Characters.isNameTail t with
  | case1 => exact .nil
  | case2 a b rest ih =>
    simp only [Bool.and_eq_true] at h
    exact .triplet h.1.1 h.1.2 (ih h.2)
  | case3 c rest _ ih =>
    rw [Bool.and_eq_true] at h
    exact .char h.1 (ih h.2)

theorem encodeByte (reservedToo : Bool) (b : UInt8) :
    UriText (Characters.isLegal reservedToo) (PercentEncoding.encodeByte reservedToo b) := by
  have digits : ∀ n < 16, Characters.hexDigit.contains (Text.upperHexDigit n) = true := by decide
  unfold PercentEncoding.encodeByte
  simp only
  split
  · rename_i legal
    exact .char legal .nil
  · have bound := b.toNat_lt
    exact .triplet (digits _ (by omega)) (digits _ (by omega)) .nil

theorem encode (reservedToo : Bool) (data : List UInt8) :
    UriText (Characters.isLegal reservedToo) (PercentEncoding.encode reservedToo data) := by
  induction data with
  | nil => exact .nil
  | cons b rest ih => exact (UriText.encodeByte reservedToo b).append ih

theorem not_mem {t : Text} (h : UriText allowed t) {c : Char} (refused : allowed c = false)
    (other : (Characters.hexDigit.contains c || c == '%') = false) : c ∉ t := by
  rw [Bool.or_eq_false_iff] at other
  have noDigit {d : Char} (digit : Characters.hexDigit.contains d = true) : c ≠ d := by
    rintro rfl
    rw [other.1] at digit
    cases digit
  induction h with
  | nil => simp
  | @char d _ legal _ ih =>
    have different : c ≠ d := by
      rintro rfl
      rw [refused] at legal
      cases legal
    simp [different, ih]
  | triplet high low _ ih =>
    have different : c ≠ '%' := by simpa using other.2
    simp [different, noDigit high, noDigit low, ih]

/-- Where `%` is not allowed by itself, each one begins a triplet. -/
theorem triplet_of_percent {t : Text} (h : UriText allowed t) (refused : allowed '%' = false)
    {before after : Text} (split : t = before ++ '%' :: after) :
    ∃ a b rest, after = a :: b :: rest ∧ Characters.hexDigit.contains a = true ∧
      Characters.hexDigit.contains b = true := by
  have noDigit : Characters.hexDigit.contains '%' = false := by decide
  induction h generalizing before with
  | nil => simp at split
  | @char c rest legal _ ih =>
    cases before with
    | nil =>
      obtain ⟨rfl, -⟩ := List.cons_eq_cons.mp split
      rw [refused] at legal
      cases legal
    | cons d before => exact ih (List.cons_eq_cons.mp split).2
  | @triplet a b rest high low _ ih =>
    -- A `%` is the first character of the triplet or stands behind it: the digits are none.
    match before with
    | [] => exact ⟨a, b, rest, (List.cons_eq_cons.mp split).2.symm, high, low⟩
    | [_] =>
      obtain ⟨-, rfl, -⟩ : _ ∧ a = '%' ∧ _ := by simpa using split
      rw [noDigit] at high
      cases high
    | [_, _] =>
      obtain ⟨-, -, rfl, -⟩ : _ ∧ _ ∧ b = '%' ∧ _ := by simpa using split
      rw [noDigit] at low
      cases low
    | _ :: _ :: _ :: before =>
      obtain ⟨-, -, -, split⟩ : _ ∧ _ ∧ _ ∧ rest = before ++ '%' :: after := by simpa using split
      exact ih split

end UriText

namespace Expression

/-- The characters that an operator writes: those it leaves unencoded, and its delimiters. -/
def permits (op : Operator) (c : Char) : Bool :=
  Characters.isLegal op.keepsReserved c || op.first.contains c || c == op.separator || c == ','
    || c == '='

theorem permits_of_isLegal {op : Operator} {c : Char}
    (h : Characters.isLegal op.keepsReserved c = true) : permits op c = true := by
  simp [permits, h]

theorem permits_of_varchar (op : Operator) {c : Char} (h : Characters.varchar.contains c = true) :
    permits op c = true :=
  permits_of_isLegal (Characters.isLegal_of_unreserved (Characters.isLegal_of_varchar h) _)

@[simp] theorem permits_separator (op : Operator) : permits op op.separator = true := by
  simp [permits]

@[simp] theorem permits_comma (op : Operator) : permits op ',' = true := by
  simp [permits]

@[simp] theorem permits_equals (op : Operator) : permits op '=' = true := by
  simp [permits]

theorem permits_brace (op : Operator) : permits op '\x7b' = false ∧ permits op '\x7d' = false := by
  cases op <;> decide

theorem uriText_encode (op : Operator) (data : List UInt8) : UriText (permits op) (encode op data) :=
  (UriText.encode op.keepsReserved data).mono fun _ => permits_of_isLegal

theorem uriText_name (op : Operator) {name : Text} (named : Characters.isName name = true) :
    UriText (permits op) name :=
  (UriText.of_nameTail (Characters.isName_iff.mp named).2).mono fun _ => permits_of_varchar op

theorem uriText_nameBefore (op : Operator) {v : Varspec} (named : Characters.isName v.name = true)
    (isEmpty : Bool) : UriText (permits op) (nameBefore op v isEmpty) := by
  unfold nameBefore
  split
  · refine (uriText_name op named).append ?_
    split
    · cases op <;> first | exact .nil | exact .char (permits_equals _) .nil
    · exact .char (permits_equals op) .nil
  · exact .nil

theorem uriText_expandString (op : Operator) {v : Varspec} (named : Characters.isName v.name = true)
    (t : Text) : UriText (permits op) (expandString op v t) :=
  (uriText_nameBefore op named _).append (uriText_encode op _)

theorem uriText_expandList (op : Operator) {v : Varspec} (named : Characters.isName v.name = true)
    (items : List Text) : UriText (permits op) (expandList op v items) := by
  unfold expandList
  split
  · exact .nil
  · split
    · refine UriText.join (permits_separator op) ?_
      intro word member
      obtain ⟨item, _, rfl⟩ := List.mem_map.mp member
      exact uriText_expandString op named _
    · refine (uriText_nameBefore op named false).append (UriText.join (permits_comma op) ?_)
      intro word member
      obtain ⟨item, _, rfl⟩ := List.mem_map.mp member
      exact uriText_encode op _

theorem uriText_expandEntry (op : Operator) {between : Char} (h : permits op between = true)
    (entry : Text × Text) : UriText (permits op) (expandEntry op between entry) :=
  (uriText_encode op _).append (.char h (uriText_encode op _))

theorem uriText_expandAssoc (op : Operator) {v : Varspec} (named : Characters.isName v.name = true)
    (entries : List (Text × Text)) : UriText (permits op) (expandAssoc op v entries) := by
  unfold expandAssoc
  split
  · exact .nil
  · split
    · refine UriText.join (permits_separator op) ?_
      intro word member
      obtain ⟨entry, _, rfl⟩ := List.mem_map.mp member
      exact uriText_expandEntry op (permits_equals op) entry
    · refine (uriText_nameBefore op named false).append (UriText.join (permits_comma op) ?_)
      intro word member
      obtain ⟨entry, _, rfl⟩ := List.mem_map.mp member
      exact uriText_expandEntry op (permits_comma op) entry

theorem uriText_expandValue {op : Operator} {v : Varspec} (named : Characters.isName v.name = true)
    {given : Given} {output : Text} (h : expandValue op v given = .ok output) :
    UriText (permits op) output := by
  obtain ⟨texts, -, -, rfl⟩ := expandValue_eq_ok.mp h
  cases texts with
  | string t => exact uriText_expandString op named t
  | list items => exact uriText_expandList op named items
  | assoc entries => exact uriText_expandAssoc op named entries

theorem uriText_assemble {op : Operator} {ps : List Text}
    (each : ∀ piece ∈ ps, UriText (permits op) piece) : UriText (permits op) (assemble op ps) := by
  have first : UriText (permits op) op.first := by
    cases op <;> first | exact .nil | exact .char (by decide) .nil
  unfold assemble
  simp only
  split
  · exact .nil
  · refine first.append (UriText.join (permits_separator op) ?_)
    intro word member
    exact each word ((List.dropWhile_sublist _).subset member)

/-- Whatever the values hold, an expression writes permitted characters and triplets only. -/
theorem uriText_expandPresent {env : Environment} {e : Expression} {output : Text}
    {left : List Varspec} (named : ∀ v ∈ e.varspecs, Characters.isName v.name = true)
    (h : e.expandPresent env = .ok (output, left)) : UriText (permits e.operator) output := by
  obtain ⟨-, ps, found, rfl⟩ := expandPresent_ok h
  apply uriText_assemble
  intro piece member
  obtain ⟨v, source, given, _, expanded⟩ := mem_pieces found member
  exact uriText_expandValue (named v source) expanded

theorem braceFree_of_uriText {op : Operator} {t : Text} (h : UriText (permits op) t) : BraceFree t :=
  ⟨h.not_mem (permits_brace op).1 (by decide), h.not_mem (permits_brace op).2 (by decide)⟩

/-! ### URI text -/

theorem isLegal_of_permits {op : Operator} {c : Char} (h : permits op c = true) :
    Characters.isLegal true c = true := by
  simp only [permits, Bool.or_eq_true, beq_iff_eq, List.contains_iff_mem] at h
  rcases h with (((legal | first) | rfl) | rfl) | rfl
  · simp only [Characters.isLegal, Bool.or_eq_true, Bool.and_eq_true] at legal ⊢
    exact legal.imp_right fun both => ⟨trivial, both.2⟩
  · have every : op.first.all (Characters.isLegal true) = true := by cases op <;> decide
    exact List.all_eq_true.mp every c first
  · cases op <;> decide
  · decide
  · decide

/-- What an operator writes of the reserved characters, when it encodes those of the values. -/
theorem delimiter_of_reserved {op : Operator} (encodes : op.keepsReserved = false) {t : Text}
    (h : UriText (permits op) t) {c : Char} (member : c ∈ t)
    (reserved : Characters.reserved.contains c = true) :
    c ∈ op.first ∨ c = op.separator ∨ c = ',' ∨ c = '=' := by
  have apart : Characters.reserved.all (fun d => !Characters.isLegal false d &&
      !(Characters.hexDigit.contains d || d == '%')) = true := by decide
  have other := List.all_eq_true.mp apart c (List.contains_iff_mem.mp reserved)
  simp only [Bool.and_eq_true, Bool.not_eq_true'] at other
  cases allowed : permits op c with
  | false => exact absurd member (h.not_mem allowed other.2)
  | true =>
    rw [permits, encodes, other.1] at allowed
    simpa [or_assoc] using allowed

/-- An expression of a template expands to unreserved and reserved characters and to percent-encoded
triplets, whatever its variables hold and wherever a prefix cuts. Operators other than `+` and `#`
write no reserved character but their delimiters. -/
theorem uriText_expand {text output : Text} {t : Template} {e : Expression} {env : Environment}
    (read : Template.parse text = .ok t) (part : .expression e ∈ t.parts)
    (expanded : e.expand env = .ok output) :
    UriText (Characters.isLegal true) output ∧
    (∀ before after, output = before ++ '%' :: after → ∃ a b rest, after = a :: b :: rest ∧
      Characters.hexDigit.contains a = true ∧ Characters.hexDigit.contains b = true) ∧
    (e.operator ≠ .reserved ∧ e.operator ≠ .fragment → ∀ c ∈ output,
      Characters.reserved.contains c = true →
        c ∈ e.operator.first ∨ c = e.operator.separator ∨ c = ',' ∨ c = '=') := by
  have formed := Template.wellFormed_of_parse read _ part
  obtain ⟨⟨output', left⟩, found, same⟩ := bind_ok expanded
  cases same
  have written := uriText_expandPresent formed.named found
  have legal := written.mono fun _ => isLegal_of_permits
  refine ⟨legal, fun before after => legal.triplet_of_percent (Characters.isLegal_percent true), ?_⟩
  rintro ⟨plain, noFragment⟩ c member
  have encodes : e.operator.keepsReserved = false := by
    cases op : e.operator <;> first | rfl | exact absurd op plain | exact absurd op noFragment
  exact delimiter_of_reserved encodes written member

/-- A name that holds a triplet, a string that is cut within a character, and delimiters in a map. -/
theorem uriText_expand_parameters : ∃ t e a, Template.parse "\x7b;%c3x:1,m*\x7d".toList = .ok t ∧
    .expression e ∈ t.parts ∧
    a = ([("%c3x".toList, .datum (.text "\u00e9/".toList)),
      ("m".toList, .datum (.map [(.text "a=".toList, .text "%;".toList)]))] : Assignment) ∧
    e.expand (Assignment.environment a) = .ok ";%c3x=%C3;a%3D=%25%3B".toList ∧
    UriText (Characters.isLegal true) ";%c3x=%C3;a%3D=%25%3B".toList := by
  have read : Template.parse "\x7b;%c3x:1,m*\x7d".toList = .ok ⟨"\x7b;%c3x:1,m*\x7d".toList,
      [.expression ⟨.parameter, [⟨"%c3x".toList, false, 1⟩, ⟨['m'], true, 0⟩]⟩]⟩ := rfl
  have expanded : Expression.expand (Assignment.environment
      [("%c3x".toList, .datum (.text "\u00e9/".toList)),
        ("m".toList, .datum (.map [(.text "a=".toList, .text "%;".toList)]))])
      ⟨.parameter, [⟨"%c3x".toList, false, 1⟩, ⟨['m'], true, 0⟩]⟩ =
        .ok ";%c3x=%C3;a%3D=%25%3B".toList := rfl
  exact ⟨_, _, _, read, List.mem_singleton_self _, rfl, expanded,
    (uriText_expand read (List.mem_singleton_self _) expanded).1⟩

end Expression
end Rfc6570
