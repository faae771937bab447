import Rfc6570.Template
import Rfc6570.Proofs.Outcome
import Rfc6570.Proofs.Splitting
/-!
The text of a template as a series of pieces: free text, and what stands between two braces.
`parseParts_writeAll` says what a written series is read as, and `exists_pieces` that every
template is written by the pieces of its parts.
-/

namespace Rfc6570

def BraceFree (t : Text) : Prop :=
  '\x7b' ∉ t ∧ '\x7d' ∉ t

namespace BraceFree

theorem nil : BraceFree [] := by
  simp [BraceFree]

theorem append {s t : Text} (left : BraceFree s) (right : BraceFree t) : BraceFree (s ++ t) := by
  simp [BraceFree, left.1, left.2, right.1, right.2]

end BraceFree

inductive Piece
  | free (t : Text)
  | braced (body : Text)

namespace Piece

def write : Piece → Text
  | .free t => t
  | .braced body => '\x7b' :: body ++ ['\x7d']

def writeAll (pieces : List Piece) : Text :=
  pieces.flatMap write

def Sound : Piece → Prop
  | .free t => BraceFree t
  | .braced body => BraceFree body ∧ body ≠ []

def read : Piece → Except Fault Part
  | .free t => .ok (.literal t)
  | .braced body => do
    let e ← Expression.parseBody body
    pure (.expression e)

theorem writeAll_cons (p : Piece) (rest : List Piece) :
    writeAll (p :: rest) = p.write ++ writeAll rest :=
  List.flatMap_cons

theorem writeAll_append (left right : List Piece) :
    writeAll (left ++ right) = writeAll left ++ writeAll right :=
  List.flatMap_append

end Piece

namespace Part

/-- Parts with a text before them: two literals that meet are one, and an empty one is none. -/
def prepend (t : Text) : List Part → List Part
  | .literal u :: rest => .literal (t ++ u) :: rest
  | parts => Template.literal t ++ parts

/-- Parts in the form in which a template has them. -/
def compact : List Part → List Part
  | [] => []
  | .literal t :: rest => prepend t (compact rest)
  | .expression e :: rest => .expression e :: compact rest

/-- No literal stands at the front. -/
def HeadFree (parts : List Part) : Prop :=
  ∀ t rest, parts ≠ .literal t :: rest

theorem prepend_literal {parts : List Part} (free : HeadFree parts) (t u : Text) :
    prepend t (Template.literal u ++ parts) = Template.literal (t ++ u) ++ parts := by
  cases u with
  | nil =>
    cases parts with
    | nil => simp [prepend, Template.literal]
    | cons part rest =>
      cases part with
      | literal u => exact absurd rfl (free u rest)
      | expression e => simp [prepend, Template.literal]
  | cons c u => simp [prepend, Template.literal]

end Part

namespace Template

/-! ### Reading what was written -/

theorem parseSegment_braced {body after : Text} (filled : body ≠ []) (closed : '\x7d' ∉ body)
    (free : '\x7d' ∉ after) (whole : Text) :
    parseSegment whole (body ++ '\x7d' :: after) =
      (Expression.parseBody body >>= fun e => pure (.expression e :: literal after)) := by
  have split : (body ++ '\x7d' :: after).splitOn '\x7d' = [body, after] := by
    rw [List.splitOn_append_cons_self_of_not_mem closed, List.splitOn_eq_singleton free]
  simp [parseSegment, split, filled]

theorem parseSegment_ok {whole segment : Text} {parts : List Part}
    (h : parseSegment whole segment = .ok parts) :
    ∃ body after e, segment = body ++ '\x7d' :: after ∧ '\x7d' ∉ body ∧ '\x7d' ∉ after ∧
      body ≠ [] ∧ Expression.parseBody body = .ok e ∧ parts = .expression e :: literal after := by
  unfold parseSegment at h
  split at h
  · rename_i body after split
    have rejoined : ['\x7d'].intercalate (segment.splitOn '\x7d') = segment :=
      List.intercalate_splitOn '\x7d'
    rw [split, List.intercalate_cons_cons, List.intercalate_singleton] at rejoined
    have closed := Text.not_mem_of_mem_splitOn (split ▸ List.mem_cons_self)
    have free := Text.not_mem_of_mem_splitOn (split ▸ List.mem_cons_of_mem body List.mem_cons_self)
    split at h
    · cases h
    · rename_i filled
      obtain ⟨e, read, h⟩ := bind_ok h
      cases h
      refine ⟨body, after, e, ?_, closed, free, by simpa using filled, read, rfl⟩
      simpa using rejoined.symm
  · cases h

theorem headFree_segments {whole : Text} {segments : List Text} {series : List (List Part)}
    (h : segments.mapM (parseSegment whole) = .ok series) : Part.HeadFree series.flatten := by
  cases segments with
  | nil =>
    rw [mapM_nil_ok h]
    intro t rest same
    cases same
  | cons segment segments =>
    obtain ⟨parts, others, first, -, rfl⟩ := mapM_cons_ok h
    obtain ⟨_, _, e, _, _, _, _, _, rfl⟩ := parseSegment_ok first
    intro t rest same
    cases same

/-- A written series is cut at the braces that it was written with, and at no other place. -/
theorem splitOn_writeAll {pieces : List Piece} (sound : ∀ p ∈ pieces, p.Sound) :
    ∃ before segments, (Piece.writeAll pieces).splitOn '\x7b' = before :: segments ∧
      '\x7d' ∉ before ∧ ∀ whole,
        (segments.mapM (parseSegment whole) >>= fun series =>
            pure (literal before ++ series.flatten)) =
          pieces.mapM Piece.read >>= fun parts => pure (Part.compact parts) := by
  induction pieces with
  | nil => exact ⟨[], [], rfl, by simp, fun _ => rfl⟩
  | cons p rest ih =>
    obtain ⟨before, segments, split, closed, agree⟩ :=
      ih fun q member => sound q (List.mem_cons_of_mem p member)
    have first := sound p List.mem_cons_self
    cases p with
    | free t =>
      refine ⟨t ++ before, segments, ?_, by simp [first.2, closed], ?_⟩
      · rw [Piece.writeAll_cons, Piece.write, Text.splitOn_append_of_not_mem first.1, split,
          List.modifyHead_cons]
      · intro whole
        rw [List.mapM_cons, Piece.read, ok_bind]
        rcases bind_pure_eq (agree whole) with ⟨f, found, read⟩ | ⟨series, parts, found, read, same⟩
        · rw [found, read]
          rfl
        · simp only [found, read, ok_bind, pure_eq_ok, Part.compact, ← same,
            Part.prepend_literal (headFree_segments found)]
    | braced body =>
      obtain ⟨free, filled⟩ := first
      have opened : (Piece.writeAll (.braced body :: rest)).splitOn '\x7b' =
          [] :: (body ++ '\x7d' :: before) :: segments := by
        have bare : '\x7b' ∉ body ++ ['\x7d'] := by simp [free.1]
        rw [Piece.writeAll_cons, Piece.write, List.cons_append, List.cons_append,
          List.splitOn_cons_eq_if_modifyHead, if_pos (by decide),
          Text.splitOn_append_of_not_mem bare, split, List.modifyHead_cons, List.append_assoc]
        rfl
      refine ⟨[], _, opened, by simp, ?_⟩
      intro whole
      rw [List.mapM_cons, List.mapM_cons, parseSegment_braced filled free.2 closed, Piece.read]
      cases Expression.parseBody body with
      | error f => rfl
      | ok e =>
        rcases bind_pure_eq (agree whole) with ⟨f, found, read⟩ | ⟨series, parts, found, read, same⟩
        · simp only [found, read, ok_bind, pure_eq_ok, error_bind]
        · simp only [found, read, ok_bind, pure_eq_ok, Part.compact, ← same]
          rfl

/-- A written series is read piece by piece, and fails at the first piece that fails. -/
theorem parseParts_writeAll {pieces : List Piece} (sound : ∀ p ∈ pieces, p.Sound) :
    parseParts (Piece.writeAll pieces) =
      (pieces.mapM Piece.read >>= fun parts => pure (Part.compact parts)) := by
  obtain ⟨before, segments, split, closed, agree⟩ := splitOn_writeAll sound
  unfold parseParts
  rw [split]
  simpa [closed] using agree (Piece.writeAll pieces)

/-! ### The pieces of what was read -/

theorem literal_pieces {t : Text} (free : BraceFree t) :
    ∃ pieces, t = Piece.writeAll pieces ∧ (∀ p ∈ pieces, p.Sound) ∧
      pieces.mapM Piece.read = .ok (literal t) := by
  cases t with
  | nil => exact ⟨[], rfl, by simp, rfl⟩
  | cons c rest =>
    refine ⟨[.free (c :: rest)], by simp [Piece.writeAll, Piece.write], ?_, rfl⟩
    intro p member
    rw [List.mem_singleton.mp member]
    exact free

theorem segments_pieces {whole : Text} {segments : List Text} {series : List (List Part)}
    (opened : ∀ s ∈ segments, '\x7b' ∉ s) (h : segments.mapM (parseSegment whole) = .ok series) :
    ∃ pieces, segments.flatMap ('\x7b' :: ·) = Piece.writeAll pieces ∧ (∀ p ∈ pieces, p.Sound) ∧
      pieces.mapM Piece.read = .ok series.flatten := by
  induction segments generalizing series with
  | nil =>
    rw [mapM_nil_ok h]
    exact ⟨[], rfl, by simp, rfl⟩
  | cons segment rest ih =>
    obtain ⟨parts, others, first, tail, rfl⟩ := mapM_cons_ok h
    obtain ⟨pieces, written, sound, read⟩ :=
      ih (fun s member => opened s (List.mem_cons_of_mem segment member)) tail
    obtain ⟨body, after, e, rfl, closed, free, filled, readBody, rfl⟩ := parseSegment_ok first
    have bare := opened _ List.mem_cons_self
    simp only [List.mem_append, List.mem_cons, not_or] at bare
    obtain ⟨between, writtenBetween, soundBetween, readBetween⟩ :=
      literal_pieces (t := after) ⟨bare.2.2, free⟩
    refine ⟨.braced body :: between ++ pieces, ?_, ?_, ?_⟩
    · rw [List.flatMap_cons, written, Piece.writeAll_append, Piece.writeAll_cons, ← writtenBetween]
      simp [Piece.write]
    · intro p member
      rcases List.mem_append.mp member with member | member
      · rcases List.mem_cons.mp member with rfl | member
        · exact ⟨⟨bare.1, closed⟩, filled⟩
        · exact soundBetween p member
      · exact sound p member
    · simp [List.mapM_append, Piece.read, readBody, readBetween, read]

/-- Every text that is read is written by the pieces of its parts. -/
theorem exists_pieces {text : Text} {parts : List Part} (h : parseParts text = .ok parts) :
    ∃ pieces, text = Piece.writeAll pieces ∧ (∀ p ∈ pieces, p.Sound) ∧
      pieces.mapM Piece.read = .ok parts := by
  unfold parseParts at h
  have rejoined : ['\x7b'].intercalate (text.splitOn '\x7b') = text := List.intercalate_splitOn '\x7b'
  have opened : ∀ s ∈ text.splitOn '\x7b', '\x7b' ∉ s := fun s => Text.not_mem_of_mem_splitOn
  split at h
  · rename_i split
    exact absurd split (List.splitOn_ne_nil '\x7b' text)
  · rename_i before segments split
    rw [split] at rejoined opened
    split at h
    · cases h
    · rename_i closed
      obtain ⟨series, found, h⟩ := bind_ok h
      cases h
      obtain ⟨front, writtenFront, soundFront, readFront⟩ :=
        literal_pieces (t := before) ⟨opened _ List.mem_cons_self, by simpa using closed⟩
      obtain ⟨pieces, written, sound, read⟩ :=
        segments_pieces (fun s member => opened s (List.mem_cons_of_mem before member)) found
      refine ⟨front ++ pieces, ?_, ?_, ?_⟩
      · rw [Piece.writeAll_append, ← writtenFront, ← written, ← rejoined]
        exact Text.join_cons '\x7b' before segments
      · intro p member
        exact (List.mem_append.mp member).elim (soundFront p) (sound p)
      · simp [List.mapM_append, readFront, read]

end Template
end Rfc6570
