import Rfc6570.Proofs.Environments
import Rfc6570.Proofs.ExpansionJoining
/-!
Values that are filled. Under every operator they expand to some text, so that all pieces of an
expression without prefixes count: `pieces_ok`.
-/

namespace Rfc6570

theorem Text.utf8_ne_nil {t : Text} (filled : t ≠ []) : t.utf8 ≠ [] := by
  obtain ⟨c, rest, rfl⟩ := List.exists_cons_of_ne_nil filled
  rw [Text.utf8, List.flatMap_cons]
  exact List.append_ne_nil_of_left_ne_nil (by simp) _

namespace Expression

theorem encode_ne_nil (op : Operator) {data : List UInt8} (filled : data ≠ []) :
    encode op data ≠ [] := by
  obtain ⟨b, rest, rfl⟩ := List.exists_cons_of_ne_nil filled
  rw [encode, PercentEncoding.encode, List.flatMap_cons]
  apply List.append_ne_nil_of_left_ne_nil
  unfold PercentEncoding.encodeByte
  simp only
  split <;> simp

theorem kept_of_unlimited {v : Varspec} (unlimited : v.maxLength = 0) (t : Text) :
    kept v t = t.utf8 := by
  rw [kept, truncate, if_pos unlimited]

theorem kept_ne_nil {v : Varspec} (nonneg : 0 ≤ v.maxLength) {t : Text} (filled : t ≠ []) :
    kept v t ≠ [] := by
  have some := Text.utf8_ne_nil filled
  unfold kept truncate
  split
  · exact some
  · rename_i limited
    have positive : 0 < v.maxLength := by omega
    have one : v.maxLength.toNat ≠ 0 := by omega
    rw [if_pos positive]
    simp [some, one]

theorem expandString_ne_nil (op : Operator) {v : Varspec} (nonneg : 0 ≤ v.maxLength) {t : Text}
    (filled : t ≠ []) : expandString op v t ≠ [] :=
  List.append_ne_nil_of_right_ne_nil _ (encode_ne_nil op (kept_ne_nil nonneg filled))

theorem expandList_ne_nil (op : Operator) {v : Varspec} (nonneg : 0 ≤ v.maxLength)
    {items : List Text} (filled : items ≠ []) (solid : ∀ item ∈ items, item ≠ []) :
    expandList op v items ≠ [] := by
  unfold expandList
  rw [if_neg (by simpa using filled)]
  split
  · apply Text.join_ne_nil (by simpa using filled)
    intro word member
    obtain ⟨item, source, rfl⟩ := List.mem_map.mp member
    exact expandString_ne_nil op nonneg (solid item source)
  · apply List.append_ne_nil_of_right_ne_nil
    apply Text.join_ne_nil (by simpa using filled)
    intro word member
    obtain ⟨item, source, rfl⟩ := List.mem_map.mp member
    exact encode_ne_nil op (kept_ne_nil nonneg (solid item source))

theorem expandAssoc_ne_nil (op : Operator) (v : Varspec) {entries : List (Text × Text)}
    (filled : entries ≠ []) : expandAssoc op v entries ≠ [] := by
  have solid (sep between : Char) : Text.join sep (entries.map (expandEntry op between)) ≠ [] := by
    apply Text.join_ne_nil (by simpa using filled)
    intro word member
    obtain ⟨entry, source, rfl⟩ := List.mem_map.mp member
    simp [expandEntry]
  unfold expandAssoc
  rw [if_neg (by simpa using filled)]
  split
  · exact solid op.separator '='
  · exact List.append_ne_nil_of_right_ne_nil _ (solid ',' ',')

theorem expandPlain_ne_nil (op : Operator) {v : Varspec} (nonneg : 0 ≤ v.maxLength)
    {texts : PlainValue} (filled : texts.IsFilled) : expandPlain op v texts ≠ [] := by
  cases texts with
  | string t => exact expandString_ne_nil op nonneg filled
  | list items => exact expandList_ne_nil op nonneg filled.1 filled.2
  | assoc entries => exact expandAssoc_ne_nil op v filled

theorem expandValue_ok (op : Operator) {v : Varspec} (unlimited : v.maxLength = 0) {given : Given}
    {texts : PlainValue} (plain : given.plain = .ok texts) (filled : texts.IsFilled) :
    ∃ piece, expandValue op v given = .ok piece ∧ piece ≠ [] :=
  ⟨_, expandValue_of_plain op plain (absurd unlimited),
    expandPlain_ne_nil op (Int.le_of_eq unlimited.symm) filled⟩

theorem pieces_ok (op : Operator) {env : Environment} (filled : env.IsFilled) {vs : List Varspec}
    (unlimited : ∀ v ∈ vs, v.maxLength = 0) :
    ∃ ps, pieces op env vs = .ok ps ∧ (∀ piece ∈ ps, piece ≠ []) ∧
      ps.length + (missing env vs).length = vs.length := by
  induction vs with
  | nil => exact ⟨[], rfl, by simp, rfl⟩
  | cons v rest ih =>
    obtain ⟨whole, unlimited⟩ := List.forall_mem_cons.mp unlimited
    obtain ⟨ps, series, solid, count⟩ := ih unlimited
    rw [pieces, missing]
    cases found : env v.name with
    | none =>
      refine ⟨ps, series, solid, ?_⟩
      rw [List.filter_cons_of_pos (by simp [found]), List.length_cons, List.length_cons, ← count]
      rfl
    | some given =>
      obtain ⟨texts, plain, filled⟩ := filled v.name given found
      obtain ⟨piece, expanded, some⟩ := expandValue_ok op whole plain filled
      refine ⟨piece :: ps, by simp [expanded, series], by simpa [some] using solid, ?_⟩
      rw [List.filter_cons_of_neg (by simp [found]), List.length_cons, List.length_cons, ← count,
        missing]
      omega

theorem assemble_of_solid (op : Operator) {ps : List Text} (filled : ps ≠ [])
    (solid : ∀ piece ∈ ps, piece ≠ []) : assemble op ps = op.first ++ Text.join op.separator ps := by
  have kept : ps.dropWhile List.isEmpty = ps := by
    obtain ⟨first, rest, rfl⟩ := List.exists_cons_of_ne_nil filled
    exact List.dropWhile_cons_of_neg (by simpa using solid first List.mem_cons_self)
  have some : Text.join op.separator ps ≠ [] := Text.join_ne_nil filled solid
  simp [assemble, kept, some]

end Expression
end Rfc6570
