import Rfc6570.Proofs.Environments
import Rfc6570.Proofs.ExpressionGrammar
import Rfc6570.Proofs.PartSeries
/-!
Templates one behind the other. Where two texts meet, the text behind the last expression of the
one and the text before the first expression of the other become one literal, and nothing else
changes. Main statement: `parse_append`.
-/

namespace Rfc6570.Template

theorem parseParts_append {s₁ s₂ : Text} {parts₁ parts₂ : List Part}
    (first : parseParts s₁ = .ok parts₁) (second : parseParts s₂ = .ok parts₂) :
    parseParts (s₁ ++ s₂) = .ok (Part.compact (parts₁ ++ parts₂)) := by
  obtain ⟨pieces₁, written₁, sound₁, read₁⟩ := exists_pieces first
  obtain ⟨pieces₂, written₂, sound₂, read₂⟩ := exists_pieces second
  have sound : ∀ p ∈ pieces₁ ++ pieces₂, p.Sound := fun p member =>
    (List.mem_append.mp member).elim (sound₁ p) (sound₂ p)
  rw [written₁, written₂, ← Piece.writeAll_append, parseParts_writeAll sound, List.mapM_append,
    read₁, read₂]
  rfl

theorem names_compact_append (text : Text) (t₁ t₂ : Template) :
    names ⟨text, Part.compact (t₁.parts ++ t₂.parts)⟩ = t₁.names ++ t₂.names := by
  simp only [names, varspecs, Part.varspecs_compact, List.flatMap_append, List.map_append]

/-- Two templates make one. It has the variables of both in order, and under all values it expands
to what the first and then the second expands to, or fails as the first of them that fails. The
same holds of partial expansion. -/
theorem parse_append {s₁ s₂ : Text} {t₁ t₂ : Template} (first : parse s₁ = .ok t₁)
    (second : parse s₂ = .ok t₂) :
    ∃ t, parse (s₁ ++ s₂) = .ok t ∧ t.names = t₁.names ++ t₂.names ∧ ∀ env,
      t.expand env = (do
        let start ← t₁.expand env
        let more ← t₂.expand env
        pure (start ++ more)) ∧
      t.partialExpand env = (do
        let start ← t₁.partialExpand env
        let more ← t₂.partialExpand env
        pure (start ++ more)) := by
  have parts := parseParts_append (parse_ok first).2 (parse_ok second).2
  refine ⟨_, by rw [parse, parts]; rfl, names_compact_append _ t₁ t₂, fun env => ⟨?_, ?_⟩⟩
  · simp only [expand, Part.expandAll_eq_gather]
    rw [Part.gather_compact fun _ => rfl, Part.gather_append_eq]
  · simp only [partialExpand, Part.partialExpandAll_eq_gather]
    rw [Part.gather_compact fun _ => rfl, Part.gather_append_eq]

theorem parse_append_seam : ∃ t, parse ("\x7b?a:1\x7dx".toList ++ "y\x7bb:2\x7d".toList) = .ok t ∧
    t.names = [['a'], ['b']] ∧
    t.partialExpand (.only ['a'] (.string "12".toList)) = .ok "?a=1xy\x7bb\x7d".toList ∧
    t.expand (fun _ => some (.ok (.assoc []))) = .error (.mapPrefix "a:1".toList) := by
  have first : parse "\x7b?a:1\x7dx".toList = .ok ⟨"\x7b?a:1\x7dx".toList,
      [.expression ⟨.query, [⟨['a'], false, 1⟩]⟩, .literal ['x']]⟩ := rfl
  have second : parse "y\x7bb:2\x7d".toList = .ok ⟨"y\x7bb:2\x7d".toList,
      [.literal ['y'], .expression ⟨.simple, [⟨['b'], false, 2⟩]⟩]⟩ := rfl
  obtain ⟨t, read, names, expanded⟩ := parse_append first second
  exact ⟨t, read, names, (expanded _).2, (expanded _).1⟩

end Rfc6570.Template
