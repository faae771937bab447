import Rfc6570.Proofs.FreshMerges
import Rfc6570.Proofs.Numerals
import Rfc6570.Proofs.SuppliedValues
/-!
Stores and assignments as environments. Main statement: `expand_ofAssignment`, a store made of an
assignment comes about unless something supplied becomes no value, and gives the expansions of the
assignment itself, also with further values above both.
-/

namespace Rfc6570

namespace Assignment

variable {a b : Assignment} {name : Text}

/-- An entry above decides alone, a null one too. -/
theorem environment_overlay (a above : Assignment) (name : Text) :
    (a.overlay above).environment name =
      match Assoc.find? (name : RawText) above.reverse with
      | none => a.environment name
      | some s => if s.isNull then none else some (Value.ofSupply s) := by
  rw [environment, overlay, Assoc.find?_putAll]
  cases Assoc.find? (name : RawText) above.reverse <;> rfl

theorem environment_overlay_congr (same : a.environment = b.environment) (above : Assignment) :
    (a.overlay above).environment = (b.overlay above).environment := by
  funext name
  rw [environment_overlay, environment_overlay, same]

end Assignment

namespace Store

variable {a : Assignment}

theorem environment_assignment (s : Store) : s.assignment.environment = s.environment := by
  funext name
  rw [Assignment.environment, assignment, Assoc.find?_map fun v : Value => Supply.datum v.toDatum,
    environment, find?]
  cases Assoc.find? (name : RawText) s.entries with
  | none => rfl
  | some v =>
    have given : (Supply.datum v.toDatum).isNull = false := by cases v <;> rfl
    rw [Option.map_some, Option.bind_some, given, if_neg Bool.false_ne_true, Value.ofSupply,
      Value.ofDatum_toDatum, Option.map_some]

theorem environmentWith_eq {s : Store} (same : s.environment = a.environment) (above : Assignment) :
    s.environmentWith above = (a.overlay above).environment := by
  rw [environmentWith]
  split
  · rename_i nothing
    rw [List.isEmpty_iff.mp nothing, same]
    rfl
  · exact Assignment.environment_overlay_congr (s.environment_assignment.trans same) above

theorem names_bindingsOf (a : Assignment) :
    ((bindingsOf a).1.map (·.name)).Sublist (Assoc.keys a) := by
  rw [bindingsOf_eq, List.map_map]
  exact (List.filter_sublist.trans (List.takeWhile_sublist _)).map _

/-- The entries that are not null are what the environment of an assignment knows. -/
theorem find?_bindingsOf (distinct : (Assoc.keys a).Nodup) (short : ∀ e ∈ a, e.2.isOverlong = false)
    (name : Text) :
    (Assoc.find? (name : RawText) ((bindingsOf a).1.map Binding.entry)).map .ok =
      a.environment name := by
  rw [bindingsOf_of_short short]
  induction a with
  | nil => rfl
  | cons e rest ih =>
    obtain ⟨absent, distinct⟩ := List.nodup_cons.mp distinct
    obtain ⟨first, short⟩ := List.forall_mem_cons.mp short
    have others := ih distinct short
    have value : Value.ofSupply e.2 = .ok e.2.value := by simp [Supply.ofSupply_eq, first]
    rw [Assignment.environment] at others ⊢
    cases null : e.2.isNull with
    | true =>
      rw [List.filter_cons_of_neg (by simp [null]), others, Assoc.find?_cons]
      by_cases here : e.1 = name
      · -- No later entry can give a value to the name that the null entry has.
        have later : Assoc.find? (name : RawText) rest = none :=
          Assoc.find?_eq_none.mpr (here ▸ absent)
        simp [here, later, null]
      · simp [here]
    | false =>
      rw [List.filter_cons_of_pos (by simp [null]), List.map_cons, List.map_cons, Assoc.find?_cons,
        Assoc.find?_cons]
      by_cases here : e.1 = name
      · simp [here, null, Binding.entry, bindingOf, value]
      · simpa [here, Binding.entry, bindingOf] using others

theorem ofAssignment_eq (distinct : (Assoc.keys a).Nodup) :
    ofAssignment a = if a.any fun e => e.2.isOverlong then .error .digits
      else .ok ⟨(bindingsOf a).1.map Binding.entry⟩ := by
  rw [ofAssignment, update, mergeBefore, mergeAll_empty (distinct.sublist (names_bindingsOf a)),
    bindingsOf_eq]
  cases a.any fun e => e.2.isOverlong <;> rfl

/-- The store of an assignment comes about when all that is supplied becomes a value. It then stands
for the assignment in every expansion, also below further values. -/
theorem expand_ofAssignment (distinct : (Assoc.keys a).Nodup) :
    if a.any fun e => e.2.isOverlong then ofAssignment a = .error .digits
    else ∃ s, ofAssignment a = .ok s ∧ ∀ t : Template,
      (t.expand s.environment = t.expand a.environment ∧
        t.partialExpand s.environment = t.partialExpand a.environment) ∧
      ∀ above : Assignment,
        t.expand (s.environmentWith above) = t.expand (a.overlay above).environment ∧
        t.partialExpand (s.environmentWith above) =
          t.partialExpand (a.overlay above).environment := by
  have made := ofAssignment_eq distinct
  split
  · rename_i overlong
    rwa [if_pos overlong] at made
  · rename_i written
    have short : ∀ e ∈ a, e.2.isOverlong = false := by simpa using written
    have same : Store.environment ⟨(bindingsOf a).1.map Binding.entry⟩ = a.environment := by
      funext name
      exact find?_bindingsOf distinct short name
    rw [if_neg written] at made
    refine ⟨_, made, fun t => ⟨⟨?_, ?_⟩, fun above => ⟨?_, ?_⟩⟩⟩
    · rw [same]
    · rw [same]
    · rw [environmentWith_eq same]
    · rw [environmentWith_eq same]

theorem expand_ofAssignment_null : ∃ (a : Assignment) (s : Store) (t : Template),
    a = ([("a".toList, .datum .null), ("b".toList, .proxy (.datum .null)),
      ("m".toList, .datum (.map [(.int 1, .text "x".toList),
        (.text "1".toList, .text "y".toList)]))] : Assignment) ∧
    ofAssignment a = .ok s ∧ Template.parse "\x7b?a,b,m*\x7d".toList = .ok t ∧
    t.partialExpand s.environment = .ok "?b=None&1=y\x7b&a\x7d".toList ∧
    t.expand (s.environmentWith [("b".toList, .datum .null)]) = .ok "?1=y".toList := by
  have distinct : (Assoc.keys ([("a".toList, .datum .null), ("b".toList, .proxy (.datum .null)),
      ("m".toList, .datum (.map [(.int 1, .text "x".toList),
        (.text "1".toList, .text "y".toList)]))] : Assignment)).Nodup := by
    simp [Assoc.keys]
  have read : Template.parse "\x7b?a,b,m*\x7d".toList = .ok ⟨"\x7b?a,b,m*\x7d".toList,
      [.expression ⟨.query, [⟨['a'], false, 0⟩, ⟨['b'], false, 0⟩, ⟨['m'], true, 0⟩]⟩]⟩ := rfl
  obtain ⟨s, made, agrees⟩ := expand_ofAssignment distinct
  obtain ⟨⟨-, kept⟩, above⟩ := agrees ⟨"\x7b?a,b,m*\x7d".toList, _⟩
  exact ⟨_, s, _, rfl, made, read, kept.trans rfl, (above [("b".toList, .datum .null)]).1.trans rfl⟩

/-- A value that no variable of the template asks for may still keep the store from coming about. -/
theorem ofAssignment_overlong : ∃ (a : Assignment) (t : Template),
    a = ([("a".toList, .datum (.int (Nat.pow 10 Text.maxDigits)))] : Assignment) ∧
    (Assoc.keys a).Nodup ∧
    Template.parse "\x7bb\x7d".toList = .ok t ∧ t.expand a.environment = .ok [] ∧
    ofAssignment a = .error .digits := by
  have distinct (n : Int) : (Assoc.keys ([("a".toList, .datum (.int n))] : Assignment)).Nodup :=
    List.pairwise_singleton _ _
  have refused (n : Int) (overlong : Text.isOverlong n = true) :
      ofAssignment [("a".toList, .datum (.int n))] = .error .digits := by
    rw [ofAssignment_eq (distinct n), if_pos]
    exact (Bool.or_false _).trans overlong
  exact ⟨_, _, rfl, distinct _, rfl, rfl, refused _ (Text.isOverlong_pow (Nat.le_refl _))⟩

end Store
end Rfc6570
