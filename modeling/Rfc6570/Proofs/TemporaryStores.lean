import Rfc6570.Proofs.StoreCalls
import Rfc6570.Proofs.StoreEnvironments
/-!
Calls on a store of their own. What a text writes gives each name once, so that an empty store
takes it as it is and hands it on: `Call.run_written`.
-/

namespace Rfc6570.Store

theorem bindings_entries (bs : List Binding) :
    Store.bindings ⟨bs.map Binding.entry⟩ = bs := by
  rw [bindings, List.map_map]
  exact List.map_id bs

/-! ### What texts write -/

theorem keys_assignmentOf {named : List (RawText × Datum)} :
    Assoc.keys (assignmentOf (named.map fun e => (.text e.1, e.2))) = Assoc.keys named := by
  rw [assignmentOf, Assoc.keys, Assoc.keys, List.map_map, List.map_map]
  rfl

theorem nodup_keys_of_readJson {t : Text} {a : Assignment} (read : readJson t = .ok a) :
    (Assoc.keys a).Nodup := by
  unfold readJson at read
  split at read
  · cases read
  · rename_i entries parsed
    cases read
    obtain ⟨named, rfl, distinct⟩ := Json.hasDistinctKeys_of_parse parsed
    rwa [keys_assignmentOf]
  · cases read

theorem isOverlong_of_isJson {d : Datum} (json : d.IsJson) :
    (Supply.datum d).isOverlong = false := by
  cases json with
  | int short => exact short
  | map each =>
    rw [Supply.isOverlong, List.any_map]
    exact List.any_eq_false.mpr fun e _ => Bool.false_ne_true
  | _ => rfl

theorem short_of_readJson {t : Text} {a : Assignment} (read : readJson t = .ok a) :
    ∀ e ∈ a, e.2.isOverlong = false := by
  intro e written
  obtain ⟨d, json, same⟩ := isJson_of_readJson read e written
  rw [same]
  exact isOverlong_of_isJson json

namespace Call

/-- The calls that take a text. -/
def IsWritten : Call → Prop
  | .set _ | .load _ => True
  | .add _ | .update _ => False

/-- A text is read as a whole, and gives each name once, or not at all. -/
theorem merges_of_isWritten {c : Call} (written : c.IsWritten) :
    (∃ f, c.merges = ([], some f)) ∨
      ∃ bs : List Binding, c.merges = (bs, none) ∧ (bs.map (·.name)).Nodup := by
  cases c with
  | add given => exact written.elim
  | update a => exact written.elim
  | set arg =>
    rw [merges]
    cases readBinding arg with
    | error f => exact Or.inl ⟨f, rfl⟩
    | ok b => exact Or.inr ⟨[b], rfl, List.pairwise_singleton _ _⟩
  | load t =>
    rw [merges]
    cases read : readJson t with
    | error f => exact Or.inl ⟨f, rfl⟩
    | ok a =>
      have whole : (bindingsOf a).2 = none := by rw [bindingsOf_of_short (short_of_readJson read)]
      exact Or.inr ⟨_, Prod.ext rfl whole,
        (nodup_keys_of_readJson read).sublist (names_bindingsOf a)⟩

/-- A text that cannot be read changes no store. Any other fills an empty store with variables
that come to the same in every store. -/
theorem run_written {c : Call} (written : c.IsWritten) (s : Store) :
    (∃ f, c.run empty = { store := empty, fault? := some f } ∧
      c.run s = { store := s, fault? := some f }) ∨
    ∃ own : Store, c.run empty = { store := own } ∧ c.run s = s.mergeAll own.bindings := by
  rw [c.run_eq, c.run_eq]
  rcases merges_of_isWritten written with ⟨f, read⟩ | ⟨bs, read, distinct⟩
  · rw [read]
    exact Or.inl ⟨f, rfl, rfl⟩
  · have filled := mergeAll_empty distinct
    refine Or.inr ⟨⟨bs.map Binding.entry⟩, ?_, ?_⟩
    · rw [read, mergeBefore_eq, Outcome.andThen_store, filled]
    · rw [read, mergeBefore_eq, Outcome.andThen_store, bindings_entries]

end Call
end Rfc6570.Store
