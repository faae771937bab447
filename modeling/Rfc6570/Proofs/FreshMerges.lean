import Rfc6570.Proofs.MergeHistory
/-!
Merging bindings under names that are new. Nothing is there to merge them into, so they are
appended as they are: `mergeAll_of_fresh`.
-/

namespace Rfc6570

namespace Binding

def entry (b : Binding) : RawText × Value :=
  (b.name, b.value)

end Binding

namespace Store

variable {s : Store} {b : Binding}

theorem find?_eq_none {name : RawText} : s.find? name = none ↔ name ∉ s.names :=
  Assoc.find?_eq_none

theorem put_of_fresh (fresh : b.name ∉ s.names) :
    s.put b.name b.value = ⟨s.entries ++ [b.entry]⟩ :=
  congrArg Store.mk (Assoc.put_of_not_mem fresh b.value)

theorem addsKeys_of_fresh (fresh : b.name ∉ s.names) : s.addsKeys b = false := by
  rw [addsKeys, find?_eq_none.mpr fresh]

theorem mergeAll_cons_of_fresh (fresh : b.name ∉ s.names) (rest : List Binding) :
    s.mergeAll (b :: rest) = (Store.mk (s.entries ++ [b.entry])).mergeAll rest := by
  rw [mergeAll_cons_ok (merge_of_none (find?_eq_none.mpr fresh)), put_of_fresh fresh,
    addsKeys_of_fresh fresh]
  rfl

theorem mergeAll_of_fresh {bs : List Binding} (fresh : (s.names ++ bs.map (·.name)).Nodup) :
    s.mergeAll bs = { store := ⟨s.entries ++ bs.map Binding.entry⟩ } := by
  -- The names that were appended move to the left, so the induction is on all stores.
  induction bs generalizing s with
  | nil => rw [mergeAll, List.map_nil, List.append_nil]
  | cons b rest ih =>
    rw [List.map_cons, ← List.singleton_append, ← List.append_assoc] at fresh
    have new : b.name ∉ s.names := by
      intro held
      have apart := (List.nodup_append.mp (List.nodup_append.mp fresh).1).2.2
      exact apart b.name held b.name List.mem_cons_self rfl
    have grown : (Store.mk (s.entries ++ [b.entry])).names = s.names ++ [b.name] :=
      List.map_append
    rw [mergeAll_cons_of_fresh new, ih (by rwa [grown]), List.map_cons, List.append_assoc]
    rfl

theorem mergeAll_empty {bs : List Binding} (distinct : (bs.map (·.name)).Nodup) :
    empty.mergeAll bs = { store := ⟨bs.map Binding.entry⟩ } :=
  mergeAll_of_fresh distinct

end Store
end Rfc6570
