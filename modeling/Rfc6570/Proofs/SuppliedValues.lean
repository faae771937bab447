import Mathlib.Data.List.TakeWhile
import Rfc6570.Proofs.Outcome
import Rfc6570.Store
/-!
What is supplied for a variable becomes a value, unless an overlong integer has to be written for
it: `ofSupply_eq`. The entries of an assignment become bindings up to the first that becomes no
value: `bindingsOf_eq`.
-/

namespace Rfc6570

namespace Supply

/-- An overlong integer that has to be written before there is a value: one that becomes a string,
or one in a key of a map. -/
def isOverlong : Supply → Bool
  | .datum (.int n) => Text.isOverlong n
  | .datum (.map entries) => entries.any fun e => e.1.isOverlong
  | .datum _ => false
  | .proxy target => target.isOverlong

/-- The value that something supplied becomes, with every integer written. -/
def value : Supply → Value
  | .datum (.text t) | .datum (.stringValue t) => .string t
  | .datum (.list items) | .datum (.tuple items) | .datum (.listValue items) => .list items
  | .datum (.map entries) => .assoc (Assoc.ofList (entries.map fun e => (e.1.toText, e.2)))
  | .datum (.assocValue entries) => .assoc entries
  | .datum (.blankValue mark) => .blank mark
  | .datum d => .string d.expanded
  | .proxy target => target.value

theorem ofEntries_eq (entries : List (Datum × Datum)) :
    Value.ofEntries entries = if entries.any fun e => e.1.isOverlong then .error .digits
      else .ok (.assoc (Assoc.ofList (entries.map fun e => (e.1.toText, e.2)))) := by
  have named : entries.mapM Value.namedEntry =
      if entries.any fun e => e.1.isOverlong then .error .digits
        else .ok (entries.map fun e => (e.1.toText, e.2)) := by
    induction entries with
    | nil => rfl
    | cons e rest ih =>
      rw [List.mapM_cons, ih, Value.namedEntry, Datum.asKey, List.any_cons]
      cases e.1.isOverlong with
      | true => rfl
      | false => cases rest.any fun e => e.1.isOverlong <;> rfl
  rw [Value.ofEntries, named]
  cases entries.any fun e => e.1.isOverlong <;> rfl

theorem ofDatum_of_stringify {d : Datum}
    (made : Value.ofDatum d = d.stringify >>= fun t => pure (.string t)) :
    Value.ofDatum d = if d.isOverlong then .error .digits else .ok (.string d.expanded) := by
  rw [made, Datum.stringify]
  cases d.isOverlong <;> rfl

theorem ofSupply_eq (s : Supply) :
    Value.ofSupply s = if s.isOverlong then .error .digits else .ok s.value := by
  induction s with
  | proxy target ih => exact ih
  | datum d =>
    cases d with
    | int n => exact ofDatum_of_stringify rfl
    | map entries => exact ofEntries_eq entries
    | null | bool _ | float _ | bytes _ | buffer _ => exact ofDatum_of_stringify rfl
    | _ => rfl

theorem isOverlong_of_isNull {s : Supply} (null : s.isNull = true) : s.isOverlong = false := by
  match s with
  | .datum .null => rfl

end Supply

namespace Store

def bindingOf (e : RawText × Supply) : Binding :=
  ⟨e.1, e.2.value⟩

theorem ofSupply_eq_bindingOf (e : RawText × Supply) :
    Binding.ofSupply e.1 e.2 = if e.2.isOverlong then .error .digits else .ok (bindingOf e) := by
  rw [Binding.ofSupply, e.2.ofSupply_eq]
  split <;> rfl

/-- The entries of an assignment are bound up to the first that becomes no value. -/
theorem bindingsOf_eq (a : Assignment) : bindingsOf a =
    (((a.takeWhile fun e => !e.2.isOverlong).filter fun e => !e.2.isNull).map bindingOf,
      if a.any fun e => e.2.isOverlong then some .digits else none) := by
  induction a with
  | nil => rfl
  | cons e rest ih =>
    obtain ⟨name, s⟩ := e
    rw [bindingsOf, ofSupply_eq_bindingOf (name, s), ih, List.any_cons]
    cases null : s.isNull with
    | true =>
      have short := Supply.isOverlong_of_isNull null
      rw [List.takeWhile_cons_of_pos (by simpa using short), short, Bool.false_or,
        List.filter_cons_of_neg (by simpa using null)]
      rfl
    | false =>
      cases overlong : s.isOverlong with
      | true =>
        rw [List.takeWhile_cons_of_neg (by simpa using overlong), Bool.true_or]
        rfl
      | false =>
        rw [List.takeWhile_cons_of_pos (by simpa using overlong), Bool.false_or,
          List.filter_cons_of_pos (by simpa using null)]
        rfl

theorem bindingsOf_of_short {a : Assignment} (short : ∀ e ∈ a, e.2.isOverlong = false) :
    bindingsOf a = ((a.filter fun e => !e.2.isNull).map bindingOf, none) := by
  have whole : (a.takeWhile fun e => !e.2.isOverlong) = a :=
    List.takeWhile_eq_self_iff.mpr (by simpa using short)
  rw [bindingsOf_eq, whole, if_neg (by simpa using short)]

end Store
end Rfc6570
