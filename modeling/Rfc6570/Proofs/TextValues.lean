import Rfc6570.Proofs.AssocWrites
import Rfc6570.Value
/-!
Values whose items are strings. Lists of strings are equal when the strings are, in order, and maps
when they have the same items under the same keys, in whichever order.
-/

namespace Rfc6570.Value

theorem string_beq (s t : RawText) : (string s == string t) = (s == t) := rfl

theorem sameItems_texts (ss ts : List RawText) :
    Datum.sameItems (ss.map .text) (ts.map .text) = (ss == ts) := by
  induction ss generalizing ts with
  | nil => cases ts <;> rfl
  | cons s rest ih =>
    cases ts with
    | nil => rfl
    | cons t more => exact congrArg ((s == t) && ·) (ih more)

theorem list_beq (ss ts : List RawText) :
    (list (ss.map .text) == list (ts.map .text)) = (ss == ts) :=
  sameItems_texts ss ts

def textEntries (pairs : List (RawText × RawText)) : List (RawText × Datum) :=
  pairs.map fun p => (p.1, .text p.2)

theorem keys_textEntries (pairs : List (RawText × RawText)) :
    Assoc.keys (textEntries pairs) = Assoc.keys pairs :=
  List.map_map

theorem length_textEntries (pairs : List (RawText × RawText)) :
    (textEntries pairs).length = pairs.length :=
  List.length_map _

theorem sameNamed_texts (ps qs : List (RawText × RawText)) :
    Datum.sameNamed (textEntries ps) (textEntries qs) =
      ps.all fun p => Assoc.find? p.1 qs == some p.2 := by
  induction ps with
  | nil => rfl
  | cons p rest ih =>
    have found : (textEntries qs).find? (fun e => p.1 == e.1) =
        (qs.find? fun q => q.1 == p.1).map fun q => (q.1, .text q.2) := by
      rw [textEntries, List.find?_map]
      simp only [Function.comp_def, BEq.comm (a := p.1)]
    rw [List.all_cons, ← ih, textEntries, List.map_cons, Datum.sameNamed, found, Assoc.find?]
    cases qs.find? fun q => q.1 == p.1 with
    | none => rfl
    | some q => exact congrArg (· && _) (BEq.comm (a := p.2))

theorem assoc_beq (ps qs : List (RawText × RawText)) :
    (assoc (textEntries ps) == assoc (textEntries qs)) =
      (ps.length == qs.length && ps.all fun p => Assoc.find? p.1 qs == some p.2) := by
  rw [← sameNamed_texts, ← length_textEntries ps, ← length_textEntries qs]
  rfl

theorem assoc_beq_of_perm {ps qs : List (RawText × RawText)} (distinct : (Assoc.keys qs).Nodup)
    (perm : ps.Perm qs) : (assoc (textEntries ps) == assoc (textEntries qs)) = true := by
  rw [assoc_beq, Bool.and_eq_true, beq_iff_eq, List.all_eq_true]
  refine ⟨perm.length_eq, fun p member => ?_⟩
  rw [Assoc.find?_of_mem distinct (perm.mem_iff.mp member)]
  exact beq_self_eq_true _

end Rfc6570.Value
