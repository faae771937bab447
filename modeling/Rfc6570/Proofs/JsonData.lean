import Mathlib.Data.List.TakeDrop
import Rfc6570.Json.Reader
import Rfc6570.Proofs.AssocWrites
import Rfc6570.Proofs.Numerals
import Rfc6570.Proofs.Outcome
/-!
What reading JSON can yield. Main statements: `isJson_of_parse`, the data that a text writes are
constants, numbers and texts, and lists and maps of such; `hasDistinctKeys_of_parse`, an object has
each of its names once.
-/

namespace Rfc6570

/-- Data that JSON can write. Its integers are no longer than is written. -/
inductive Datum.IsJson : Datum → Prop
  | null : IsJson .null
  | bool (b : Bool) : IsJson (.bool b)
  | int {n : Int} (short : Text.isOverlong n = false) : IsJson (.int n)
  | float (x : Binary64) : IsJson (.float x)
  | text (t : RawText) : IsJson (.text t)
  | list {items : List Datum} (each : ∀ d ∈ items, IsJson d) : IsJson (.list items)
  | map {entries : List (RawText × Datum)} (each : ∀ e ∈ entries, IsJson e.2) :
    IsJson (.map (entries.map fun e => (.text e.1, e.2)))

/-- The names of a map are texts, each once. Of other data this says nothing. -/
def Datum.HasDistinctKeys : Datum → Prop
  | .map entries => ∃ named : List (RawText × Datum),
    entries = named.map (fun e => (.text e.1, e.2)) ∧ (Assoc.keys named).Nodup
  | _ => True

namespace Json

theorem digit_of_mem_readWhole {t : Text} :
    ∀ c ∈ (readWhole t).1, Characters.digit.contains c = true := by
  intro c member
  unfold readWhole at member
  split at member
  · rw [List.mem_singleton.mp member]
    decide
  · rw [Text.spanDigits, List.span_eq_takeWhile_dropWhile] at member
    exact Characters.digit_of_isDigit (List.all_eq_true.mp List.all_takeWhile c member)

/-- An integer that is read has no more digits than are written. -/
theorem isOverlong_readWhole {t : Text} (filled : (readWhole t).1 ≠ [])
    (short : (readWhole t).1.length ≤ Text.maxDigits) (negative : Bool) :
    Text.isOverlong (if negative then -(Nat.ofDigitChars 10 (readWhole t).1 0 : Int)
      else Nat.ofDigitChars 10 (readWhole t).1 0) = false := by
  have bound := Text.length_decimal_ofDigitChars_le digit_of_mem_readWhole filled
  have fits := Nat.not_lt.mpr (Nat.le_trans bound short)
  cases negative with
  | true => exact decide_eq_false (by rwa [if_pos rfl, Int.natAbs_neg, Int.natAbs_natCast])
  | false => exact decide_eq_false fits

theorem readNumber_ok {t rest : Text} {d : Datum} (read : readNumber t = .ok (d, rest)) :
    (∃ n, d = .int n ∧ Text.isOverlong n = false) ∨ ∃ x, d = .float x := by
  unfold readNumber at read
  split at read
  rename_i negative body _
  dsimp only at read
  split at read
  · cases read
  · rename_i filled
    split at read
    · rename_i whole _
      split at read
      · cases read
      · rename_i short
        cases read
        rw [whole, List.append_nil]
        have written := isOverlong_readWhole (by simpa using filled) (Nat.not_lt.mp short) negative
        exact Or.inl ⟨_, rfl, written⟩
    · cases read
      exact Or.inr ⟨_, rfl⟩

theorem readScalar_ok {t rest : Text} {d : Datum} (read : readScalar t = .ok (d, rest)) :
    d = .null ∨ (∃ b, d = .bool b) ∨ (∃ n, d = .int n ∧ Text.isOverlong n = false) ∨
      ∃ x, d = .float x := by
  unfold readScalar at read
  split at read
  · rename_i word constant found
    cases read
    have listed := List.mem_of_find?_eq_some found
    simp only [constants, List.mem_cons, List.not_mem_nil, or_false, Prod.mk.injEq] at listed
    rcases listed with ⟨-, rfl⟩ | ⟨-, rfl⟩ | ⟨-, rfl⟩ | ⟨-, rfl⟩ | ⟨-, rfl⟩ | ⟨-, rfl⟩
    all_goals simp
  · exact Or.inr (Or.inr (readNumber_ok read))

theorem isJson_of_readScalar {t rest : Text} {d : Datum} (read : readScalar t = .ok (d, rest)) :
    d.IsJson := by
  rcases readScalar_ok read with rfl | ⟨b, rfl⟩ | ⟨n, rfl, short⟩ | ⟨x, rfl⟩
  · exact .null
  · exact .bool b
  · exact .int short
  · exact .float x

/-- What the three readers yield with a given bound on their steps. -/
structure YieldsJson (fuel : Nat) : Prop where
  value : ∀ t d rest, readValue fuel t = .ok (d, rest) → d.IsJson
  items : ∀ read t d rest, (∀ x ∈ read, x.IsJson) → readItems fuel read t = .ok (d, rest) → d.IsJson
  members : ∀ read t d rest, (∀ e ∈ read, e.2.IsJson) →
    readMembers fuel read t = .ok (d, rest) → d.IsJson

theorem value_yieldsJson {fuel : Nat} (less : YieldsJson fuel) {t rest : Text} {d : Datum}
    (read : readValue (fuel + 1) t = .ok (d, rest)) : d.IsJson := by
  unfold readValue at read
  split at read
  · obtain ⟨⟨s, after⟩, quoted, read⟩ := bind_ok read
    cases read
    exact .text s
  · split at read
    · cases read
      exact .map (List.forall_mem_nil _)
    · exact less.members _ _ _ _ (by simp) read
  · split at read
    · cases read
      exact .list (by simp)
    · exact less.items _ _ _ _ (by simp) read
  · exact isJson_of_readScalar read

theorem items_yieldsJson {fuel : Nat} (less : YieldsJson fuel) {read : List Datum} {t rest : Text}
    {d : Datum} (each : ∀ x ∈ read, x.IsJson) (reading : readItems (fuel + 1) read t = .ok (d, rest)) :
    d.IsJson := by
  unfold readItems at reading
  obtain ⟨⟨item, after⟩, first, reading⟩ := bind_ok reading
  have grown : ∀ x ∈ item :: read, x.IsJson :=
    List.forall_mem_cons.mpr ⟨less.value _ _ _ first, each⟩
  simp only at reading
  split at reading
  · cases reading
    exact .list fun x member => grown x (List.mem_reverse.mp member)
  · exact less.items _ _ _ _ grown reading
  · cases reading

theorem members_yieldsJson {fuel : Nat} (less : YieldsJson fuel) {read : List (RawText × Datum)}
    {t rest : Text} {d : Datum} (each : ∀ e ∈ read, e.2.IsJson)
    (reading : readMembers (fuel + 1) read t = .ok (d, rest)) : d.IsJson := by
  unfold readMembers at reading
  split at reading
  · obtain ⟨⟨key, after⟩, quoted, reading⟩ := bind_ok reading
    simp only at reading
    split at reading
    · obtain ⟨⟨item, after⟩, first, reading⟩ := bind_ok reading
      have grown := Assoc.forall_put key each (less.value _ _ _ first)
      simp only at reading
      split at reading
      · cases reading
        exact .map grown
      · exact less.members _ _ _ _ grown reading
      · cases reading
    · cases reading
  · cases reading

/-- The three readers call each other with less fuel, so the induction is on the fuel of all
three. -/
theorem yieldsJson (fuel : Nat) : YieldsJson fuel := by
  induction fuel with
  | zero =>
    refine ⟨?_, ?_, ?_⟩
    · intro t d rest read
      cases read
    · intro read t d rest _ reading
      cases reading
    · intro read t d rest _ reading
      cases reading
  | succ fuel less =>
    refine ⟨?_, ?_, ?_⟩
    · intro t d rest
      exact value_yieldsJson less
    · intro read t d rest
      exact items_yieldsJson less
    · intro read t d rest
      exact members_yieldsJson less

/-- What a text writes is what the reader of values yields somewhere in it. -/
theorem readValue_of_parse {t : Text} {d : Datum} (read : parse t = .ok d) :
    ∃ fuel u rest, readValue fuel u = .ok (d, rest) := by
  unfold parse at read
  cases document : readDocument t with
  | error s =>
    rw [document] at read
    cases read
  | ok d' =>
    rw [document] at read
    cases read
    unfold readDocument at document
    split at document
    · cases document
    · obtain ⟨⟨d', after⟩, first, document⟩ := bind_ok document
      simp only at document
      split at document
      · cases document
        exact ⟨_, _, _, first⟩
      · cases document

theorem isJson_of_parse {t : Text} {d : Datum} (read : parse t = .ok d) : d.IsJson := by
  obtain ⟨fuel, u, rest, first⟩ := readValue_of_parse read
  exact (yieldsJson fuel).value u d rest first

/-! ### Keys -/

theorem hasDistinctKeys_of_readScalar {t rest : Text} {d : Datum}
    (read : readScalar t = .ok (d, rest)) : d.HasDistinctKeys := by
  rcases readScalar_ok read with rfl | ⟨b, rfl⟩ | ⟨n, rfl, short⟩ | ⟨x, rfl⟩
  all_goals trivial

theorem hasDistinctKeys_of_readItems {fuel : Nat} {read : List Datum} {t rest : Text} {d : Datum}
    (reading : readItems fuel read t = .ok (d, rest)) : d.HasDistinctKeys := by
  induction fuel generalizing read t with
  | zero => cases reading
  | succ fuel ih =>
    unfold readItems at reading
    obtain ⟨⟨item, after⟩, first, reading⟩ := bind_ok reading
    simp only at reading
    split at reading
    · cases reading
      trivial
    · exact ih reading
    · cases reading

theorem hasDistinctKeys_of_readMembers {fuel : Nat} {read : List (RawText × Datum)} {t rest : Text}
    {d : Datum} (distinct : (Assoc.keys read).Nodup)
    (reading : readMembers fuel read t = .ok (d, rest)) : d.HasDistinctKeys := by
  induction fuel generalizing read t with
  | zero => cases reading
  | succ fuel ih =>
    unfold readMembers at reading
    split at reading
    · obtain ⟨⟨key, after⟩, quoted, reading⟩ := bind_ok reading
      simp only at reading
      split at reading
      · obtain ⟨⟨item, after⟩, first, reading⟩ := bind_ok reading
        have grown := Assoc.nodup_keys_put distinct key item
        simp only at reading
        split at reading
        · cases reading
          exact ⟨_, rfl, grown⟩
        · exact ih grown reading
        · cases reading
      · cases reading
    · cases reading

theorem hasDistinctKeys_of_parse {t : Text} {d : Datum} (read : parse t = .ok d) :
    d.HasDistinctKeys := by
  obtain ⟨fuel, u, rest, first⟩ := readValue_of_parse read
  cases fuel with
  | zero => cases first
  | succ fuel =>
    have none : (Assoc.keys ([] : List (RawText × Datum))).Nodup := List.nodup_nil
    unfold readValue at first
    split at first
    · obtain ⟨⟨s, after⟩, quoted, first⟩ := bind_ok first
      cases first
      trivial
    · split at first
      · cases first
        exact ⟨[], rfl, none⟩
      · exact hasDistinctKeys_of_readMembers none first
    · split at first
      · cases first
        trivial
      · exact hasDistinctKeys_of_readItems first
    · exact hasDistinctKeys_of_readScalar first

end Json
end Rfc6570
