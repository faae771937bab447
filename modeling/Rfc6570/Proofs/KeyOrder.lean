import Rfc6570.Proofs.Splitting
import Rfc6570.Store.Notation
/-!
The order in which a printed map has its entries. The texts `key:item` are sorted, not the keys, so
a key comes behind a longer one that begins with it when the longer one goes on with a character
below the colon. Main statement: `render_entries`, which says when the keys ascend.
-/

namespace Rfc6570

namespace Point

theorem code_inj {p q : Point} (same : p.code = q.code) : p = q := by
  -- No character has the code of a surrogate.
  have apart (c : Char) (n : Fin 0x800) : c.toNat ≠ 0xD800 + n.val := by
    have valid := c.valid
    have bound := n.isLt
    simp only [UInt32.isValidChar, Nat.isValidChar] at valid
    simp only [Char.toNat]
    omega
  cases p with
  | char c =>
    cases q with
    | char d => exact congrArg char (Char.toNat_inj.mp same)
    | surrogate n => exact absurd same (apart c n)
  | surrogate n =>
    cases q with
    | char d => exact absurd same.symm (apart d n)
    | surrogate m => exact congrArg surrogate (Fin.ext (Nat.add_left_cancel same))

end Point

namespace RawText

/-! ### Code point order -/

theorem le_cons_cons {p q : Point} {a b : RawText} :
    le (p :: a) (q :: b) = true ↔ p.code < q.code ∨ p = q ∧ le a b = true := by
  simp [le]

theorem le_trans {a b c : RawText} (first : le a b = true) (second : le b c = true) :
    le a c = true := by
  induction a generalizing b c with
  | nil => rfl
  | cons x a ih =>
    cases b with
    | nil => cases first
    | cons y b =>
      cases c with
      | nil => cases second
      | cons z c =>
        rw [le_cons_cons] at first second ⊢
        rcases first with below | ⟨rfl, first⟩
        · rcases second with above | ⟨rfl, -⟩
          · exact Or.inl (Nat.lt_trans below above)
          · exact Or.inl below
        · exact second.imp_right fun ⟨same, second⟩ => ⟨same, ih first second⟩

theorem le_total (a b : RawText) : (le a b || le b a) = true := by
  induction a generalizing b with
  | nil => rfl
  | cons x a ih =>
    cases b with
    | nil => rfl
    | cons y b =>
      rw [Bool.or_eq_true, le_cons_cons, le_cons_cons]
      rcases Nat.lt_trichotomy x.code y.code with below | same | above
      · exact Or.inl (Or.inl below)
      · have same := Point.code_inj same
        rcases (Bool.or_eq_true _ _).mp (ih b) with below | above
        · exact Or.inl (Or.inr ⟨same, below⟩)
        · exact Or.inr (Or.inr ⟨same.symm, above⟩)
      · exact Or.inr (Or.inl above)

theorem le_antisymm {a b : RawText} (first : le a b = true) (second : le b a = true) : a = b := by
  induction a generalizing b with
  | nil =>
    cases b with
    | nil => rfl
    | cons y b => cases second
  | cons x a ih =>
    cases b with
    | nil => cases first
    | cons y b =>
      rw [le_cons_cons] at first second
      rcases first with below | ⟨rfl, first⟩
      · rcases second with above | ⟨rfl, -⟩
        · exact absurd above (Nat.lt_asymm below)
        · exact absurd below (Nat.lt_irrefl _)
      · rcases second with above | ⟨-, second⟩
        · exact absurd above (Nat.lt_irrefl _)
        · rw [ih first second]

theorem le_append_left (a b : RawText) : le a (a ++ b) = true := by
  induction a with
  | nil => rfl
  | cons x a ih => exact le_cons_cons.mpr (Or.inr ⟨rfl, ih⟩)

theorem le_append_append (front a b : RawText) : le (front ++ a) (front ++ b) = le a b := by
  induction front with
  | nil => rfl
  | cons c rest ih => simp [le, ih]

/-- A string that comes before another one is a front of it, or comes before it whatever follows
both. -/
theorem front_or_before {a b : RawText} (first : le a b = true) :
    (∃ rest, b = a ++ rest) ∨ ∀ s t, le (a ++ s) (b ++ t) = true := by
  induction a generalizing b with
  | nil => exact Or.inl ⟨b, rfl⟩
  | cons c a ih =>
    cases b with
    | nil => cases first
    | cons d b =>
      simp only [le, Bool.or_eq_true, decide_eq_true_eq, Bool.and_eq_true, beq_iff_eq] at first
      rcases first with below | ⟨rfl, first⟩
      · exact Or.inr fun s t => by simp [le, below]
      · rcases ih first with ⟨rest, rfl⟩ | before
        · exact Or.inl ⟨rest, rfl⟩
        · exact Or.inr fun s t => by simp [le, before s t]

/-! ### Sorted strings -/

theorem pairwise_mergeSort_by {α : Type} (key : α → RawText) (xs : List α) :
    (xs.mergeSort fun a b => le (key a) (key b)).Pairwise fun a b => le (key a) (key b) = true := by
  refine List.pairwise_mergeSort ?_ (fun a b => le_total (key a) (key b)) xs
  exact fun a b c first second => le_trans first second

theorem pairwise_mergeSort (words : List RawText) :
    (words.mergeSort le).Pairwise fun a b => le a b = true :=
  pairwise_mergeSort_by id words

/-- Sorting gives the one arrangement that ascends. -/
theorem mergeSort_eq_iff {words arranged : List RawText} :
    words.mergeSort le = arranged ↔
      arranged.Perm words ∧ arranged.Pairwise fun a b => le a b = true := by
  constructor
  · rintro rfl
    exact ⟨List.mergeSort_perm words le, pairwise_mergeSort words⟩
  · rintro ⟨perm, sorted⟩
    exact List.Perm.eq_of_pairwise (fun a b _ _ => le_antisymm) (pairwise_mergeSort words) sorted
      ((List.mergeSort_perm words le).trans perm.symm)

end RawText

namespace Store

theorem render_single (name : RawText) (value : Value) :
    render ⟨[(name, value)]⟩ = renderBinding name value :=
  RawText.join_singleton ',' _

/-! ### Entries -/

/-- Where the key of `b` goes on behind the whole key of `a`, it goes on with a code point above the
colon, or with a colon and a text that the item of `a` does not come behind. -/
def Leads (a b : RawText × Datum) : Prop :=
  ∀ p rest, b.1 = a.1 ++ p :: rest → (Point.char ':').code < p.code ∨
    p = .char ':' ∧ RawText.le (Binding.item a.2.expanded)
      (rest ++ Point.char ':' :: Binding.item b.2.expanded) = true

theorem le_renderEntry_of_front {a b : RawText × Datum} {p : Point} {rest : RawText}
    (front : b.1 = a.1 ++ p :: rest) :
    RawText.le (renderEntry a) (renderEntry b) = true ↔
      (Point.char ':').code < p.code ∨
        p = .char ':' ∧ RawText.le (Binding.item a.2.expanded)
          (rest ++ Point.char ':' :: Binding.item b.2.expanded) = true := by
  rw [renderEntry, renderEntry, front, List.append_assoc, RawText.le_append_append,
    List.cons_append, RawText.le, Bool.or_eq_true, decide_eq_true_eq, Bool.and_eq_true, beq_iff_eq,
    eq_comm (a := Point.char ':')]

/-- Of two entries the one with the first key is written first exactly when it leads. -/
theorem le_renderEntry_iff {a b : RawText × Datum} (first : RawText.le a.1 b.1 = true)
    (different : a.1 ≠ b.1) : RawText.le (renderEntry a) (renderEntry b) = true ↔ Leads a b := by
  constructor
  · intro written c rest front
    exact (le_renderEntry_of_front front).mp written
  · intro leads
    rcases RawText.front_or_before first with ⟨rest, front⟩ | before
    · cases rest with
      | nil => exact absurd (front.trans (List.append_nil _)).symm different
      | cons c rest => exact (le_renderEntry_of_front front).mpr (leads c rest front)
    · exact before _ _

def byKey (entries : List (RawText × Datum)) : List (RawText × Datum) :=
  entries.mergeSort fun a b => RawText.le a.1 b.1

variable {entries : List (RawText × Datum)}

theorem byKey_perm (entries : List (RawText × Datum)) : (byKey entries).Perm entries :=
  List.mergeSort_perm entries _

theorem pairwise_byKey (distinct : (Assoc.keys entries).Nodup) :
    (byKey entries).Pairwise fun a b => RawText.le a.1 b.1 = true ∧ a.1 ≠ b.1 := by
  have ascending := RawText.pairwise_mergeSort_by Prod.fst entries
  have apart : (byKey entries).Pairwise fun a b => a.1 ≠ b.1 :=
    List.pairwise_map.mp (((byKey_perm entries).map Prod.fst).nodup_iff.mpr distinct)
  exact ascending.and apart

/-- The texts of entries are sorted in the order of the keys exactly when each entry leads those
whose keys go on behind its own. -/
theorem mergeSort_eq_byKey_iff (distinct : (Assoc.keys entries).Nodup) :
    (entries.map renderEntry).mergeSort RawText.le = (byKey entries).map renderEntry ↔
      ∀ a ∈ entries, ∀ b ∈ entries, Leads a b := by
  have ordered := pairwise_byKey distinct
  rw [RawText.mergeSort_eq_iff, List.pairwise_map]
  constructor
  · rintro ⟨-, sorted⟩ a memberA b memberB
    -- An entry whose key goes on behind the key of another one does not stand before it.
    have forward : (byKey entries).Pairwise Leads :=
      (ordered.and sorted).imp fun ⟨⟨first, different⟩, written⟩ =>
        (le_renderEntry_iff first different).mp written
    have backward : (byKey entries).Pairwise (flip Leads) := by
      refine ordered.imp fun ⟨first, different⟩ c rest front => absurd ?_ different
      exact RawText.le_antisymm first (front ▸ RawText.le_append_left _ _)
    have self : ∀ e ∈ byKey entries, Leads e e := by
      intro e _ c rest front
      have length := congrArg List.length front
      simp at length
    exact List.Pairwise.forall_of_forall_of_flip self forward backward
      ((byKey_perm entries).mem_iff.mpr memberA) ((byKey_perm entries).mem_iff.mpr memberB)
  · intro leads
    refine ⟨(byKey_perm entries).map renderEntry, ordered.imp_of_mem ?_⟩
    intro a b memberA memberB ⟨first, different⟩
    exact (le_renderEntry_iff first different).mpr
      (leads a ((byKey_perm entries).mem_iff.mp memberA) b ((byKey_perm entries).mem_iff.mp memberB))

/-- A map is printed with the texts of its entries in ascending order. -/
theorem renderBinding_assoc (name : RawText) {words : List RawText}
    (perm : words.Perm (entries.map renderEntry))
    (sorted : words.Pairwise fun a b => RawText.le a b = true) :
    renderBinding name (.assoc entries) =
      name ++ Point.char '=' :: Point.char '\x7b' :: RawText.join ',' words ++
        [Point.char '\x7d'] := by
  rw [renderBinding, RawText.mergeSort_eq_iff.mpr ⟨perm, sorted⟩]

theorem renderBinding_assoc_congr (name : RawText) {others : List (RawText × Datum)}
    (perm : others.Perm entries) :
    renderBinding name (.assoc others) = renderBinding name (.assoc entries) :=
  renderBinding_assoc name
    ((List.mergeSort_perm _ RawText.le).trans (perm.symm.map renderEntry))
    (RawText.pairwise_mergeSort _)

/-- A printed map has the texts of its entries in ascending order, in whichever order the entries
came into it. Their keys ascend too exactly when each entry leads those whose keys go on behind its
own key. -/
theorem render_entries {s : Store} {before after : List (RawText × Value)} {name : RawText}
    (held : s.entries = before ++ (name, .assoc entries) :: after)
    (distinct : (Assoc.keys entries).Nodup) :
    ∃ words, s.render =
        RawText.join ',' (before.map (fun e => renderBinding e.1 e.2) ++
          (name ++ Point.char '=' :: Point.char '\x7b' :: RawText.join ',' words
            ++ [Point.char '\x7d']) ::
            after.map fun e => renderBinding e.1 e.2) ∧
      words.Perm (entries.map renderEntry) ∧
      words.Pairwise (fun a b => RawText.le a b = true) ∧
      (words = (byKey entries).map renderEntry ↔ ∀ a ∈ entries, ∀ b ∈ entries, Leads a b) ∧
      ∀ others, others.Perm entries →
        renderBinding name (.assoc others) = renderBinding name (.assoc entries) := by
  refine ⟨(entries.map renderEntry).mergeSort RawText.le, ?_, List.mergeSort_perm _ _,
    RawText.pairwise_mergeSort _, mergeSort_eq_byKey_iff distinct,
    fun others => renderBinding_assoc_congr name⟩
  rw [render, held, List.map_append, List.map_cons]
  rfl

/-- A key that begins two others, with a colon and with a letter behind it. -/
theorem render_entries_fronts : ∃ (s : Store) (entries : List (RawText × Datum))
    (words : List RawText),
    s.entries = ([("id".toList, .string "id".toList), ("m".toList, .assoc entries)] :
      List (RawText × Value)) ∧
    s.render = RawText.join ',' ["id".toList, Text.raw "m=\x7b".toList ++ RawText.join ',' words
      ++ [Point.char '\x7d']] ∧
    words = ["a:\"\"".toList, "a::2".toList, "ab:1".toList].map Text.raw ∧
    words = (byKey entries).map renderEntry := by
  let entries : List (RawText × Datum) :=
    [("ab".toList, .text "1".toList), ("a:".toList, .text "2".toList), ("a".toList, .text [])]
  let s : Store := ⟨[("id".toList, .string "id".toList), ("m".toList, .assoc entries)]⟩
  have distinct : (Assoc.keys entries).Nodup := by decide
  have held : s.entries = [(Text.raw "id".toList, .string "id".toList)]
      ++ (Text.raw "m".toList, .assoc entries) :: [] := rfl
  obtain ⟨words, printed, perm, sorted, ascending, -⟩ := render_entries held distinct
  have leads : ∀ a ∈ entries, ∀ b ∈ entries, Leads a b := by
    simp [entries, Leads]
    decide
  have arranged : (["a:\"\"".toList, "a::2".toList, "ab:1".toList].map Text.raw).Perm
      (entries.map renderEntry) :=
    List.reverse_perm (entries.map renderEntry)
  have same := (RawText.mergeSort_eq_iff.mpr ⟨perm, sorted⟩).symm.trans
    (RawText.mergeSort_eq_iff.mpr ⟨arranged, by decide⟩)
  exact ⟨s, entries, words, rfl, printed, same, ascending.mpr leads⟩

/-- A digit is below the colon, so the entry with the longer key is written first. -/
theorem render_entries_digit :
    render ⟨[("m".toList, Value.assoc [("a".toList, .text "x".toList),
      ("a1".toList, .text "y".toList)])]⟩ =
      Text.raw "m=\x7ba1:y,a:x\x7d".toList ∧
    RawText.le "a".toList "a1".toList = true ∧ RawText.le "a1".toList "a".toList = false := by
  let entries : List (RawText × Datum) :=
    [("a".toList, .text "x".toList), ("a1".toList, .text "y".toList)]
  have perm : (["a1:y".toList, "a:x".toList].map Text.raw).Perm (entries.map renderEntry) :=
    .swap _ _ _
  have sorted : (["a1:y".toList, "a:x".toList].map Text.raw).Pairwise
      fun a b => RawText.le a b = true := by decide
  exact ⟨(render_single _ _).trans (renderBinding_assoc "m".toList perm sorted), rfl, rfl⟩

end Store
end Rfc6570
