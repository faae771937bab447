import Rfc6570.Proofs.JsonStrings
import Rfc6570.Proofs.Splitting
import Rfc6570.Store.Notation
/-!
Lists as they are printed. A comma ends an item only where it stands outside of quotes, so the items
can be told from what is printed, and two different lists are never printed alike. Main statement:
`itemList_eq_iff`.
-/

namespace Rfc6570

namespace Binding

variable {s t : Text}

def continuation (items : List Text) : Text :=
  items.flatMap fun t => ',' :: itemText t

theorem itemList_cons (t : Text) (items : List Text) :
    itemList ((t :: items).map fun t : Text => .text t) =
      Text.raw (itemText t ++ continuation items) := by
  have printed : ((t :: items).map fun t : Text => Datum.text t).map (fun d => item d.expanded) =
      ((t :: items).map itemText).map Text.raw := by
    rw [List.map_map, List.map_map]
    exact List.map_congr_left fun t _ => item_raw t
  rw [itemList, printed, RawText.join_map_raw, List.map_cons, Text.join_cons, continuation,
    List.flatMap_map]

theorem continuation_eq (items : List Text) :
    continuation items = [] ∨ ∃ more, continuation items = ',' :: more := by
  cases items with
  | nil => exact Or.inl rfl
  | cons t rest => exact Or.inr ⟨_, rfl⟩

theorem not_mem_of_bare (bare : IsBare t) {c : Char} (special : isSpecial (.char c) = true) :
    c ∉ t := by
  intro member
  have plain := bare.2 _ (Text.mem_raw.mpr member)
  rw [special] at plain
  cases plain

theorem cut_bare (bare : IsBare t) (items : List Text) :
    (Text.cut ',' (t ++ continuation items)).1 = t := by
  have absent : ',' ∉ t := not_mem_of_bare bare rfl
  rcases continuation_eq items with nothing | ⟨more, behind⟩
  · rw [nothing, List.append_nil, Text.cut_of_not_mem absent]
  · rw [behind, Text.cut_append absent]

/-- A quote stands in front of a text that is not bare, and in no bare one. -/
theorem bare_append_ne (bare : IsBare s) (before after : Text) :
    s ++ before ≠ Json.quoted t ++ after := by
  obtain ⟨c, rest, rfl⟩ := List.exists_cons_of_ne_nil fun empty => bare.1 (congrArg Text.raw empty)
  intro same
  obtain ⟨rfl, -⟩ := List.cons_eq_cons.mp same
  exact not_mem_of_bare bare rfl List.mem_cons_self

theorem itemText_append_inj {before after : List Text}
    (same : itemText s ++ continuation before = itemText t ++ continuation after) :
    s = t ∧ continuation before = continuation after := by
  unfold itemText at same
  split at same <;> split at same <;> rename_i left right
  · have word : s = t := by
      rw [← cut_bare left before, same, cut_bare right after]
    subst word
    exact ⟨rfl, List.append_cancel_left same⟩
  · exact absurd same (bare_append_ne left _ _)
  · exact absurd same.symm (bare_append_ne right _ _)
  · exact Json.quoted_append_inj same

theorem continuation_inj {xs ys : List Text} (same : continuation xs = continuation ys) : xs = ys := by
  induction xs generalizing ys with
  | nil =>
    cases ys with
    | nil => rfl
    | cons y ys => cases same
  | cons x xs ih =>
    cases ys with
    | nil => cases same
    | cons y ys =>
      obtain ⟨rfl, later⟩ := itemText_append_inj (List.cons_eq_cons.mp same).2
      rw [ih later]

theorem itemList_ne_nil (t : Text) (items : List Text) :
    itemList ((t :: items).map fun t : Text => .text t) ≠ [] := by
  rw [itemList_cons, Text.raw_append, ← item_raw]
  exact List.append_ne_nil_of_left_ne_nil (item_ne_nil t) _

theorem itemList_inj {xs ys : List Text}
    (same : itemList (xs.map fun t : Text => .text t) =
      itemList (ys.map fun t : Text => .text t)) : xs = ys := by
  cases xs with
  | nil =>
    cases ys with
    | nil => rfl
    | cons y ys => exact absurd same.symm (itemList_ne_nil y ys)
  | cons x xs =>
    cases ys with
    | nil => exact absurd same (itemList_ne_nil x xs)
    | cons y ys =>
      rw [itemList_cons, itemList_cons, Text.raw_inj] at same
      obtain ⟨rfl, later⟩ := itemText_append_inj same
      rw [continuation_inj later]

theorem render_list_inj {name : RawText} {xs ys : List Text}
    (same : render ⟨name, .list (xs.map fun t : Text => .text t)⟩ =
      render ⟨name, .list (ys.map fun t : Text => .text t)⟩) : xs = ys := by
  have behind := List.append_cancel_left same
  exact itemList_inj (List.cons_eq_cons.mp behind).2

/-- The other variables of a store are printed in front of a list and behind it. -/
theorem store_render_list_inj {name : RawText} {before after : List (RawText × Value)}
    {xs ys : List Text}
    (same : Store.render ⟨before ++ (name, .list (xs.map fun t : Text => .text t)) :: after⟩ =
      Store.render ⟨before ++ (name, .list (ys.map fun t : Text => .text t)) :: after⟩) :
    xs = ys := by
  obtain ⟨front, back, around⟩ := RawText.exists_join_around ','
    (before.map fun e => Store.renderBinding e.1 e.2) (after.map fun e => Store.renderBinding e.1 e.2)
  simp only [Store.render, List.map_append, List.map_cons, around] at same
  have entry := List.append_cancel_left (List.append_cancel_right same)
  rw [Store.renderBinding, Store.renderBinding] at entry
  have opened := List.append_cancel_left (List.append_cancel_right entry)
  exact itemList_inj (List.cons_eq_cons.mp (List.cons_eq_cons.mp opened).2).2

/-- Lists of texts are printed alike just when they are the same, and so are two bindings of one name
and two stores that differ in the list of one name. -/
theorem itemList_eq_iff (xs ys : List Text) :
    (itemList (xs.map fun t : Text => .text t) = itemList (ys.map fun t : Text => .text t) ↔
      xs = ys) ∧
    (∀ name, render ⟨name, .list (xs.map fun t : Text => .text t)⟩ =
      render ⟨name, .list (ys.map fun t : Text => .text t)⟩ ↔ xs = ys) ∧
    ∀ name before after,
      Store.render ⟨before ++ (name, .list (xs.map fun t : Text => .text t)) :: after⟩ =
        Store.render ⟨before ++ (name, .list (ys.map fun t : Text => .text t)) :: after⟩ ↔
      xs = ys := by
  refine ⟨⟨itemList_inj, ?_⟩, fun name => ⟨render_list_inj, ?_⟩,
    fun name before after => ⟨store_render_list_inj, ?_⟩⟩
  all_goals
    rintro rfl
    rfl

example : itemList (["a,b".toList, []].map fun t : Text => .text t) = "\"a,b\",\"\"".toList := rfl

end Binding
end Rfc6570
