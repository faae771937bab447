import Rfc6570.Proofs.BindingRendering
import Rfc6570.Proofs.ExpansionFaults
import Rfc6570.Proofs.TemporaryStores
/-!
Which faults texts can bring about. What is wrong with a text, and with merging what texts write, is
a fault of the kind for templates. Texts write no overlong integers, so that expansion with a store
that they fill fails as templates do, or at a surrogate: `Store.IsShort.fault_of_expand`.
-/

namespace Rfc6570

def Fault.IsOfTemplate (f : Fault) : Prop :=
  f.kind.lineage.contains .template = true

/-! ### Templates -/

theorem Varspec.isOfTemplate_of_parse {spec : Text} {f : Fault} (failed : parse spec = .error f) :
    f.IsOfTemplate := by
  have checks {name : Text} {explode : Bool} {limit : Nat}
      (refused : checked spec name explode limit = .error f) : f.IsOfTemplate := by
    unfold checked at refused
    split at refused
    · cases refused
      rfl
    · split at refused <;> cases refused
      rfl
  unfold parse at failed
  simp only at failed
  split at failed
  · exact checks failed
  · split at failed
    · cases failed
      rfl
    · exact checks failed
  · cases failed
    rfl

theorem Expression.isOfTemplate_of_parseBody {body : Text} {f : Fault}
    (failed : parseBody body = .error f) : f.IsOfTemplate := by
  rcases bind_error failed with read | ⟨varspecs, -, failed⟩
  · obtain ⟨spec, -, refused⟩ := mem_of_mapM_error read
    exact Varspec.isOfTemplate_of_parse refused
  · cases failed

namespace Template

theorem isOfTemplate_of_parseSegment {text segment : Text} {f : Fault}
    (failed : parseSegment text segment = .error f) : f.IsOfTemplate := by
  unfold parseSegment at failed
  split at failed
  · split at failed
    · cases failed
      rfl
    · rcases bind_error failed with read | ⟨e, -, failed⟩
      · exact Expression.isOfTemplate_of_parseBody read
      · cases failed
  · cases failed
    rfl

theorem isOfTemplate_of_parse {text : Text} {f : Fault} (failed : parse text = .error f) :
    f.IsOfTemplate := by
  rcases bind_error failed with failed | ⟨parts, -, failed⟩
  · unfold parseParts at failed
    split at failed
    · cases failed
    · split at failed
      · cases failed
        rfl
      · rcases bind_error failed with read | ⟨parts, -, failed⟩
        · obtain ⟨segment, -, refused⟩ := mem_of_mapM_error read
          exact isOfTemplate_of_parseSegment refused
        · cases failed
  · cases failed

end Template

/-! ### Bindings -/

namespace Binding

theorem isOfTemplate_of_finish {args rest : List Text} {name : Text} {value : Value} {f : Fault}
    (failed : finish args name value rest = .error f) : f.IsOfTemplate := by
  unfold finish at failed
  split at failed
  · cases failed
    rfl
  · split at failed <;> cases failed
    rfl

theorem isOfTemplate_of_parseFrom {args rest : List Text} {shape? : Option Shape}
    {name? : Option Text} {f : Fault} (failed : parseFrom args shape? name? rest = .error f) :
    f.IsOfTemplate := by
  fun_induction parseFrom args shape? name? rest with
  | case1 | case8 =>
    cases failed
    rfl
  | case2 | case3 | case5 | case6 => exact isOfTemplate_of_finish failed
  | case4 shape arg rest cut ih => exact ih failed
  | case7 arg rest _ _ shape _ ih => exact ih failed

end Binding

/-! ### Values without overlong integers -/

namespace Datum

theorem anyOverlong_eq_any (items : List Datum) : anyOverlong items = items.any isOverlong := by
  induction items with
  | nil => rfl
  | cons d rest ih => rw [anyOverlong, ih, List.any_cons]

theorem anyEntryOverlong_eq_any (entries : List (Datum × Datum)) :
    anyEntryOverlong entries = entries.any fun e => e.1.isOverlong || e.2.isOverlong := by
  induction entries with
  | nil => rfl
  | cons e rest ih => rw [anyEntryOverlong, ih, List.any_cons]

theorem isOverlong_of_isJson {d : Datum} (json : d.IsJson) : d.isOverlong = false := by
  induction json with
  | int short => exact short
  | list each ih =>
    rw [isOverlong, anyOverlong_eq_any]
    exact List.any_eq_false.mpr fun d member => by simp [ih d member]
  | map each ih =>
    rw [isOverlong, anyEntryOverlong_eq_any, List.any_map]
    exact List.any_eq_false.mpr fun e member => by simp [ih e member, isOverlong]
  | _ => rfl

end Datum

namespace Value

/-- No integer in an item is overlong. -/
def IsShort : Value → Prop
  | .string _ | .blank _ => True
  | .list items => ∀ d ∈ items, d.isOverlong = false
  | .assoc entries => ∀ e ∈ entries, e.2.isOverlong = false

theorem surrogates_of_fault? {t : RawText} {f : Fault} (found : t.fault? = some f) :
    ∃ s, f = .surrogates s := by
  obtain ⟨s, -, rfl⟩ := Option.map_eq_some_iff.mp found
  exact ⟨s, rfl⟩

theorem surrogates_of_item {d : Datum} (short : d.isOverlong = false) {f : Fault}
    (found : d.fault? = some f) : ∃ s, f = .surrogates s := by
  unfold Datum.fault? at found
  rw [if_neg (by simp [short])] at found
  split at found
  · exact surrogates_of_fault? found
  · cases found

/-- In a value without overlong integers, only a surrogate keeps a text from being written. -/
theorem IsShort.surrogates_of_textFault? {value : Value} (short : value.IsShort) {f : Fault}
    (found : value.textFault? = some f) : ∃ s, f = .surrogates s := by
  cases value with
  | string t => exact surrogates_of_fault? found
  | list items =>
    obtain ⟨d, member, found⟩ := List.exists_of_findSome?_eq_some found
    exact surrogates_of_item (short d member) found
  | assoc entries =>
    obtain ⟨e, member, found⟩ := List.exists_of_findSome?_eq_some found
    rcases Option.or_eq_some_iff.mp found with key | ⟨-, item⟩
    · exact surrogates_of_fault? key
    · exact surrogates_of_item (short e member) item
  | blank mark => cases found

theorem isShort_of_gives {shape : Shape} {t : Text} {value : Value} (gives : shape.Gives t value) :
    value.IsShort := by
  cases gives with
  | string => trivial
  | array t => exact fun d member => List.mem_singleton.mp member ▸ rfl
  | entry bare item => exact fun e member => List.mem_singleton.mp member ▸ rfl
  | key bare => exact fun e member => List.mem_singleton.mp member ▸ rfl

theorem isShort_of_spelled {value : Value} (spelled : Store.Spelled value) : value.IsShort := by
  cases spelled with
  | string t => trivial
  | list words =>
    intro d member
    obtain ⟨word, -, rfl⟩ := List.mem_map.mp member
    rfl
  | assoc words =>
    refine Assoc.forall_ofList (p := fun d : Datum => d.isOverlong = false) fun e member => ?_
    obtain ⟨word, -, rfl⟩ := List.mem_map.mp member
    rfl

theorem isShort_of_isJson {d : Datum} (json : d.IsJson) : (Supply.datum d).value.IsShort := by
  cases json with
  | list each => exact fun d member => Datum.isOverlong_of_isJson (each d member)
  | map each =>
    refine Assoc.forall_ofList (p := fun d : Datum => d.isOverlong = false) ?_
    intro e member
    obtain ⟨entry, written, rfl⟩ := List.mem_map.mp member
    obtain ⟨named, source, rfl⟩ := List.mem_map.mp written
    exact Datum.isOverlong_of_isJson (each named source)
  | _ => trivial

theorem IsShort.merged {current added value : Value} (held : current.IsShort)
    (given : added.IsShort)
    (joined : Store.mergeValues? current added = some value) : value.IsShort := by
  unfold Store.mergeValues? at joined
  split at joined <;> cases joined
  · exact List.forall_mem_append.mpr ⟨held, given⟩
  · exact List.forall_mem_cons.mpr ⟨rfl, given⟩
  · refine Assoc.forall_putAll (p := fun d : Datum => d.isOverlong = false) held ?_
    intro e member
    obtain ⟨d, -, rfl⟩ := List.mem_map.mp member
    rfl
  · exact Assoc.forall_putAll (p := fun d : Datum => d.isOverlong = false) held given

end Value

/-! ### Stores -/

namespace Store

variable {s : Store}

def IsShort (s : Store) : Prop :=
  ∀ e ∈ s.entries, e.2.IsShort

theorem IsShort.value (short : s.IsShort) {name : RawText} {value : Value}
    (held : s.find? name = some value) : value.IsShort := by
  obtain ⟨e, found, rfl⟩ := Option.map_eq_some_iff.mp held
  exact short e (List.mem_of_find?_eq_some found)

theorem IsShort.merge (short : s.IsShort) {b : Binding} (given : b.value.IsShort) {next : Store}
    (merged : s.merge b = .ok next) : next.IsShort := by
  unfold Store.merge at merged
  split at merged
  · cases merged
    exact Assoc.forall_put b.name short given
  · rename_i current held
    split at merged <;> cases merged
    rename_i joined
    exact Assoc.forall_put b.name short ((short.value held).merged given joined)

theorem IsShort.mergeAll (short : s.IsShort) {bs : List Binding}
    (given : ∀ b ∈ bs, b.value.IsShort) : (s.mergeAll bs).store.IsShort := by
  induction bs generalizing s with
  | nil => exact short
  | cons b rest ih =>
    obtain ⟨first, others⟩ := List.forall_mem_cons.mp given
    cases merged : s.merge b with
    | error f =>
      rw [mergeAll_cons_error merged]
      exact short
    | ok next =>
      rw [mergeAll_cons_ok merged]
      exact ih (short.merge first merged) others

theorem isOfTemplate_of_mergeAll {bs : List Binding} {f : Fault}
    (failed : (s.mergeAll bs).fault? = some f) : f.IsOfTemplate := by
  obtain ⟨before, b, after, -, -, conflict, -⟩ := mergeAll_fault failed
  unfold merge at conflict
  split at conflict
  · cases conflict
  · split at conflict <;> cases conflict
    rfl

/-- Expansion with a store of short values fails as a template does, or at a surrogate. -/
theorem IsShort.fault_of_expand (short : s.IsShort) {vs : List Varspec} {f : Fault}
    (failed : vs.findSome? s.environment.fault? = some f) :
    f.IsOfTemplate ∨ ∃ found, f = .surrogates found := by
  obtain ⟨v, -, refused⟩ := List.exists_of_findSome?_eq_some failed
  obtain ⟨given, named, refused⟩ := Option.bind_eq_some_iff.mp refused
  obtain ⟨value, held, rfl⟩ := Option.map_eq_some_iff.mp named
  rw [Given.fault?] at refused
  split at refused
  · cases refused
    exact Or.inl rfl
  · exact Or.inr ((short.value held).surrogates_of_textFault? refused)

/-! ### Calls -/

namespace Call

/-- The calls with which a request fills its store: their values are short, and what is wrong with
their texts is wrong as with templates. -/
structure IsPlain (c : Call) : Prop where
  short : ∀ b ∈ c.merges.1, b.value.IsShort
  fault : ∀ f, c.merges.2 = some f → f.IsOfTemplate

theorem isPlain_of_merges {c : Call} {bs : List Binding} (made : c.merges = (bs, none))
    (short : ∀ b ∈ bs, b.value.IsShort) : c.IsPlain where
  short b member := short b (by rwa [made] at member)
  fault f failed := by
    rw [made] at failed
    cases failed

theorem isPlain_of_fault {c : Call} {g : Fault} (made : c.merges = ([], some g))
    (known : g.IsOfTemplate) : c.IsPlain where
  short b member := by
    rw [made] at member
    cases member
  fault f failed := by
    rw [made] at failed
    cases failed
    exact known

theorem isPlain_add {args : List Text} {b : Binding} (read : Binding.parse args = .ok b) :
    (add [b]).IsPlain := by
  obtain ⟨-, -, -, -, shape, t, gives⟩ := Binding.writable_of_parse read
  refine isPlain_of_merges rfl fun c member => ?_
  rw [List.mem_singleton.mp member]
  exact Value.isShort_of_gives gives

theorem isPlain_set (arg : Text) : (set arg).IsPlain := by
  cases read : readBinding arg with
  | error f =>
    obtain ⟨reason, rfl⟩ := assignment_of_readBinding read
    have known : (Fault.assignment arg reason).IsOfTemplate := rfl
    exact isPlain_of_fault (by rw [merges, read]) known
  | ok b =>
    have made : (set arg).merges = ([b], none) := by rw [merges, read]
    refine isPlain_of_merges made fun c member => ?_
    rw [List.mem_singleton.mp member]
    exact Value.isShort_of_spelled (spelled_of_readBinding read)

theorem isPlain_load (t : Text) : (load t).IsPlain := by
  cases read : readJson t with
  | error f =>
    obtain ⟨reason, rfl⟩ := assignment_of_readJson read
    have known : (Fault.assignment t reason).IsOfTemplate := rfl
    exact isPlain_of_fault (by rw [merges, read]) known
  | ok a =>
    have made : (load t).merges = ((a.filter fun e => !e.2.isNull).map bindingOf, none) := by
      rw [merges, read]
      exact bindingsOf_of_short (short_of_readJson read)
    refine isPlain_of_merges made fun b member => ?_
    obtain ⟨e, kept, rfl⟩ := List.mem_map.mp member
    obtain ⟨d, json, same⟩ := isJson_of_readJson read e (List.mem_filter.mp kept).1
    rw [bindingOf, same]
    exact Value.isShort_of_isJson json

theorem IsPlain.run {c : Call} (plain : c.IsPlain) (short : s.IsShort) :
    (c.run s).store.IsShort ∧ ∀ f, (c.run s).fault? = some f → f.IsOfTemplate := by
  rw [c.run_eq]
  refine ⟨short.mergeAll plain.short, fun f failed => ?_⟩
  rcases Option.or_eq_some_iff.mp failed with merging | ⟨-, reading⟩
  · exact isOfTemplate_of_mergeAll merging
  · exact plain.fault f reading

end Call
end Store
end Rfc6570
