import Rfc6570.Locations
import Rfc6570.Proofs.PartSeries
/-!
Locations resolved one after the other. A location that is added is joined to the last result and
appends one more; the results before it stay. The base reaches the first result only, and variables
reach only locations with braces. Main statement: `resolveWith_chain`.
-/

namespace Rfc6570

namespace Template

theorem expand_of_braceFree {t : Text} (free : BraceFree t) :
    ∃ template, parse t = .ok template ∧ ∀ env, template.expand env = .ok t := by
  have sound : ∀ p ∈ [Piece.free t], p.Sound := by simpa [Piece.Sound] using free
  have written : Piece.writeAll [.free t] = t := List.append_nil t
  have read : parseParts t = .ok (Part.compact [.literal t]) := by
    rw [← written, parseParts_writeAll sound, written]
    rfl
  refine ⟨⟨t, Part.compact [.literal t]⟩, by rw [parse, read]; rfl, fun env => ?_⟩
  rw [expand, Part.expandAll_eq_gather, Part.gather_compact fun _ => rfl]
  exact congrArg Except.ok (List.append_nil t)

end Template

namespace Locations

variable {join : Join}

/-! ### The chain -/

theorem length_chain {before : Text} {texts results : List Text}
    (resolved : chain join before texts = .ok results) : results.length = texts.length := by
  induction texts generalizing before results with
  | nil =>
    cases resolved
    rfl
  | cons text rest ih =>
    obtain ⟨result, -, resolved⟩ := bind_ok resolved
    obtain ⟨others, later, resolved⟩ := bind_ok resolved
    cases resolved
    exact congrArg (· + 1) (ih later)

theorem chain_concat (before text : Text) (texts : List Text) :
    chain join before (texts ++ [text]) = (do
      let results ← chain join before texts
      let result ← join (results.getLastD before) text
      pure (results ++ [result])) := by
  -- What the first text is joined to moves on with the texts, so the induction is on all of them.
  induction texts generalizing before with
  | nil =>
    simp only [List.nil_append, chain, ok_bind, pure_eq_ok, List.getLastD_nil]
  | cons first rest ih =>
    rw [List.cons_append, chain, chain]
    cases join before first with
    | error f => rfl
    | ok result =>
      simp only [ok_bind, ih]
      cases chain join result rest with
      | error f => rfl
      | ok others =>
        simp only [ok_bind, pure_eq_ok, List.getLastD_cons]
        cases join (others.getLastD result) text <;> rfl

/-! ### Expanding, then resolving -/

/-- A location as it is resolved: expanded once there is a variable. -/
def ready (l : Locations) (location : Text) : Except Fault Text :=
  if l.store.entries.isEmpty then .ok location else expandLocation l.store location

theorem expanded_eq (l : Locations) : l.expanded = l.locations.mapM l.ready := by
  rw [expanded]
  by_cases none : l.store.entries.isEmpty = true
  · have same : ∀ t ∈ l.locations, l.ready t = .ok (id t) := fun t _ => if_pos none
    rw [if_pos none, mapM_ok_of_forall same, List.map_id]
  · rw [if_neg none]
    exact mapM_congr_of_forall fun t _ => (if_neg none).symm

theorem ready_of_braceFree (l : Locations) {t : Text} (free : BraceFree t) : l.ready t = .ok t := by
  obtain ⟨template, read, expands⟩ := Template.expand_of_braceFree free
  rw [ready, expandLocation, read, ok_bind, expands]
  exact ite_self _

/-- Texts that are ready, resolved with a base. -/
def resolveAll (join : Join) (base? : Option Text) : List Text → Except Fault (List Text)
  | [] => pure []
  | first :: rest => do
    let resolved ← resolveFirst join base? first
    let others ← chain join resolved rest
    pure (resolved :: others)

theorem resolveWith_eq (l : Locations) :
    l.resolveWith join = l.locations.mapM l.ready >>= resolveAll join l.base? := by
  rw [resolveWith, expanded_eq]
  cases l.locations.mapM l.ready with
  | error f => rfl
  | ok texts => cases texts <;> rfl

theorem length_resolveAll {base? : Option Text} {texts results : List Text}
    (resolved : resolveAll join base? texts = .ok results) : results.length = texts.length := by
  cases texts with
  | nil =>
    cases resolved
    rfl
  | cons first rest =>
    obtain ⟨result, -, resolved⟩ := bind_ok resolved
    obtain ⟨others, later, resolved⟩ := bind_ok resolved
    cases resolved
    exact congrArg (· + 1) (length_chain later)

theorem resolveAll_concat (base? : Option Text) {texts : List Text} (some : texts ≠ [])
    (text : Text) :
    resolveAll join base? (texts ++ [text]) = (do
      let results ← resolveAll join base? texts
      let result ← join (results.getLastD []) text
      pure (results ++ [result])) := by
  obtain ⟨first, rest, rfl⟩ := List.exists_cons_of_ne_nil some
  rw [List.cons_append, resolveAll, resolveAll]
  cases resolveFirst join base? first with
  | error f => rfl
  | ok result =>
    simp only [ok_bind, chain_concat]
    cases chain join result rest with
    | error f => rfl
    | ok others =>
      simp only [ok_bind, pure_eq_ok, List.getLastD_cons]
      cases join (others.getLastD result) text <;> rfl

/-- A base acts through the first text alone. -/
theorem resolveAll_congr {base? other? : Option Text} {first : Text} (rest : List Text)
    (same : resolveAll join base? [first] = resolveAll join other? [first]) :
    resolveAll join base? (first :: rest) = resolveAll join other? (first :: rest) := by
  have agree : resolveFirst join base? first = resolveFirst join other? first := by
    simp only [resolveAll, chain] at same
    cases here : resolveFirst join base? first <;> cases there : resolveFirst join other? first <;>
      simp_all
  rw [resolveAll, resolveAll, agree]

/-! ### Adding locations -/

theorem resolveWith_ok {l : Locations} {results : List Text}
    (resolved : l.resolveWith join = .ok results) :
    ∃ texts, l.locations.mapM l.ready = .ok texts ∧ resolveAll join l.base? texts = .ok results := by
  rw [resolveWith_eq] at resolved
  exact bind_ok resolved

theorem length_resolveWith {l : Locations} {results : List Text}
    (resolved : l.resolveWith join = .ok results) : results.length = l.locations.length := by
  obtain ⟨texts, expanded, resolved⟩ := resolveWith_ok resolved
  rw [length_resolveAll resolved, length_mapM_ok expanded]

theorem resolveWith_add {l : Locations} {results : List Text}
    (resolved : l.resolveWith join = .ok results) (some : results ≠ []) (location : Text) :
    (l.add location).resolveWith join = (do
      let text ← l.ready location
      let result ← join (results.getLast some) text
      pure (results ++ [result])) := by
  obtain ⟨texts, expanded, resolved⟩ := resolveWith_ok resolved
  have filled : texts ≠ [] := by
    rintro rfl
    cases resolved
    exact some rfl
  have same : (l.add location).ready = l.ready := rfl
  rw [resolveWith_eq, same, add, List.mapM_append, expanded, List.mapM_cons, List.mapM_nil]
  cases l.ready location with
  | error f => rfl
  | ok text =>
    simp only [ok_bind, pure_eq_ok, resolveAll_concat _ filled, resolved,
      List.getLastD_eq_getLast?, List.getLast?_eq_some_getLast some, Option.getD_some]

/-- Where one more location is resolved too, the results of the others stand in front. -/
theorem resolveWith_of_add {l : Locations} {location : Text} {all : List Text}
    (resolved : (l.add location).resolveWith join = .ok all) :
    ∃ results, l.resolveWith join = .ok results ∧ results <+: all := by
  obtain ⟨texts, expanded, resolved⟩ := resolveWith_ok resolved
  have series : (l.locations ++ [location]).mapM l.ready = .ok texts := expanded
  rw [List.mapM_append] at series
  obtain ⟨before, front, series⟩ := bind_ok series
  obtain ⟨added, single, series⟩ := bind_ok series
  obtain ⟨text, none, -, last, rfl⟩ := mapM_cons_ok single
  cases mapM_nil_ok last
  cases series
  rw [resolveWith_eq, front]
  by_cases alone : before = []
  · subst alone
    exact ⟨[], rfl, List.nil_prefix⟩
  · rw [resolveAll_concat _ alone] at resolved
    obtain ⟨results, earlier, resolved⟩ := bind_ok resolved
    obtain ⟨result, -, resolved⟩ := bind_ok resolved
    cases resolved
    exact ⟨results, earlier, List.prefix_append _ _⟩

/-- However many locations are added, the results of those before them stay. -/
theorem prefix_of_foldl_add {l : Locations} {results all : List Text} (more : List Text)
    (resolved : l.resolveWith join = .ok results)
    (later : (more.foldl add l).resolveWith join = .ok all) : results <+: all := by
  have front : ∃ first, l.resolveWith join = .ok first ∧ first <+: all := by
    clear resolved
    induction more generalizing l with
    | nil => exact ⟨all, later, List.prefix_refl all⟩
    | cons location rest ih =>
      obtain ⟨next, resolved, start⟩ := ih later
      obtain ⟨first, earlier, front⟩ := resolveWith_of_add resolved
      exact ⟨first, earlier, front.trans start⟩
  obtain ⟨first, earlier, start⟩ := front
  cases resolved.symm.trans earlier
  exact start

/-! ### Base and variables -/

def opening (l : Locations) : Locations :=
  { l with locations := l.locations.take 1 }

/-- Bases that agree on the first location agree on all. -/
theorem resolveWith_base {l : Locations} {base? : Option Text}
    (same : { l with base? := base? }.opening.resolveWith join = l.opening.resolveWith join) :
    { l with base? := base? }.resolveWith join = l.resolveWith join := by
  have ready : { l with base? := base? }.ready = l.ready := rfl
  have first : (l.locations.take 1).mapM l.ready >>= resolveAll join base? =
      (l.locations.take 1).mapM l.ready >>= resolveAll join l.base? := by
    rw [resolveWith_eq, resolveWith_eq] at same
    exact same
  rw [resolveWith_eq, resolveWith_eq, ready]
  cases locations : l.locations with
  | nil => rfl
  | cons location rest =>
    rw [locations, List.take_succ_cons, List.take_zero, List.mapM_cons, List.mapM_nil] at first
    rw [List.mapM_cons]
    cases expanded : l.ready location with
    | error f => rfl
    | ok text =>
      rw [expanded] at first
      cases rest.mapM l.ready with
      | error f => rfl
      | ok others => exact resolveAll_congr others first

theorem resolveWith_store {l : Locations} (free : ∀ t ∈ l.locations, BraceFree t) (store : Store) :
    { l with store := store }.resolveWith join = l.resolveWith join := by
  have plain (m : Locations) : ∀ t ∈ l.locations, m.ready t = .ok (id t) := fun t member =>
    m.ready_of_braceFree (free t member)
  rw [resolveWith_eq, resolveWith_eq, mapM_ok_of_forall (plain l)]
  exact congrArg (· >>= _) (mapM_ok_of_forall (plain { l with store := store }))

/-! ### Calls -/

inductive Call
  | add (location : Text)
  | addBindings (bindings : List Binding)
  | setBase (base : Text)
  | resolve

/-- What a call leaves. One that fails leaves what it has done until then. -/
def Call.next (join : Join) (l : Locations) : Call → Locations
  | .add location => l.add location
  | .addBindings bindings => (l.addBindings bindings).1
  | .setBase base => (l.setBaseWith join base).toOption.getD l
  | .resolve => l

def after (join : Join) (l : Locations) (calls : List Call) : Locations :=
  calls.foldl (Call.next join) l

theorem after_resolve (l : Locations) (before later : List Call) :
    l.after join (before ++ .resolve :: later) = l.after join (before ++ later) := by
  rw [after, after, List.foldl_append, List.foldl_append, List.foldl_cons]
  rfl

/-- Whatever function resolves a reference at another: there is one result for each location; a
location that is added is joined to the last result and appends one, and no number of them changes
the results before; resolving changes nothing for the calls after it; bases that agree on the first
location agree on all; and variables do not count where no location has a brace. -/
theorem resolveWith_chain (join : Join) (l : Locations) :
    (∀ results, l.resolveWith join = .ok results →
      results.length = l.locations.length ∧
      (∀ location (some : results ≠ []),
        (l.add location).resolveWith join = (do
          let text ← l.ready location
          let result ← join (results.getLast some) text
          pure (results ++ [result]))) ∧
      ∀ (more all : List Text), (more.foldl add l).resolveWith join = .ok all → results <+: all) ∧
    (∀ before later,
      l.after join (before ++ .resolve :: later) = l.after join (before ++ later)) ∧
    (∀ base?, { l with base? := base? }.opening.resolveWith join = l.opening.resolveWith join →
      { l with base? := base? }.resolveWith join = l.resolveWith join) ∧
    ((∀ t ∈ l.locations, BraceFree t) →
      ∀ store, { l with store := store }.resolveWith join = l.resolveWith join) := by
  refine ⟨fun results resolved => ⟨length_resolveWith resolved, ?_, ?_⟩, l.after_resolve,
    fun base? => resolveWith_base, resolveWith_store⟩
  · exact fun location some => resolveWith_add resolved some location
  · exact fun more all => prefix_of_foldl_add more resolved

/-- A host with a path, a segment and a template behind a base, with one variable. -/
theorem resolveWith_chain_host : ∃ l : Locations,
    l.resolveWith (Reference.join .current) = .ok ["http://h/a/".toList, "http://h/a/b".toList] ∧
    (l.add "\x7bx\x7d".toList).resolveWith (Reference.join .current) =
      .ok ["http://h/a/".toList, "http://h/a/b".toList, "http://h/a/1".toList] ∧
    ["http://h/a/".toList, "http://h/a/b".toList] <+:
      ["http://h/a/".toList, "http://h/a/b".toList, "http://h/a/1".toList] ∧
    { l with base? := none }.resolveWith (Reference.join .current) =
      l.resolveWith (Reference.join .current) ∧
    { l with store := {} }.resolveWith (Reference.join .current) =
      l.resolveWith (Reference.join .current) := by
  let l : Locations :=
    { locations := ["h/a/".toList, "b".toList], store := ⟨[("x".toList, .string "1".toList)]⟩,
      base? := some "https://g/".toList }
  have resolved : l.resolveWith (Reference.join .current) =
      .ok ["http://h/a/".toList, "http://h/a/b".toList] := rfl
  have free : ∀ t ∈ l.locations, BraceFree t := by simp [l, BraceFree]
  obtain ⟨front, -, base, store⟩ := resolveWith_chain (Reference.join .current) l
  obtain ⟨-, added, stays⟩ := front _ resolved
  have more := (added "\x7bx\x7d".toList (by simp)).trans rfl
  exact ⟨l, resolved, more, stays ["\x7bx\x7d".toList] _ more, base none rfl, store free {}⟩

end Locations
end Rfc6570
