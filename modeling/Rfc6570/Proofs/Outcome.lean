/-!
Computations that can fail: what a result says about the steps that led to it. A series over a
list gives one result for each member, and fails where the first of its steps fails.
-/

namespace Rfc6570

variable {ε α β γ : Type}

@[simp] theorem ok_bind (a : α) (f : α → Except ε β) : (Except.ok a >>= f) = f a := rfl

@[simp] theorem error_bind (e : ε) (f : α → Except ε β) : (Except.error e >>= f) = .error e := rfl

@[simp] theorem pure_eq_ok (a : α) : (pure a : Except ε α) = .ok a := rfl

@[simp] theorem ok_mapError (a : α) (f : ε → γ) :
    (Except.ok a : Except ε α).mapError f = .ok a := rfl

theorem bind_ok {x : Except ε α} {f : α → Except ε β} {b : β} (h : x >>= f = .ok b) :
    ∃ a, x = .ok a ∧ f a = .ok b := by
  cases x with
  | error e => cases h
  | ok a => exact ⟨a, rfl, h⟩

theorem bind_error {x : Except ε α} {f : α → Except ε β} {e : ε} (h : x >>= f = .error e) :
    x = .error e ∨ ∃ a, x = .ok a ∧ f a = .error e := by
  cases x with
  | error e' =>
    cases h
    exact Or.inl rfl
  | ok a => exact Or.inr ⟨a, rfl, h⟩

theorem ok_of_toOption {x : Except ε α} {a : α} (h : x.toOption = some a) : x = .ok a := by
  cases x with
  | error e => cases h
  | ok b =>
    cases h
    rfl

/-- Two computations that fail alike, or give results that `R` relates. -/
def EndAlike (R : α → β → Prop) (x : Except ε α) (y : Except ε β) : Prop :=
  (∃ e, x = .error e ∧ y = .error e) ∨ ∃ a b, x = .ok a ∧ y = .ok b ∧ R a b

theorem EndAlike.bind {δ : Type} {R : α → β → Prop} {S : γ → δ → Prop} {x : Except ε α}
    {y : Except ε β} {f : α → Except ε γ} {g : β → Except ε δ} (first : EndAlike R x y)
    (next : ∀ a b, R a b → EndAlike S (f a) (g b)) : EndAlike S (x >>= f) (y >>= g) := by
  rcases first with ⟨e, left, right⟩ | ⟨a, b, left, right, related⟩
  · exact Or.inl ⟨e, by rw [left]; rfl, by rw [right]; rfl⟩
  · rw [left, right]
    exact next a b related

/-- Two computations that end alike when their results are put into one form. -/
theorem bind_pure_eq {x : Except ε α} {y : Except ε β} {f : α → γ} {g : β → γ}
    (h : (x >>= fun a => pure (f a)) = y >>= fun b => pure (g b)) :
    EndAlike (fun a b => f a = g b) x y := by
  cases x with
  | error e =>
    cases y with
    | error e' =>
      cases h
      exact Or.inl ⟨e, rfl, rfl⟩
    | ok b => cases h
  | ok a =>
    cases y with
    | error e => cases h
    | ok b =>
      simp only [ok_bind, pure_eq_ok, Except.ok.injEq] at h
      exact Or.inr ⟨a, b, rfl, rfl, h⟩

/-! ### Results and failures of a kind -/

/-- A computation whose result has `P`, and whose failure has `Q`. -/
def EndsIn (P : α → Prop) (Q : ε → Prop) : Except ε α → Prop
  | .ok a => P a
  | .error e => Q e

namespace EndsIn

variable {P : α → Prop} {R : β → Prop} {Q : ε → Prop}

theorem bind {x : Except ε α} {f : α → Except ε β} (first : EndsIn P Q x)
    (next : ∀ a, P a → EndsIn R Q (f a)) : EndsIn R Q (x >>= f) := by
  cases x with
  | error e => exact first
  | ok a => exact next a first

/-- What each step keeps holds after all of them. -/
theorem foldlM {f : β → α → Except ε β} {xs : List α}
    (step : ∀ b, R b → ∀ x ∈ xs, EndsIn R Q (f b x)) {b : β} (start : R b) :
    EndsIn R Q (xs.foldlM f b) := by
  induction xs generalizing b with
  | nil => exact start
  | cons x rest ih =>
    obtain ⟨first, others⟩ : EndsIn R Q (f b x) ∧ ∀ b, R b → ∀ y ∈ rest, EndsIn R Q (f b y) :=
      ⟨step b start x List.mem_cons_self,
        fun b held y member => step b held y (List.mem_cons_of_mem x member)⟩
    rw [List.foldlM_cons]
    exact first.bind fun next held => ih others held

end EndsIn

/-! ### Failing -/

/-- How a computation fails, if it does. -/
def failure? : Except ε α → Option ε
  | .error e => some e
  | .ok _ => none

theorem failure?_eq_some {x : Except ε α} {e : ε} : failure? x = some e ↔ x = .error e := by
  cases x <;> simp [failure?]

theorem failure?_eq_none {x : Except ε α} : failure? x = none ↔ ∃ a, x = .ok a := by
  cases x <;> simp [failure?]

theorem failure?_bind_pure (x : Except ε α) (f : α → β) :
    failure? (x >>= fun a => pure (f a)) = failure? x := by
  cases x <;> rfl

theorem failure?_mapError (x : Except ε α) (f : ε → γ) :
    failure? (x.mapError f) = (failure? x).map f := by
  cases x <;> rfl

/-! ### Series -/

theorem mapM_nil_ok {f : α → Except ε β} {ys : List β} (h : [].mapM f = .ok ys) : ys = [] := by
  simp only [List.mapM_nil, pure_eq_ok, Except.ok.injEq] at h
  exact h.symm

theorem mapM_cons_ok {f : α → Except ε β} {x : α} {xs : List α} {ys : List β}
    (h : (x :: xs).mapM f = .ok ys) :
    ∃ y rest, f x = .ok y ∧ xs.mapM f = .ok rest ∧ ys = y :: rest := by
  rw [List.mapM_cons] at h
  obtain ⟨y, first, h⟩ := bind_ok h
  obtain ⟨rest, series, h⟩ := bind_ok h
  cases h
  exact ⟨y, rest, first, series, rfl⟩

theorem mapM_ok_of_forall {f : α → Except ε β} {g : α → β} {xs : List α}
    (h : ∀ x ∈ xs, f x = .ok (g x)) : xs.mapM f = .ok (xs.map g) := by
  induction xs with
  | nil => rfl
  | cons x rest ih =>
    have first := h x List.mem_cons_self
    have series := ih fun y member => h y (List.mem_cons_of_mem x member)
    simp [first, series]

theorem mapM_map_ok {f : β → Except ε α} {g : α → β} {xs : List α} (h : ∀ x ∈ xs, f (g x) = .ok x) :
    (xs.map g).mapM f = .ok xs := by
  rw [List.mapM_map]
  exact (mapM_ok_of_forall (g := id) h).trans (congrArg _ (List.map_id xs))

theorem exists_mapM_ok {f : α → Except ε β} {xs : List α} (h : ∀ x ∈ xs, ∃ y, f x = .ok y) :
    ∃ ys, xs.mapM f = .ok ys := by
  induction xs with
  | nil => exact ⟨[], rfl⟩
  | cons x rest ih =>
    obtain ⟨y, first⟩ := h x List.mem_cons_self
    obtain ⟨ys, series⟩ := ih fun w member => h w (List.mem_cons_of_mem x member)
    exact ⟨y :: ys, by simp [first, series]⟩

theorem mem_of_mapM_ok {f : α → Except ε β} {xs : List α} {ys : List β}
    (h : xs.mapM f = .ok ys) : ∀ y ∈ ys, ∃ x ∈ xs, f x = .ok y := by
  induction xs generalizing ys with
  | nil =>
    rw [mapM_nil_ok h]
    simp
  | cons x rest ih =>
    obtain ⟨y, series, first, tail, rfl⟩ := mapM_cons_ok h
    intro z member
    rcases List.mem_cons.mp member with rfl | member
    · exact ⟨x, List.mem_cons_self, first⟩
    · obtain ⟨w, source, read⟩ := ih tail z member
      exact ⟨w, List.mem_cons_of_mem x source, read⟩

theorem exists_ok_of_mapM_ok {f : α → Except ε β} {xs : List α} {ys : List β}
    (h : xs.mapM f = .ok ys) : ∀ x ∈ xs, ∃ y ∈ ys, f x = .ok y := by
  induction xs generalizing ys with
  | nil => simp
  | cons x rest ih =>
    obtain ⟨y, series, first, tail, rfl⟩ := mapM_cons_ok h
    intro z member
    rcases List.mem_cons.mp member with rfl | member
    · exact ⟨y, List.mem_cons_self, first⟩
    · obtain ⟨w, target, read⟩ := ih tail z member
      exact ⟨w, List.mem_cons_of_mem y target, read⟩

theorem length_mapM_ok {f : α → Except ε β} {xs : List α} {ys : List β} (h : xs.mapM f = .ok ys) :
    ys.length = xs.length := by
  induction xs generalizing ys with
  | nil =>
    rw [mapM_nil_ok h]
    rfl
  | cons x rest ih =>
    obtain ⟨y, more, -, later, rfl⟩ := mapM_cons_ok h
    exact congrArg (· + 1) (ih later)

/-- A series fails as the first of its steps that fails. -/
theorem failure?_mapM (f : α → Except ε β) (xs : List α) :
    failure? (xs.mapM f) = xs.findSome? fun x => failure? (f x) := by
  induction xs with
  | nil => rfl
  | cons x rest ih =>
    rw [List.mapM_cons, List.findSome?_cons]
    cases f x with
    | error e => rfl
    | ok y =>
      rw [ok_bind, failure?_bind_pure]
      exact ih

/-- The fault of a series is the fault of one of its steps. -/
theorem mem_of_mapM_error {f : α → Except ε β} {xs : List α} {e : ε}
    (h : xs.mapM f = .error e) : ∃ x ∈ xs, f x = .error e := by
  rw [← failure?_eq_some, failure?_mapM] at h
  obtain ⟨x, member, failed⟩ := List.exists_of_findSome?_eq_some h
  exact ⟨x, member, failure?_eq_some.mp failed⟩

theorem mapM_congr_of_forall {f g : α → Except ε β} {xs : List α} (h : ∀ x ∈ xs, f x = g x) :
    xs.mapM f = xs.mapM g := by
  induction xs with
  | nil => rfl
  | cons x rest ih =>
    rw [List.mapM_cons, List.mapM_cons, h x List.mem_cons_self,
      ih fun y member => h y (List.mem_cons_of_mem x member)]

/-- Two series whose steps fail alike, or agree on what `view` shows, do so as a whole. -/
theorem mapM_agree {f g : α → Except ε β} {view : β → γ} {xs : List α}
    (h : ∀ x ∈ xs, EndAlike (fun y z => view y = view z) (f x) (g x)) :
    EndAlike (fun ys zs => ys.map view = zs.map view) (xs.mapM f) (xs.mapM g) := by
  induction xs with
  | nil => exact Or.inr ⟨[], [], rfl, rfl, rfl⟩
  | cons x rest ih =>
    rw [List.mapM_cons, List.mapM_cons]
    refine (h x List.mem_cons_self).bind fun y z first => ?_
    have others := ih fun w member => h w (List.mem_cons_of_mem x member)
    exact others.bind fun ys zs shown => Or.inr ⟨_, _, rfl, rfl, List.cons_eq_cons.mpr ⟨first, shown⟩⟩

end Rfc6570
