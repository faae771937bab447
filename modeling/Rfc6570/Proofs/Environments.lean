import Rfc6570.Expansion
import Rfc6570.Proofs.Outcome
/-!
Environments: the one without values, those of one value, and what several passes supply together.
Each name has its value from the first pass that supplies one. What is expanded of a value are its
texts, which `Given.plain` reads off.
-/

namespace Rfc6570

/-- The texts of what is given for a variable, or the fault on the way to them. -/
def Given.plain (given : Given) : Except Fault PlainValue :=
  given >>= Value.plain

namespace PlainValue

def isMap : PlainValue → Bool
  | .assoc _ => true
  | _ => false

/-- Texts that expand to some character wherever they stand. -/
def IsFilled : PlainValue → Prop
  | .string t => t ≠ []
  | .list items => items ≠ [] ∧ ∀ item ∈ items, item ≠ []
  | .assoc entries => entries ≠ []

end PlainValue

namespace Environment

def empty : Environment := fun _ => none

def only (name : Text) (value : Value) : Environment := fun other =>
  if other = name then some (.ok value) else none

/-- The texts of a variable, if it has a value that comes in texts. -/
def texts? (env : Environment) (name : Text) : Option PlainValue :=
  (env name).bind fun given => given.plain.toOption

theorem texts?_of_none {env : Environment} {name : Text} (h : env name = none) :
    env.texts? name = none := by
  rw [texts?, h]
  rfl

theorem texts?_of_some {env : Environment} {name : Text} {given : Given} {texts : PlainValue}
    (h : env name = some given) (plain : given.plain = .ok texts) :
    env.texts? name = some texts := by
  rw [texts?, h, Option.bind_some, plain]
  rfl

theorem exists_given {env : Environment} {name : Text} {texts : PlainValue}
    (h : env.texts? name = some texts) :
    ∃ given, env name = some given ∧ given.plain = .ok texts := by
  obtain ⟨given, found, plain⟩ := Option.bind_eq_some_iff.mp h
  exact ⟨given, found, ok_of_toOption plain⟩

def IsFilled (env : Environment) : Prop :=
  ∀ name given, env name = some given → ∃ value, given.plain = .ok value ∧ value.IsFilled

theorem isFilled_only (name : Text) {value : Value} {texts : PlainValue}
    (plain : value.plain = .ok texts) (filled : texts.IsFilled) : (only name value).IsFilled := by
  intro other found h
  rw [only] at h
  split at h
  · cases h
    exact ⟨texts, plain, filled⟩
  · cases h

/-- The values of `env`, and those of `later` for the variables that have none in it. -/
def before (env later : Environment) : Environment := fun name =>
  (env name).or (later name)

theorem before_of_some {env : Environment} {name : Text} {given : Given} (h : env name = some given)
    (later : Environment) : env.before later name = some given := by
  rw [before, h, Option.some_or]

theorem before_of_none {env : Environment} {name : Text} (h : env name = none) (later : Environment) :
    env.before later name = later name := by
  rw [before, h, Option.none_or]

/-- The values of several passes: each name has its value from the first pass that supplies one. -/
def firstOf (passes : List Environment) : Environment := fun name =>
  passes.findSome? fun env => env name

/-- The number of passes before the first that supplies a name; their number when none does. -/
def firstPass (passes : List Environment) (name : Text) : Nat :=
  passes.findIdx fun env => (env name).isSome

theorem firstOf_cons (env : Environment) (passes : List Environment) :
    firstOf (env :: passes) = env.before (firstOf passes) := by
  funext name
  rw [firstOf, List.findSome?_cons, before]
  cases env name <;> rfl

theorem firstPass_of_some {env : Environment} {name : Text} (h : env name ≠ none)
    (passes : List Environment) : firstPass (env :: passes) name = 0 := by
  rw [firstPass, List.findIdx_cons, Option.isSome_iff_ne_none.mpr h]
  rfl

theorem firstPass_of_none {env : Environment} {name : Text} (h : env name = none)
    (passes : List Environment) : firstPass (env :: passes) name = firstPass passes name + 1 := by
  rw [firstPass, List.findIdx_cons, h]
  rfl

theorem IsFilled.firstOf {passes : List Environment} (filled : ∀ env ∈ passes, env.IsFilled) :
    (firstOf passes).IsFilled := by
  intro name given found
  obtain ⟨env, member, here⟩ := List.exists_of_findSome?_eq_some found
  exact filled env member name given here

end Environment

end Rfc6570
