/-!
Two editions of the rules that a platform supplies: how single-letter options stand together behind
one dash, and which schemes know relative references. Everything else is the same in both.
-/

namespace Rfc6570

inductive Edition
  | earlier
  | current
  deriving DecidableEq, Repr

/-- What the current edition adds to a list. -/
def Edition.adding {α : Type} (e : Edition) (items : List α) : List α :=
  match e with
  | .earlier => []
  | .current => items

end Rfc6570
