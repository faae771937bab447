import Rfc6570.Store
import Rfc6570.Text.Blank
/-!
The abbreviated notation of variables: `name=value`, `name=[a, b]`, `name={key:value}`, or a bare
name, which stands for its own text. `Store.render` writes all variables of a store in it, the
entries of a map in ascending order.
-/

namespace Rfc6570.Store

/-! ### Reading -/

/-- The content of a bracketed text, cut at the commas; one with nothing but blanks is empty. -/
def tokens (bracketed : Text) : List Text :=
  let inner : Text := (bracketed.drop 1).dropLast
  if (Text.strip inner).isEmpty then [] else inner.splitOn ','

/-- The entry that a token writes: a key, and an item after the first colon. -/
def entryOf (token : Text) : RawText × Datum :=
  let (key, item) := Text.cut ':' token
  (Text.strip key, .text (Text.strip item))

/-- The value that stands behind the `=` of `arg`. -/
def readValue (arg t : Text) : Except Fault Value :=
  match t.head? with
  | some '[' =>
    if t.getLast? = some ']' then .ok (.list ((tokens t).map fun token => .text (Text.strip token)))
    else .error (.assignment arg "expected ']' to end array".toList)
  | some '\x7b' =>
    if t.getLast? = some '\x7d' then .ok (.assoc (Assoc.ofList ((tokens t).map entryOf)))
    else .error (.assignment arg "expected '\x7d' to end map".toList)
  | _ => .ok (.string t)

def readBinding (arg : Text) : Except Fault Binding :=
  let name := (Text.cut '=' arg).1
  if name.isEmpty then .error (.assignment arg "missing name".toList)
  else
    match Text.cut? '=' arg with
    | none => .ok ⟨name, .string name⟩
    | some (_, t) => do
      let value ← readValue arg t
      pure ⟨name, value⟩

def set (s : Store) (arg : Text) : Outcome :=
  match readBinding arg with
  | .error f => { store := s, fault? := some f }
  | .ok b => s.mergeAll [b]

/-! ### Writing -/

def renderEntry (e : RawText × Datum) : RawText :=
  e.1 ++ Point.char ':' :: Binding.item e.2.expanded

/-- One variable. A string that is its own name is left out, and integers are written in full. -/
def renderBinding (name : RawText) : Value → RawText
  | .list items =>
    name ++ Point.char '=' :: Point.char '[' :: Binding.itemList items ++ [Point.char ']']
  | .assoc entries =>
    name ++ Point.char '=' :: Point.char '\x7b'
      :: RawText.join ',' ((entries.map renderEntry).mergeSort RawText.le) ++ [Point.char '\x7d']
  | .string t => if t = name then name else name ++ Point.char '=' :: t
  | .blank _ => name ++ Point.char '=' :: Datum.null.expanded

def render (s : Store) : RawText :=
  RawText.join ',' (s.entries.map fun e => renderBinding e.1 e.2)

def describe (s : Store) : Text :=
  "Vars(".toList ++ s.render.quoted ++ [')']

end Rfc6570.Store
