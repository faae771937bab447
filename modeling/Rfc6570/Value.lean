import Rfc6570.Datum.Written
/-!
Template values: a string, a list or an associative array with strings for keys. `Value.ofSupply`
turns what a caller supplies into a value; a map's keys become strings, and of keys that become the
same string the first gives the place and the last the item. An integer that has to become a string
and is overlong gives no value. `Value.plain` is the value in texts alone, as it is encoded.
-/

namespace Rfc6570

inductive Value
  | string (t : RawText)
  | list (items : List Datum)
  | assoc (entries : List (RawText × Datum))
  /-- A value with no content, told from others by its mark. -/
  | blank (mark : Nat)

/-- What a caller supplies for a variable: a datum, or an object that says itself what stands
for it. -/
inductive Supply
  | datum (d : Datum)
  | proxy (target : Supply)

namespace Value

instance : Inhabited Value := ⟨.string []⟩

def namedEntry (e : Datum × Datum) : Except Fault (RawText × Datum) := do
  let key ← e.1.asKey
  pure (key, e.2)

def ofEntries (entries : List (Datum × Datum)) : Except Fault Value := do
  let named ← entries.mapM namedEntry
  pure (.assoc (Assoc.ofList named))

def ofDatum : Datum → Except Fault Value
  | .stringValue t => .ok (.string t)
  | .listValue items => .ok (.list items)
  | .assocValue entries => .ok (.assoc entries)
  | .blankValue mark => .ok (.blank mark)
  | .text t => .ok (.string t)
  | .map entries => ofEntries entries
  | .list items => .ok (.list items)
  | .tuple items => .ok (.list items)
  | d => do
    let t ← d.stringify
    pure (.string t)

def ofSupply : Supply → Except Fault Value
  | .datum d => ofDatum d
  | .proxy target => ofSupply target

/-- The name of the kind of a value; a value with no content has no kind. -/
def kind : Value → Text
  | .string _ => "string".toList
  | .list _ => "array".toList
  | .assoc _ => "map".toList
  | .blank _ => []

/-- The number of characters or of items. -/
def size : Value → Nat
  | .string t => t.length
  | .list items => items.length
  | .assoc entries => entries.length
  | .blank _ => 0

def content : Value → Datum
  | .string t => .text t
  | .list items => .list items
  | .assoc entries => .map (entries.map fun e => (.text e.1, e.2))
  | .blank _ => .null

/-- The value as a datum that is a value. -/
def toDatum : Value → Datum
  | .string t => .stringValue t
  | .list items => .listValue items
  | .assoc entries => .assocValue entries
  | .blank mark => .blankValue mark

def describe (v : Value) : Text :=
  v.toDatum.describe

/-- Values are equal when they are of one kind and hold the same. -/
instance : BEq Value := ⟨fun a b => a.toDatum.same b.toDatum⟩

theorem ofDatum_toDatum (v : Value) : ofDatum v.toDatum = .ok v := by
  cases v <;> rfl

def isMap : Value → Bool
  | .assoc _ => true
  | _ => false

end Value

/-- A value in texts alone. -/
inductive PlainValue
  | string (t : Text)
  | list (items : List Text)
  | assoc (entries : List (Text × Text))
  deriving DecidableEq, Repr

namespace Value

def plainEntry (e : RawText × Datum) : Except Fault (Text × Text) := do
  let key ← e.1.whole.mapError .surrogates
  let item ← e.2.written
  pure (key, item)

/-- The texts of a value, or the first of its strings and items that cannot be written. -/
def plain : Value → Except Fault PlainValue
  | .string t => do
    let text ← t.whole.mapError .surrogates
    pure (.string text)
  | .list items => do
    let texts ← items.mapM Datum.written
    pure (.list texts)
  | .assoc entries => do
    let texts ← entries.mapM plainEntry
    pure (.assoc texts)
  | .blank _ => do
    let text ← Datum.null.written
    pure (.string text)

@[simp] theorem plain_string (t : Text) : plain (.string t) = .ok (.string t) :=
  congrArg
    (fun text => text.mapError Fault.surrogates >>= fun text => pure (PlainValue.string text))
    (RawText.whole_raw t)

end Value

namespace Supply

/-- A variable with no value is not defined. A proxy always is. -/
def isNull : Supply → Bool
  | .datum .null => true
  | _ => false

end Supply
end Rfc6570
