import Rfc6570.Fault
import Rfc6570.Json.Quoted
import Rfc6570.Value
/-!
A binding is a variable name with its value, as one command line argument gives it. The written
form is `type,name=value`; `Binding.parse` also takes the type, the name and the value as
separate arguments, and a string without its type. A map has one entry, `key=item`.
-/

namespace Rfc6570

/-- The kinds of value that a type word names. -/
inductive Shape
  | string
  | array
  | map
  deriving DecidableEq, Repr

namespace Shape

/-- The type words, the long one and the short one of each shape. -/
def words : List (Text × Shape) :=
  [("array".toList, .array), ("string".toList, .string), ("map".toList, .map),
    (['a'], .array), (['s'], .string), (['m'], .map)]

def ofWord? (word : Text) : Option Shape :=
  Assoc.find? word words

def value (shape : Shape) (t : Text) : Value :=
  match shape with
  | .string => .string t
  | .array => .list [.text t]
  | .map =>
    let (key, item) := Text.cut '=' t
    .assoc [(key, .text item)]

end Shape

structure Binding where
  name : RawText
  value : Value

namespace Binding

def ofSupply (name : RawText) (s : Supply) : Except Fault Binding := do
  let value ← Value.ofSupply s
  pure ⟨name, value⟩

instance : BEq Binding := ⟨fun a b => a.name == b.name && a.value == b.value⟩

/-! ### Reading -/

def dropFinalNewline (t : Text) : Text :=
  if t.getLast? = some '\n' then t.dropLast else t

/-- Whether a text without its type word is `name=value` on one line, with at least one
character on both sides of some `=`. A line feed may end it. -/
def isInline (t : Text) : Bool :=
  let line := dropFinalNewline t
  !line.contains '\n' && (line.drop 1).dropLast.contains '='

/-- The shape, the name and the value of an argument in the form `type,name=value`. -/
def inline? (arg : Text) : Option (Shape × Text × Text) := do
  let (word, body) ← Text.cut? ',' arg
  let shape ← Shape.ofWord? word
  if isInline body then some (shape, Text.cut '=' body) else none

/-- The binding, unless arguments are left over or the name is empty. -/
def finish (args : List Text) (name : Text) (value : Value) (rest : List Text) :
    Except Fault Binding :=
  if !rest.isEmpty then
    .error (.assignment (Text.join ' ' rest) "unexpected arguments after value".toList)
  else if name.isEmpty then .error (.assignment (Text.join ' ' args) "missing name".toList)
  else .ok ⟨name, value⟩

/-- Reads on from the arguments that are left, knowing the shape or the name from those before
them. -/
def parseFrom (args : List Text) : Option Shape → Option Text → List Text → Except Fault Binding
  | _, _, [] => .error (.assignment (Text.join ' ' args) "missing value".toList)
  | shape, some name, arg :: rest => finish args name ((shape.getD .string).value arg) rest
  | some shape, none, arg :: rest =>
    match Text.cut? '=' arg with
    | some (name, text) => finish args name (shape.value text) rest
    | none => parseFrom args (some shape) (some arg) rest
  | none, none, arg :: rest =>
    match inline? arg with
    | some (shape, name, text) => finish args name (shape.value text) rest
    | none =>
      match Text.cut? '=' arg with
      | some (name, text) => finish args name (.string text) rest
      | none =>
        match Shape.ofWord? arg with
        | some shape => parseFrom args (some shape) none rest
        | none => .error (.assignment arg "expected [type,]name=value".toList)

def parse (args : List Text) : Except Fault Binding :=
  parseFrom args none none args

/-! ### Writing -/

/-- The code points that a bare item does not hold. -/
def isSpecial : Point → Bool
  | .char c => [' ', '\t', '\n', ',', '"', '[', ']', '\x7b', '\x7d'].contains c
  | .surrogate _ => false

/-- A string as it stands, or as a JSON string when it is empty or has special characters. -/
def item (t : RawText) : RawText :=
  if t.isEmpty || t.any isSpecial then Json.quoted t else t

def itemList (items : List Datum) : RawText :=
  RawText.join ',' (items.map fun d => item d.expanded)

/-- A value without its type and name. Integers are written in full. -/
def renderValue : Value → RawText
  | .list items => itemList items
  | .assoc entries =>
    RawText.join ',' (entries.map fun e => e.1 ++ Point.char '=' :: item e.2.expanded)
  | v => item v.content.expanded

def render (b : Binding) : RawText :=
  b.value.kind.raw ++ Point.char ',' :: item b.name ++ Point.char '=' :: renderValue b.value

def describe (b : Binding) : Text :=
  "Var(".toList ++ b.name.quoted ++ ", ".toList ++ b.value.describe ++ [')']

end Binding
end Rfc6570
