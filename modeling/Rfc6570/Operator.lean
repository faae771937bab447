import Rfc6570.Text.Quoted
/-!
The expression operators of RFC 6570. The operator decides what is written before the first
value, between two values, and whether a value is written with its name.
-/

namespace Rfc6570

inductive Operator
  | simple
  | reserved
  | label
  | path
  | parameter
  | query
  | continuation
  | fragment
  deriving DecidableEq, Repr

namespace Operator

/-- The character that selects the operator at the start of an expression. -/
def key? : Operator → Option Char
  | .simple => none
  | .reserved => some '+'
  | .label => some '.'
  | .path => some '/'
  | .parameter => some ';'
  | .query => some '?'
  | .continuation => some '&'
  | .fragment => some '#'

/-- What is written before the first value. -/
def first? : Operator → Option Char
  | .simple | .reserved => none
  | .label => some '.'
  | .path => some '/'
  | .parameter => some ';'
  | .query => some '?'
  | .continuation => some '&'
  | .fragment => some '#'

/-- What is written between two values. -/
def separator : Operator → Char
  | .simple | .reserved | .fragment => ','
  | .label => '.'
  | .path => '/'
  | .parameter => ';'
  | .query | .continuation => '&'

/-- Values are written with their names. -/
def named : Operator → Bool
  | .parameter | .query | .continuation => true
  | _ => false

/-- What follows the name of an empty value. -/
def ifEmpty? : Operator → Option Char
  | .query | .continuation => some '='
  | _ => none

/-- Reserved characters in values are kept. -/
def keepsReserved : Operator → Bool
  | .reserved | .fragment => true
  | _ => false

def key (op : Operator) : Text := op.key?.toList

def first (op : Operator) : Text := op.first?.toList

/-- The operators that a character selects, in the order of those characters. -/
def all : List Operator :=
  [.fragment, .continuation, .reserved, .label, .path, .parameter, .query]

def ofChar? (c : Char) : Option Operator :=
  all.find? fun op => op.key? == some c

/-- The operator of an expression's body, and the body after it. -/
def lookup : Text → Operator × Text
  | [] => (.simple, [])
  | c :: rest =>
    match ofChar? c with
    | some op => (op, rest)
    | none => (.simple, c :: rest)

def describe (op : Operator) : Text :=
  "Operator(".toList ++ op.key.quoted ++ [')']

theorem ofChar?_eq_some {c : Char} {op : Operator} : ofChar? c = some op ↔ op.key? = some c := by
  constructor
  · intro h
    simpa using List.find?_some h
  · intro h
    cases op <;> simp [key?] at h <;> subst h <;> rfl

end Operator
end Rfc6570
