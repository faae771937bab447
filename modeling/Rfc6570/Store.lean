import Rfc6570.Binding
import Rfc6570.Expansion
import Rfc6570.Json.Reader
/-!
The store of variables: names with their values, in the order in which the names were first
given. Giving a name again merges the new value into the old one, when the two kinds allow it.
A merge that fails changes nothing, and ends a series of merges; those before it stand. So does
something supplied that becomes no value.
-/

namespace Rfc6570

structure Store where
  entries : List (RawText × Value) := []

namespace Store

def empty : Store := {}

def find? (s : Store) (name : RawText) : Option Value :=
  Assoc.find? name s.entries

def contains (s : Store) (name : RawText) : Bool :=
  (s.find? name).isSome

def size (s : Store) : Nat :=
  s.entries.length

def names (s : Store) : List RawText :=
  Assoc.keys s.entries

/-- Replaces the value of a name, or adds the name at the end. -/
def put (s : Store) (name : RawText) (value : Value) : Store :=
  ⟨Assoc.put name value s.entries⟩

def erase (s : Store) (name : RawText) : Store :=
  ⟨Assoc.erase name s.entries⟩

def popFirst? (s : Store) : Option (Binding × Store) :=
  match s.entries with
  | [] => none
  | (name, value) :: rest => some (⟨name, value⟩, ⟨rest⟩)

def bindings (s : Store) : List Binding :=
  s.entries.map fun e => ⟨e.1, e.2⟩

/-- Stores are equal when they give the same names equal values, in whichever order. -/
def same (a b : Store) : Bool :=
  a.size == b.size && a.entries.all fun e =>
    match b.find? e.1 with
    | some v => e.2 == v
    | none => false

/-! ### Merging -/

/-- A list's items as keys with empty items. Integers are written in full. -/
def asKeys (items : List Datum) : List (RawText × Datum) :=
  items.map fun d => (d.expanded, .text [])

/-- The value that holds both `current` and `added`: lists are appended to strings and lists, the
items of a list become keys of a map, and a map's entries replace those of a map. -/
def mergeValues? : Value → Value → Option Value
  | .list current, .list added => some (.list (current ++ added))
  | .string current, .list added => some (.list (.text current :: added))
  | .assoc current, .list added => some (.assoc (Assoc.putAll current (asKeys added)))
  | .assoc current, .assoc added => some (.assoc (Assoc.putAll current added))
  | _, _ => none

/-- Gives the name of a binding its value, merged with the value that is there. -/
def merge (s : Store) (b : Binding) : Except Fault Store :=
  match s.find? b.name with
  | none => .ok (s.put b.name b.value)
  | some current =>
    match mergeValues? current b.value with
    | some value => .ok (s.put b.name value)
    | none => .error (.conflict b.name current.kind b.value.kind)

/-- Whether merging `b` makes the items of a list keys of a map. -/
def addsKeys (s : Store) (b : Binding) : Bool :=
  match s.find? b.name, b.value with
  | some (.assoc _), .list _ => true
  | _, _ => false

/-- What a series of merges has come to: the store, the maps that got a list's items as keys, one
by one, and the fault that ended the series. -/
structure Outcome where
  store : Store
  keyed : List RawText := []
  fault? : Option Fault := none

/-- Merges bindings in order, up to the first that does not fit. -/
def mergeAll (s : Store) : List Binding → Outcome
  | [] => { store := s }
  | b :: rest =>
    match s.merge b with
    | .error f => { store := s, fault? := some f }
    | .ok next =>
      let outcome := next.mergeAll rest
      if s.addsKeys b then { outcome with keyed := b.name :: outcome.keyed } else outcome

/-- The store that a series of merges led to, unless one failed. -/
def Outcome.toExcept (o : Outcome) : Except Fault Store :=
  match o.fault? with
  | none => .ok o.store
  | some f => .error f

/-- Merges bindings in order and fails at last with `fault?`, where no merge has failed. -/
def mergeBefore (s : Store) (bs : List Binding) (fault? : Option Fault) : Outcome :=
  let outcome := s.mergeAll bs
  { outcome with fault? := outcome.fault?.or fault? }

/-- The bindings of an assignment, up to the first entry that becomes no value, and the fault there.
Null entries bind nothing. -/
def bindingsOf : Assignment → List Binding × Option Fault
  | [] => ([], none)
  | (name, s) :: rest =>
    if s.isNull then bindingsOf rest
    else
      match Binding.ofSupply name s with
      | .error f => ([], some f)
      | .ok b => (b :: (bindingsOf rest).1, (bindingsOf rest).2)

def update (s : Store) (a : Assignment) : Outcome :=
  s.mergeBefore (bindingsOf a).1 (bindingsOf a).2

def ofAssignment (a : Assignment) : Except Fault Store :=
  (empty.update a).toExcept

/-! ### Expanding -/

def environment (s : Store) : Environment := fun name =>
  (s.find? name).map .ok

/-- A store as an assignment, to which others can be added. -/
def assignment (s : Store) : Assignment :=
  s.entries.map fun e => (e.1, .datum e.2.toDatum)

/-- The values of the store, with those of `above` in their place where it has an entry. -/
def environmentWith (s : Store) (above : Assignment) : Environment :=
  if above.isEmpty then s.environment else (s.assignment.overlay above).environment

/-! ### Reading JSON -/

/-- The entries of a JSON object as an assignment. -/
def assignmentOf (entries : List (Datum × Datum)) : Assignment :=
  entries.map fun e => (e.1.toText, .datum e.2)

/-- The assignment that the text of a JSON object writes. -/
def readJson (t : Text) : Except Fault Assignment :=
  match Json.parse t with
  | .error reason => .error (.assignment t reason)
  | .ok (.map entries) => .ok (assignmentOf entries)
  | .ok _ => .error (.assignment t "expected a JSON object".toList)

def load (s : Store) (t : Text) : Outcome :=
  match readJson t with
  | .error f => { store := s, fault? := some f }
  | .ok a => s.update a

end Store
end Rfc6570
