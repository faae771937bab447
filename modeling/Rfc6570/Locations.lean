import Rfc6570.Reference
import Rfc6570.Store
/-!
Locations: a list of URI references or templates, variables for the templates, and a base. Each
location is resolved relative to the one before it, and the first relative to the base. Once
there is a variable all locations are expanded as templates first.
-/

namespace Rfc6570

structure Locations where
  locations : List Text := []
  store : Store := {}
  base? : Option Text := none

namespace Locations

/-- Completes an address that begins with a colon, and a bare host name. -/
def complete (address : Text) : Text :=
  let address := if address.head? = some ':' then "http://localhost".toList ++ address else address
  if address.isEmpty || address.head? == some '/' then address
  else if "http://".toList.isPrefixOf address || "https://".toList.isPrefixOf address then address
  else "http://".toList ++ address

/-- A function that resolves a reference, the second text, at a base. -/
abbrev Join := Text → Text → Except Fault Text

def add (l : Locations) (location : Text) : Locations :=
  { l with locations := l.locations ++ [location] }

/-- Merges bindings into the variables, up to the first that does not fit. -/
def addBindings (l : Locations) (bindings : List Binding) : Locations × Option Fault :=
  let outcome := l.store.mergeAll bindings
  ({ l with store := outcome.store }, outcome.fault?)

/-- Sets the base, resolved at the base that is set already. -/
def setBaseWith (join : Join) (l : Locations) (base : Text) : Except Fault Locations :=
  match l.base? with
  | none | some [] => .ok { l with base? := some base }
  | some old => do
    let resolved ← join old base
    pure { l with base? := some resolved }

/-- The text of a location, expanded as a template. -/
def expandLocation (s : Store) (location : Text) : Except Fault Text := do
  let t ← Template.parse location
  t.expand s.environment

/-- The locations before they are resolved. -/
def expanded (l : Locations) : Except Fault (List Text) :=
  if l.store.entries.isEmpty then .ok l.locations
  else l.locations.mapM (expandLocation l.store)

/-- Resolves each location at the one before it. -/
def chain (join : Join) (before : Text) : List Text → Except Fault (List Text)
  | [] => .ok []
  | location :: rest => do
    let resolved ← join before location
    let others ← chain join resolved rest
    pure (resolved :: others)

/-- The first location, completed and resolved at the base. -/
def resolveFirst (join : Join) (base? : Option Text) (location : Text) : Except Fault Text :=
  match base? with
  | none | some [] => .ok (complete location)
  | some base => join base (complete location)

/-- The resolved locations, with `join` for resolving one reference at another. -/
def resolveWith (join : Join) (l : Locations) : Except Fault (List Text) := do
  match ← l.expanded with
  | [] => pure []
  | first :: rest =>
    let resolved ← resolveFirst join l.base? first
    let others ← chain join resolved rest
    pure (resolved :: others)

def setBase (e : Edition) (l : Locations) (base : Text) : Except Fault Locations :=
  setBaseWith (Reference.join e) l base

def resolve (e : Edition) (l : Locations) : Except Fault (List Text) :=
  resolveWith (Reference.join e) l

end Locations
end Rfc6570
