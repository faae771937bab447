import Rfc6570.PercentEncoding
import Rfc6570.Template
import Rfc6570.Value
/-!
Expansion of templates. An expression is expanded variable by variable: what a variable with a
value expands to is written after the operator's separator once something has been written, and
a variable without a value is left for a later pass. Partial expansion writes the variables that
were left as an expression behind the output. What is supplied for a variable becomes a value, and a
value is put into texts, only where the variable is expanded, so that what fails in it fails there.
-/

namespace Rfc6570

/-- The value that something supplied becomes, if it becomes one. -/
abbrev Given := Except Fault Value

/-- What is given for every variable that something is supplied for. -/
abbrev Environment := Text → Option Given

namespace Expression

def encode (op : Operator) (data : List UInt8) : Text :=
  PercentEncoding.encode op.keepsReserved data

/-- The first `limit` bytes; all of them when `limit` is zero, and all but the last `-limit`
when it is negative. -/
def truncate (limit : Int) (data : List UInt8) : List UInt8 :=
  if limit = 0 then data
  else if 0 < limit then data.take limit.toNat
  else data.take (data.length - limit.natAbs)

/-- The bytes of a text that a varspec keeps. -/
def kept (v : Varspec) (t : Text) : List UInt8 :=
  truncate v.maxLength t.utf8

/-- The name before a value, for the operators that write it. -/
def nameBefore (op : Operator) (v : Varspec) (isEmpty : Bool) : Text :=
  if op.named then v.name ++ (if isEmpty then op.ifEmpty?.toList else ['=']) else []

def expandString (op : Operator) (v : Varspec) (t : Text) : Text :=
  let data := kept v t
  nameBefore op v data.isEmpty ++ encode op data

def expandList (op : Operator) (v : Varspec) (items : List Text) : Text :=
  if items.isEmpty then []
  else if v.explode then Text.join op.separator (items.map (expandString op v))
  else nameBefore op v false ++ Text.join ',' (items.map fun item => encode op (kept v item))

/-- A key and its item with `between` in the middle. -/
def expandEntry (op : Operator) (between : Char) (entry : Text × Text) : Text :=
  encode op entry.1.utf8 ++ between :: encode op entry.2.utf8

def expandAssoc (op : Operator) (v : Varspec) (entries : List (Text × Text)) : Text :=
  if entries.isEmpty then []
  else if v.explode then Text.join op.separator (entries.map (expandEntry op '='))
  else nameBefore op v false ++ Text.join ',' (entries.map (expandEntry op ','))

def expandPlain (op : Operator) (v : Varspec) : PlainValue → Text
  | .string t => expandString op v t
  | .list items => expandList op v items
  | .assoc entries => expandAssoc op v entries

/-- What something supplied expands to. An associative array has no prefix, and is refused with one
before its texts are looked at. -/
def expandValue (op : Operator) (v : Varspec) (given : Given) : Except Fault Text := do
  let value ← given
  if v.maxLength ≠ 0 ∧ value.isMap then .error (.mapPrefix v.render)
  else do
    let plain ← value.plain
    pure (expandPlain op v plain)

/-- How far the expansion of an expression has come: what has been written, without what the
operator writes first, and the variables without a value. -/
structure Progress where
  written : Text := []
  missing : List Varspec := []

def step (op : Operator) (env : Environment) (p : Progress) (v : Varspec) :
    Except Fault Progress :=
  match env v.name with
  | none => .ok { p with missing := p.missing ++ [v] }
  | some given => do
    let piece ← expandValue op v given
    let before := if p.written.isEmpty then [] else p.written ++ [op.separator]
    pure { p with written := before ++ piece }

/-- What the variables with a value expand to, and the variables without one. -/
def expandPresent (env : Environment) (e : Expression) : Except Fault (Text × List Varspec) := do
  let p ← e.varspecs.foldlM (step e.operator env) {}
  pure (if p.written.isEmpty then [] else e.operator.first ++ p.written, p.missing)

def expand (env : Environment) (e : Expression) : Except Fault Text := do
  let (output, _) ← e.expandPresent env
  pure output

/-- How a variable is named in the expression that is left: without its prefix. -/
def residualName (v : Varspec) : Text :=
  v.name ++ if v.explode then ['*'] else []

/-- The expression that is left for the variables `missing`. It begins with what the operator
writes first when none of the expression's variables had a value, and else with the separator. -/
def residual (e : Expression) (missing : List Varspec) : Text :=
  let opening := if missing.length = e.varspecs.length then e.operator.first
    else [e.operator.separator]
  '\x7b' :: opening ++ Text.join ',' (missing.map residualName) ++ ['\x7d']

def partialExpand (env : Environment) (e : Expression) : Except Fault Text := do
  let (output, missing) ← e.expandPresent env
  pure (if missing.isEmpty then output else output ++ e.residual missing)

end Expression

namespace Part

def expand (env : Environment) : Part → Except Fault Text
  | .literal text => .ok text
  | .expression e => e.expand env

def partialExpand (env : Environment) : Part → Except Fault Text
  | .literal text => .ok text
  | .expression e => e.partialExpand env

def expandAll (env : Environment) (parts : List Part) : Except Fault Text := do
  let pieces ← parts.mapM (expand env)
  pure pieces.flatten

def partialExpandAll (env : Environment) (parts : List Part) : Except Fault Text := do
  let pieces ← parts.mapM (partialExpand env)
  pure pieces.flatten

end Part

namespace Template

def expand (env : Environment) (t : Template) : Except Fault Text :=
  Part.expandAll env t.parts

/-- The text in which variables without a value are kept as expressions. -/
def partialExpand (env : Environment) (t : Template) : Except Fault Text :=
  Part.partialExpandAll env t.parts

/-- The template that partial expansion leaves, when its text is one. -/
def specialize (env : Environment) (t : Template) : Except Fault Template := do
  let text ← t.partialExpand env
  parse text

end Template

/-- What a caller supplies for variables, each name once. -/
abbrev Assignment := List (RawText × Supply)

namespace Assignment

/-- The assignment `a` with the entries of `above` in place of its own. -/
def overlay (a above : Assignment) : Assignment :=
  Assoc.putAll a above

/-- A variable with no entry or a null one has no value. -/
def environment (a : Assignment) : Environment := fun name =>
  (Assoc.find? (name : RawText) a).bind fun s =>
    if s.isNull then none else some (Value.ofSupply s)

end Assignment
end Rfc6570
