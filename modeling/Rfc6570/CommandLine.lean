import Rfc6570.CommandLine.Files
import Rfc6570.CommandLine.Request
import Rfc6570.Store.Notation
/-!
The command line tool: a request is expanded with the variables of its arguments and files, and
the report says what is printed. What goes wrong first ends the work; the order is the template,
the typed variables, the abbreviated ones and files, and the expansion.
-/

namespace Rfc6570.CommandLine

structure Report where
  status : Nat
  output : Text := []
  errors : Text := []
  deriving DecidableEq, Repr

/-- What ends a run without a report. -/
inductive Abort
  /-- A file that is not text. -/
  | encoding (f : Text.Utf8Fault)
  /-- A name with a null character, which no file can have. -/
  | nullName
  /-- A fault that is not of the general kind for templates. -/
  | fault (f : Fault)
  deriving DecidableEq, Repr

def Abort.message : Abort → RawText
  | .encoding f => f.message
  | .nullName => "embedded null byte".toList
  | .fault f => f.message

inductive Failure
  | template (f : Fault)
  | file (flaw : FileFlaw) (name : Text)
  | abort (a : Abort)
  deriving DecidableEq, Repr

def logLine (source level message : Text) : Text :=
  source ++ ": ".toList ++ level ++ ": ".toList ++ message ++ ['\n']

def note (message : Text) : Text :=
  logLine "uritemplates".toList "DEBUG".toList message

/-- The notes on the maps that got a list's items as keys. -/
def keyNotes (keyed : List RawText) : List Text :=
  keyed.map fun name =>
    logLine "uritemplates.vars".toList "DEBUG".toList
      ("adding list items of ".toList ++ name.shown ++ " as map keys".toList)

/-! ### Variables -/

/-- How far the collecting of variables has come. -/
structure Loading where
  store : Store := {}
  notes : List Text := []
  failure? : Option Failure := none

namespace Loading

def merge (l : Loading) (bindings : List Binding) : Loading :=
  let outcome := l.store.mergeAll bindings
  { store := outcome.store
    notes := l.notes ++ keyNotes outcome.keyed
    failure? := outcome.fault?.map Failure.template }

def fail (l : Loading) (f : Failure) : Loading :=
  { l with failure? := some f }

/-- Takes the variables of a store of its own, when that store came about. -/
def takeStore (l : Loading) (outcome : Store.Outcome) : Loading :=
  let l := { l with notes := l.notes ++ keyNotes outcome.keyed }
  match outcome.fault? with
  | some f => l.fail (.template f)
  | none => l.merge outcome.store.bindings

def takeParam (l : Loading) (param : Text) : Loading :=
  match Binding.parse [param] with
  | .error f => l.fail (.template f)
  | .ok b => l.merge [b]

def takeFile (read : Reader) (l : Loading) (name : Text) : Loading :=
  let l := { l with notes := l.notes ++ [note ("loading variables from ".toList ++ name)] }
  if name.contains '\x00' then l.fail (.abort .nullName)
  else
    match read name with
    | .error flaw => l.fail (.file flaw name)
    | .ok data =>
      match decodeFile data with
      | .error f => l.fail (.abort (.encoding f))
      | .ok text => l.takeStore (Store.empty.load text)

/-- Takes a variable in abbreviated notation, or behind an at sign the variables of a file. -/
def takeExpression (read : Reader) (l : Loading) (expression : Text) : Loading :=
  match expression with
  | '@' :: name => l.takeFile read name
  | _ => l.takeStore (Store.empty.set expression)

def andThen (take : Loading → Text → Loading) (l : Loading) (arg : Text) : Loading :=
  if l.failure?.isSome then l else take l arg

def ofRequest (read : Reader) (r : Request) : Loading :=
  let typed := r.params.foldl (andThen takeParam) {}
  r.expressions.foldl (andThen (takeExpression read)) typed

end Loading

/-! ### Running -/

def Failure.message : Failure → RawText
  | .template f => f.message
  | .file flaw name => flaw.message name
  | .abort a => a.message

/-- Failures of templates and of files are reported. Any other one ends the run. -/
def Failure.abort? : Failure → Option Abort
  | .template f => if f.kind.lineage.contains .template then none else some (.fault f)
  | .file .. => none
  | .abort a => some a

def failed (notes : List Text) (f : Failure) : Except Abort Report :=
  match f.abort? with
  | some a => .error a
  | none =>
    .ok
      { status := 1
        errors := notes.flatten ++ logLine "uritemplates".toList "ERROR".toList f.message.shown }

/-- Expands the words of a request, which are one template. -/
def expandRequest (read : Reader) (r : Request) : Except Abort Report :=
  match Template.parse r.words.flatten with
  | .error f => failed [] (.template f)
  | .ok t =>
    let loading := Loading.ofRequest read r
    let shown (notes : List Text) := if r.isVerbose then notes else []
    match loading.failure? with
    | some f => failed (shown loading.notes) f
    | none =>
      let notes := shown (loading.notes ++
        [note ("expanding ".toList ++ t.text ++ " with ".toList ++ loading.store.render.shown)])
      let env := loading.store.environment
      match if r.isPartial then t.partialExpand env else t.expand env with
      | .error f => failed notes (.template f)
      | .ok output => .ok { status := 0, output := output ++ ['\n'], errors := notes.flatten }

/-- Runs the tool on its arguments. Without a template word it prints the help text. -/
def run (e : Edition) (read : Reader) (args : List Text) : Except Abort Report :=
  match Command.ofArgs e args with
  | .error f => .ok { status := 2, errors := f.report }
  | .ok .help => .ok { status := 0, output := help }
  | .ok (.expand r) =>
    if r.words.isEmpty then .ok { status := 0, output := help } else expandRequest read r

def filesOf (e : Edition) (args : List Text) : List Text :=
  match Command.ofArgs e args with
  | .ok (.expand r) =>
    r.expressions.filterMap fun
      | '@' :: name => some name
      | _ => none
  | _ => []

end Rfc6570.CommandLine
