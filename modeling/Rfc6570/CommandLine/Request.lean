import Rfc6570.CommandLine.Usage
import Rfc6570.Edition
import Rfc6570.Text.Digit
/-!
From arguments to a request. Options may be abbreviated, single letters may stand together
behind one dash, and an argument of an option may be attached to it. The words of the template
stand in one row; a word apart from them is not recognized.
-/

namespace Rfc6570.CommandLine

structure Request where
  words : List Text := []
  params : List Text := []
  /-- Variables in abbreviated notation and files of variables, in order. -/
  expressions : List Text := []
  isPartial : Bool := false
  isVerbose : Bool := false
  deriving Repr

inductive Command
  | help
  | expand (request : Request)
  deriving Repr

/-! ### Telling words from options -/

/-- Text that is attached to a flag, behind an equals sign or directly. -/
structure Attached where
  isBehindSign : Bool
  text : Text
  deriving Repr

inductive Token
  | word (t : Text)
  /-- Two dashes: all arguments behind them are words. -/
  | dashes
  | option (isShort : Bool) (flag : Flag) (attached? : Option Attached)
  | unknown (arg : Text)
  deriving Repr

/-- A dash and a number, with or without a point in it. A line feed may end it. -/
def isNegativeNumber (arg : Text) : Bool :=
  match arg with
  | '-' :: rest =>
    let body := if rest.getLast? = some '\n' then rest.dropLast else rest
    let isDigit (c : Char) := (Text.digitValue? c).isSome
    let (whole, after) := body.span isDigit
    match after with
    | [] => !whole.isEmpty
    | '.' :: digits => !digits.isEmpty && digits.all isDigit
    | _ => false
  | _ => false

/-- The options that `arg` may abbreviate, with what is attached to them. -/
def candidates (arg : Text) : List Token :=
  match arg with
  | '-' :: '-' :: _ =>
    let (name, attached?) : Text × Option Attached :=
      match Text.cut? '=' arg with
      | some (name, text) => (name, some ⟨true, text⟩)
      | none => (arg, none)
    (Flag.all.filter fun f => name.isPrefixOf f.long).map fun f => .option false f attached?
  | '-' :: c :: rest => ((Flag.ofLetter? c).map fun f => .option true f (some ⟨false, rest⟩)).toList
  | _ => []

/-- The option that is spelled out in `arg`, alone or in front of an equals sign. -/
def spelledOut? (arg : Text) : Option Token :=
  let isShort (t : Text) := t.length == 2
  match Flag.ofSpelling? arg with
  | some f => some (.option (isShort arg) f none)
  | none => do
    let (name, text) ← Text.cut? '=' arg
    let f ← Flag.ofSpelling? name
    pure (.option (isShort name) f (some ⟨true, text⟩))

def flagsOf (tokens : List Token) : List Flag :=
  tokens.filterMap fun
    | .option _ f _ => some f
    | _ => none

/-- What an argument in front of the two dashes is. -/
def classify (arg : Text) : Except UsageFault Token :=
  if arg.head? ≠ some '-' ∨ arg.length = 1 then .ok (.word arg)
  else
    match spelledOut? arg with
    | some token => .ok token
    | none =>
      match candidates arg with
      | [token] => .ok token
      | [] => .ok (if isNegativeNumber arg || arg.contains ' ' then .word arg else .unknown arg)
      | tokens => .error (.ambiguous arg (flagsOf tokens))

def tokenize : List Text → Except UsageFault (List Token)
  | [] => .ok []
  | arg :: rest =>
    if arg = ['-', '-'] then .ok (.dashes :: rest.map Token.word)
    else do
      let token ← classify arg
      let tokens ← tokenize rest
      pure (token :: tokens)

/-! ### Acting on options -/

/-- What is to be done for an option: flags without an argument, then possibly a flag with the
argument attached to it or still to come, or letters that are not recognized. -/
structure Actions where
  flags : List Flag := []
  withText? : Option (Flag × Text) := none
  awaiting? : Option Flag := none
  unknown? : Option Text := none

def Actions.ofFlag (f : Flag) : Actions :=
  if f.takesArgument then { awaiting? := some f } else { flags := [f] }

/-- The actions of a flag in front of those of the flags behind it. -/
def Actions.behind (f : Flag) (a : Actions) : Actions :=
  { a with flags := f :: a.flags }

/-- The actions of `f`, a single letter, with `text` behind it. An equals sign sets off an argument.
Behind a flag without one, more flags may follow as single letters, up to letters that are not
recognized. -/
def attachShort (f : Flag) (text : Text) : Except UsageFault Actions :=
  match text with
  | [] => .ok (Actions.ofFlag f)
  | '=' :: argument =>
    if f.takesArgument then .ok { withText? := some (f, argument) }
    else .error (.argumentIgnored f argument)
  | c :: rest =>
    if f.takesArgument then .ok { withText? := some (f, text) }
    else if c = '-' then .error (.argumentIgnored f text)
    else
      match Flag.ofLetter? c with
      | none => .ok { flags := [f], unknown? := some ('-' :: text) }
      | some g => (attachShort g rest).map (Actions.behind f)

/-- The actions of `f` by the earlier rules, in which an equals sign sets off an argument of the
first letter only, and letters that are no flags are refused. -/
def attachShortEarlier (f : Flag) (text : Text) : Except UsageFault Actions :=
  if f.takesArgument then .ok { withText? := some (f, text) }
  else
    match text with
    | [] => .error (.argumentIgnored f text)
    | c :: rest =>
      match Flag.ofLetter? c with
      | none => .error (.argumentIgnored f text)
      | some g =>
        (if rest.isEmpty then .ok (Actions.ofFlag g) else attachShortEarlier g rest).map
          (Actions.behind f)

def attach (e : Edition) (isShort : Bool) (f : Flag) (a : Attached) : Except UsageFault Actions :=
  if isShort then
    match e with
    | .earlier => attachShortEarlier f a.text
    | .current => attachShort f (if a.isBehindSign then '=' :: a.text else a.text)
  else if f.takesArgument then .ok { withText? := some (f, a.text) }
  else .error (.argumentIgnored f a.text)

/-- Where the row of template words is: still ahead, here, or past. -/
inductive Row
  | ahead
  | here
  | past
  deriving DecidableEq, Repr

structure State where
  request : Request := {}
  row : Row := .ahead
  extras : List Text := []

/-- A reading that is over early: help was asked for, or the arguments are wrong. -/
inductive Halt
  | help
  | fault (f : UsageFault)

def Request.withFlag (r : Request) : Flag → Request
  | .preserve => { r with isPartial := true }
  | .verbose => { r with isVerbose := true }
  | _ => r

def Request.withText (r : Request) (f : Flag) (text : Text) : Request :=
  match f with
  | .param => { r with params := r.params ++ [text] }
  | .params => { r with expressions := r.expressions ++ [text] }
  | _ => r

/-- Takes a word, or two dashes, which are no part of the template. -/
def State.takeWord (s : State) (word? : Option Text) : State :=
  if s.row = .past then { s with extras := s.extras ++ [word?.getD ['-', '-']] }
  else
    { s with
      row := .here
      request := { s.request with words := s.request.words ++ word?.toList } }

/-- An option ends the row of words. -/
def State.endRow (s : State) : State :=
  if s.row = .here then { s with row := .past } else s

def State.takeFlags (s : State) (flags : List Flag) : Except Halt State :=
  if flags.contains .help then .error .help
  else .ok { s with request := flags.foldl Request.withFlag s.request }

def State.takeText (s : State) (withText? : Option (Flag × Text)) : State :=
  { s with request := withText?.elim s.request fun (f, text) => s.request.withText f text }

def State.takeUnknown (s : State) (args : List Text) : State :=
  { s with extras := s.extras ++ args }

def actionsOf (e : Edition) (isShort : Bool) (f : Flag) (attached? : Option Attached) :
    Except UsageFault Actions :=
  match attached? with
  | none => .ok (Actions.ofFlag f)
  | some a => attach e isShort f a

/-- Reads tokens. An option whose argument is still to come waits with the flags in front of it,
which are not taken before the argument is there. -/
def readTokens (e : Edition) (s : State) :
    Option (List Flag × Flag) → List Token → Except Halt State
  | none, [] => .ok s
  | none, .word t :: rest => readTokens e (s.takeWord (some t)) none rest
  | none, .dashes :: rest => readTokens e (s.takeWord none) none rest
  | none, .unknown arg :: rest => readTokens e (s.endRow.takeUnknown [arg]) none rest
  | none, .option isShort f attached? :: rest => do
    let actions ← (actionsOf e isShort f attached?).mapError Halt.fault
    match actions.awaiting? with
    | some g => readTokens e s (some (actions.flags, g)) rest
    | none => do
      let s ← s.endRow.takeFlags actions.flags
      readTokens e ((s.takeText actions.withText?).takeUnknown actions.unknown?.toList) none rest
  | some (flags, g), .word t :: rest => do
    let s ← s.endRow.takeFlags flags
    readTokens e { s with request := s.request.withText g t } none rest
  | some (_, g), _ => .error (.fault (.argumentMissing g))

def Command.ofArgs (e : Edition) (args : List Text) : Except UsageFault Command := do
  let tokens ← tokenize args
  match readTokens e {} none tokens with
  | .error .help => pure .help
  | .error (.fault f) => .error f
  | .ok s => if s.extras.isEmpty then pure (.expand s.request) else .error (.unrecognized s.extras)

end Rfc6570.CommandLine
