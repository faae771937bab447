import Rfc6570.Edition
import Rfc6570.Reference.Authority
/-!
URI references: a scheme, an authority, a path with parameters in its last segment, a query and
a fragment. `Reference.resolve` gives the reference that another one means when it is met in a
document at a base: what the reference leaves out is taken from the base, and the segments `.`
and `..` of the path are worked off.
-/

namespace Rfc6570

structure Reference where
  scheme : Text := []
  authority : Text := []
  path : Text := []
  params : Text := []
  query : Text := []
  fragment : Text := []
  deriving DecidableEq, Repr

namespace Reference

/-! ### Schemes -/

/-- The schemes with an authority that know relative references. -/
def hierarchical (e : Edition) : List Text :=
  [[], "ftp".toList, "http".toList, "gopher".toList, "nntp".toList, "imap".toList, "wais".toList,
    "file".toList, "https".toList, "shttp".toList, "mms".toList, "prospero".toList, "rtsp".toList,
    "rtspu".toList, "sftp".toList, "svn".toList, "svn+ssh".toList, "ws".toList, "wss".toList]
    ++ e.adding ["rtsps".toList]

def withAuthority (e : Edition) : List Text :=
  hierarchical e ++
    ["telnet".toList, "snews".toList, "rsync".toList, "nfs".toList, "git".toList,
      "git+ssh".toList] ++ e.adding ["itms-services".toList]

/-- The schemes in which the last segment of a path may have parameters. -/
def withParams (e : Edition) : List Text :=
  [[], "ftp".toList, "hdl".toList, "prospero".toList, "http".toList, "imap".toList,
    "https".toList, "shttp".toList, "rtsp".toList, "rtspu".toList, "sip".toList, "sips".toList,
    "mms".toList, "sftp".toList, "tel".toList] ++ e.adding ["rtsps".toList]

def isSchemeChar (c : Char) : Bool :=
  c.isAlphanum || c == '+' || c == '-' || c == '.'

/-! ### Reading -/

/-- A reference without the control characters and spaces in front of it, and without tabs and
line ends anywhere. -/
def clean (t : Text) : Text :=
  (t.dropWhile fun c => c.toNat ≤ 32).filter fun c => !(c == '\t' || c == '\n' || c == '\r')

/-- The scheme in lower case and what follows it; `base` when there is none. -/
def readScheme (base t : Text) : Text × Text :=
  match Text.cut? ':' t with
  | some (c :: name, rest) =>
    if c.isAlpha && name.all isSchemeChar then ((c :: name).map Char.toLower, rest) else (base, t)
  | _ => (base, t)

def endsAuthority (c : Char) : Bool :=
  c == '/' || c == '?' || c == '#'

/-- The authority behind two slashes, and what follows it. -/
def readAuthority : Text → Text × Text
  | '/' :: '/' :: rest => rest.span fun c => !endsAuthority c
  | t => ([], t)

/-- The parameters of the last segment of a path, behind its first semicolon. -/
def readParams (path : Text) : Text × Text :=
  let last := (path.reverse.takeWhile (· != '/')).reverse
  match Text.cut? ';' last with
  | some (segment, params) => (path.take (path.length - last.length) ++ segment, params)
  | none => (path, [])

/-- Reads a reference that has the scheme `base` unless it names one. -/
def parse (e : Edition) (base t : Text) : Except Fault Reference := do
  let (scheme, rest) := readScheme base (clean t)
  let (authority, rest) := readAuthority rest
  (checkBrackets authority).mapError Fault.authority
  let (rest, fragment) := Text.cut '#' rest
  let (path, query) := Text.cut '?' rest
  (checkCharacters authority).mapError Fault.authority
  let (path, params) := if (withParams e).contains scheme then readParams path else (path, [])
  pure { scheme, authority, path, params, query, fragment }

/-! ### Writing -/

/-- A path behind its authority, which begins with two slashes. Without an authority they are
written for the schemes that have one, unless the path begins with two slashes itself. -/
def renderPath (e : Edition) (r : Reference) (path : Text) : Text :=
  if !r.authority.isEmpty
      || (!r.scheme.isEmpty && (withAuthority e).contains r.scheme
        && path.take 2 != ['/', '/']) then
    let slash := if path.isEmpty || path.head? == some '/' then [] else ['/']
    '/' :: '/' :: r.authority ++ slash ++ path
  else path

def marked (mark : Char) (t : Text) : Text :=
  if t.isEmpty then [] else mark :: t

def render (e : Edition) (r : Reference) : Text :=
  (if r.scheme.isEmpty then [] else r.scheme ++ [':'])
    ++ r.renderPath e (r.path ++ marked ';' r.params) ++ marked '?' r.query ++ marked '#' r.fragment

/-! ### Resolving -/

/-- Works off a segment: `..` drops the segment before it, if there is one, and `.` nothing. -/
def walk (done : List Text) (segment : Text) : List Text :=
  if segment = ['.', '.'] then done.dropLast
  else if segment = ['.'] then done
  else done ++ [segment]

/-- Every segment but the first and the last, without the empty ones. -/
def squeeze : List Text → List Text
  | [] => []
  | [s] => [s]
  | first :: rest => first :: rest.dropLast.filter (!·.isEmpty) ++ rest.getLast?.toList

/-- The segments of a base path that a relative path is put behind. -/
def directory (path : Text) : List Text :=
  let segments := path.splitOn '/'
  if segments.getLast? = some [] then segments else segments.dropLast

/-- The path that `path` means next to the path `base`. -/
def resolvePath (base path : Text) : Text :=
  let segments :=
    if path.head? = some '/' then path.splitOn '/'
    else squeeze (directory base ++ path.splitOn '/')
  let done := segments.foldl walk []
  let isDirectory := segments.getLast? = some ['.'] ∨ segments.getLast? = some ['.', '.']
  let joined := Text.join '/' (if isDirectory then done ++ [[]] else done)
  if joined.isEmpty then ['/'] else joined

/-- The reference that `r`, of the same scheme as `base`, means at `base`. -/
def resolve (base r : Reference) : Reference :=
  if !r.authority.isEmpty then r
  else if r.path.isEmpty && r.params.isEmpty then
    { r with
      authority := base.authority, path := base.path, params := base.params
      query := if r.query.isEmpty then base.query else r.query }
  else { r with authority := base.authority, path := resolvePath base.path r.path }

/-- The text of the reference that `t` means at `base`. A reference with another scheme, or with
one that knows no relative references, stays as it is. -/
def join (e : Edition) (base t : Text) : Except Fault Text := do
  if base.isEmpty then pure t
  else if t.isEmpty then pure base
  else
    let b ← parse e [] base
    let r ← parse e b.scheme t
    if r.scheme ≠ b.scheme ∨ !(hierarchical e).contains r.scheme then pure t
    else pure ((resolve b r).render e)

end Reference
end Rfc6570
