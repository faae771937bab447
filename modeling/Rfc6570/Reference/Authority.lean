import Rfc6570.Characters
import Rfc6570.Fault
/-!
Checks on the authority of a URI reference. A host in brackets is an address of eight groups of
hexadecimal digits, in which a double colon stands for groups of zeros and the last two groups
may be written as a four-part address, or it has the form that is kept for future versions.
-/

namespace Rfc6570.Reference

def isOctet (t : Text) : Bool :=
  !t.isEmpty && t.length ≤ 3 && t.all Characters.digit.contains && (t == ['0'] || t.head? != some '0')
    && Nat.ofDigitChars 10 t 0 ≤ 255

def isFourParts (t : Text) : Bool :=
  let parts := t.splitOn '.'
  parts.length == 4 && parts.all isOctet

def isGroup (t : Text) : Bool :=
  !t.isEmpty && t.length ≤ 4 && t.all Characters.hexDigit.contains

/-- How many groups stand between the colons of `t`; nothing when one of them is no group. A
four-part address at the end, where `fourParts` allows it, counts as two. -/
def groupCount? (fourParts : Bool) (t : Text) : Option Nat :=
  let parts := t.splitOn ':'
  match parts.getLast? with
  | none => none
  | some last =>
    if fourParts && isFourParts last && parts.dropLast.all isGroup then some (parts.length + 1)
    else if parts.all isGroup then some parts.length
    else none

def cutDoubleColon? : Text → Option (Text × Text)
  | ':' :: ':' :: rest => some ([], rest)
  | c :: rest => (cutDoubleColon? rest).map fun (before, after) => (c :: before, after)
  | [] => none

/-- The number of groups on one side of a double colon, which may be none. -/
def sideCount? (fourParts : Bool) (t : Text) : Option Nat :=
  if t.isEmpty then some 0 else groupCount? fourParts t

/-- Eight groups, or at most seven with a double colon among them. -/
def isGroups (t : Text) : Bool :=
  match cutDoubleColon? t with
  | none => groupCount? true t == some 8
  | some (before, after) =>
    match sideCount? false before, sideCount? true after with
    | some a, some b => a + b ≤ 7
    | _, _ => false

/-- An address, with or without a zone behind a percent sign. -/
def isAddress (t : Text) : Bool :=
  match Text.cut? '%' t with
  | none => isGroups t
  | some (address, zone) => !zone.isEmpty && !zone.contains '%' && isGroups address

/-- The form for future versions: `v`, hexadecimal digits, a point, and something more. -/
def isFuture (t : Text) : Bool :=
  let (version, rest) := (t.drop 1).span Characters.hexDigit.contains
  !version.isEmpty && rest.head? == some '.' && 2 ≤ rest.length

def checkBracketed (host : Text) : Except AuthorityFlaw Unit :=
  if host.head? = some 'v' then
    if isFuture host then .ok () else .error .future
  else if isFourParts host then .error .fourParts
  else if isAddress host then .ok ()
  else .error (.address host)

/-- The host of an authority, behind the last at sign. A bracket that opens stands in front of all
of it, and behind the one that closes nothing stands, or a colon. -/
def hostOf (authority : Text) : Except AuthorityFlaw Text :=
  let location := (authority.reverse.takeWhile (· != '@')).reverse
  match Text.cut? '[' location with
  | none => .ok (Text.cut ':' location).1
  | some ([], bracketed) =>
    let (host, after) := Text.cut ']' bracketed
    if after.isEmpty || after.head? == some ':' then .ok host else .error .bracket
  | some _ => .error .bracket

/-- Brackets come in pairs. An authority with brackets has an address for its host. -/
def checkBrackets (authority : Text) : Except AuthorityFlaw Unit :=
  match authority.contains '[', authority.contains ']' with
  | false, false => .ok ()
  | true, true => hostOf authority >>= checkBracketed
  | _, _ => .error .bracket

/-- The characters that have a delimiter of URI references in their compatibility form. -/
def disguised : List Nat :=
  [0x2047, 0x2048, 0x2049, 0x2100, 0x2101, 0x2105, 0x2106, 0x2A74, 0xFE13, 0xFE16, 0xFE55, 0xFE56,
    0xFE5F, 0xFE6B, 0xFF03, 0xFF0F, 0xFF1A, 0xFF1F, 0xFF20]

/-- No character of an authority stands for a delimiter in disguise. -/
def checkCharacters (authority : Text) : Except AuthorityFlaw Unit :=
  if authority.any fun c => disguised.contains c.toNat then .error (.compatibility authority)
  else .ok ()

end Rfc6570.Reference
