import Rfc6570.Text.Quoted
/-!
What can go wrong, as one inductive type of causes. `Fault.message` holds every wording, and
`FaultKind.lineage` says which kinds are cases of which more general kind.
-/

namespace Rfc6570

/-- What is wrong with the authority of a URI reference. -/
inductive AuthorityFlaw
  /-- Only one of the two brackets occurs, or text stands next to the brackets of the host. -/
  | bracket
  /-- A bracketed host that begins as the form for future versions and goes on otherwise. -/
  | future
  /-- A bracketed host that is an address of the older, four-part form. -/
  | fourParts
  /-- A bracketed host that is no address. -/
  | address (host : Text)
  /-- A character that stands for a delimiter in compatibility form. -/
  | compatibility (authority : Text)
  deriving DecidableEq, Repr

def AuthorityFlaw.message : AuthorityFlaw → Text
  | .bracket => "Invalid IPv6 URL".toList
  | .future => "IPvFuture address is invalid".toList
  | .fourParts => "An IPv4 address cannot be in brackets".toList
  | .address host => host.quoted ++ " does not appear to be an IPv4 or IPv6 address".toList
  | .compatibility authority =>
    "netloc '".toList ++ authority
      ++ "' contains invalid characters under NFKC normalization".toList

/-- Kinds of fault. The first is the general kind that the others here are cases of, except for the
last three: `authority` belongs to URI references and not to templates, `digits` and `surrogates` to
numbers and strings that cannot be written. -/
inductive FaultKind
  | template
  | varspec
  | varname
  | repeatedColon
  | prefixLength
  | modifiers
  | expansion
  | mapPrefix
  | malformed
  | conflict
  | assignment
  | authority
  | digits
  | surrogates
  deriving DecidableEq, Repr

namespace FaultKind

/-- The kind that a kind is a case of. -/
def parent? : FaultKind → Option FaultKind
  | .template | .authority | .digits | .surrogates => none
  | .varspec | .expansion | .malformed | .conflict | .assignment => some .template
  | .varname | .repeatedColon | .prefixLength | .modifiers => some .varspec
  | .mapPrefix => some .expansion

/-- A kind followed by the ever more general kinds it is a case of. -/
def lineage (k : FaultKind) : List FaultKind :=
  match k.parent? with
  | none => [k]
  | some p => k :: p :: p.parent?.toList

end FaultKind

inductive Fault
  | template (notes : List Text)
  | varspec (spec : Text)
  | varname (name : Text)
  | repeatedColon (spec : Text)
  | prefixLength (spec : Text)
  | modifiers (spec : Text)
  | expansion (spec : Text)
  | mapPrefix (spec : Text)
  | malformed (source reason : Text)
  | conflict (name : RawText) (existing added : Text)
  | assignment (text reason : Text)
  | authority (flaw : AuthorityFlaw)
  /-- An integer with more digits than are written. -/
  | digits
  /-- Surrogates in a string that has to be encoded. -/
  | surrogates (found : Surrogates)
  deriving DecidableEq, Repr

namespace Fault

def kind : Fault → FaultKind
  | .template _ => .template
  | .varspec _ => .varspec
  | .varname _ => .varname
  | .repeatedColon _ => .repeatedColon
  | .prefixLength _ => .prefixLength
  | .modifiers _ => .modifiers
  | .expansion _ => .expansion
  | .mapPrefix _ => .mapPrefix
  | .malformed .. => .malformed
  | .conflict .. => .conflict
  | .assignment .. => .assignment
  | .authority _ => .authority
  | .digits => .digits
  | .surrogates _ => .surrogates

/-- One note stands for itself, several are listed. -/
def notesMessage : List Text → Text
  | [] => []
  | [note] => note
  | notes => '(' :: ", ".toList.intercalate (notes.map Text.quoted) ++ [')']

def message : Fault → RawText
  | .template notes => notesMessage notes
  | .varspec spec => "Bad term: ".toList ++ spec
  | .varname name => "Not a valid name: ".toList ++ name
  | .repeatedColon spec => "Multiple colons in same term: ".toList ++ spec
  | .prefixLength spec => "Bad prefix length: ".toList ++ spec
  | .modifiers spec => "Both explode and prefix modifiers on same term: ".toList ++ spec
  | .expansion spec => "Bad expansion: ".toList ++ spec
  | .mapPrefix spec => "Cannot truncate a map expansion: ".toList ++ spec
  | .malformed source reason =>
    "Malformed template (".toList ++ reason ++ "): ".toList ++ source
  | .conflict name existing added =>
    Text.raw "Existing value of ".toList ++ name ++ Text.raw (" is ".toList ++ existing
      ++ ", cannot apply ".toList ++ added)
  | .assignment text reason =>
    "Invalid template var ".toList ++ text.quoted ++ ": ".toList ++ reason
  | .authority flaw => flaw.message
  | .digits =>
    "Exceeds the limit (".toList ++ Text.decimal Text.maxDigits
      ++ " digits) for integer string conversion; ".toList
      ++ "use sys.set_int_max_str_digits() to increase the limit".toList
  | .surrogates found => found.message

end Fault
end Rfc6570
