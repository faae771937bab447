import Rfc6570.Text.Quoted
/-!
The options of the command line, the texts that explain them, and what can be wrong with
arguments.
-/

namespace Rfc6570.CommandLine

inductive Flag
  | help
  | param
  | params
  | preserve
  | verbose
  deriving DecidableEq, Repr

namespace Flag

def all : List Flag :=
  [.help, .param, .params, .preserve, .verbose]

def letter : Flag → Char
  | .help => 'h'
  | .param => 'T'
  | .params => 't'
  | .preserve => 'P'
  | .verbose => 'v'

def short (f : Flag) : Text :=
  ['-', f.letter]

def long : Flag → Text
  | .help => "--help".toList
  | .param => "--param".toList
  | .params => "--params".toList
  | .preserve => "--partial".toList
  | .verbose => "--verbose".toList

/-- The flag is followed by an argument of its own. -/
def takesArgument : Flag → Bool
  | .param | .params => true
  | _ => false

def title (f : Flag) : Text :=
  f.short ++ '/' :: f.long

def ofLetter? (c : Char) : Option Flag :=
  all.find? fun f => f.letter == c

def ofSpelling? (t : Text) : Option Flag :=
  all.find? fun f => f.short == t || f.long == t

end Flag

inductive UsageFault
  /-- A beginning of more than one long option. -/
  | ambiguous (arg : Text) (matching : List Flag)
  | argumentMissing (flag : Flag)
  /-- Text behind a flag that takes no argument. -/
  | argumentIgnored (flag : Flag) (text : Text)
  | unrecognized (args : List Text)
  deriving Repr

def UsageFault.message : UsageFault → Text
  | .ambiguous arg matching =>
    "ambiguous option: ".toList ++ arg ++ " could match ".toList
      ++ ", ".toList.intercalate (matching.map Flag.long)
  | .argumentMissing flag =>
    "argument ".toList ++ flag.title ++ ": expected one argument".toList
  | .argumentIgnored flag text =>
    "argument ".toList ++ flag.title ++ ": ignored explicit argument ".toList ++ text.quoted
  | .unrecognized args => "unrecognized arguments: ".toList ++ Text.join ' ' args

def lines (ls : List String) : Text :=
  ls.flatMap fun l => l.toList ++ ['\n']

def usage : Text :=
  lines ["usage: toupee [-h] [-T VAR] [-t EXPR] [-P] [-v] [template ...]"]

def help : Text :=
  usage ++ lines [
    "",
    "Expands RFC 6570 (level 4) URI templates",
    "",
    "positional arguments:",
    "  template              URI template, multiple words are concatenated",
    "",
    "options:",
    "  -h, --help            show this help message and exit",
    "  -T VAR, --param VAR   Specify a value used to fill the template, as",
    "                        [type,]name=value",
    "  -t EXPR, --params EXPR",
    "                        Specify template parameters using abbreviated syntax,",
    "                        or @file to read JSON",
    "  -P, --partial         Partially expand the template by preserving missing",
    "                        variables",
    "  -v, --verbose         Log debug output to stderr"]

def UsageFault.report (f : UsageFault) : Text :=
  usage ++ "toupee: error: ".toList ++ f.message ++ ['\n']

end Rfc6570.CommandLine
