import Rfc6570.Text.Quoted
import Rfc6570.Text.Utf8
/-!
Files of variables: how one is found by its name, what can go wrong, and how its bytes become
text, in which every line ends with a line feed.
-/

namespace Rfc6570.CommandLine

inductive FileFlaw
  | missing
  | notDirectory
  | isDirectory
  | nameTooLong
  | denied
  | failed
  deriving DecidableEq, Repr

def FileFlaw.describe : FileFlaw → Nat × Text
  | .missing => (2, "No such file or directory".toList)
  | .notDirectory => (20, "Not a directory".toList)
  | .isDirectory => (21, "Is a directory".toList)
  | .nameTooLong => (36, "File name too long".toList)
  | .denied => (13, "Permission denied".toList)
  | .failed => (5, "Input/output error".toList)

def FileFlaw.message (f : FileFlaw) (name : Text) : Text :=
  let (number, text) := f.describe
  "[Errno ".toList ++ Text.decimal number ++ "] ".toList ++ text ++ ": ".toList ++ name.quoted

/-- What reading a file by name gives. -/
abbrev Reader := Text → Except FileFlaw (List UInt8)

/-- A directory of files, without directories in it. -/
abbrev Directory := List (Text × List UInt8)

/-- Follows the steps of a path. A point stays in the directory, and no step leads on from a
file. -/
def Directory.follow (d : Directory) : List Text → Except FileFlaw (List UInt8)
  | [] => .error .isDirectory
  | step :: rest =>
    if step.isEmpty ∨ step = ['.'] then d.follow rest
    else if step = ['.', '.'] then .error (if rest.isEmpty then .isDirectory else .missing)
    else if 255 < (Text.utf8 step).length then .error .nameTooLong
    else
      match d.find? fun e => e.1 == step with
      | none => .error .missing
      | some e => if rest.isEmpty then .ok e.2 else .error .notDirectory

/-- Finds a file by its path, which has fewer than 4096 bytes. -/
def Directory.reader (d : Directory) : Reader := fun name =>
  if name.isEmpty then .error .missing
  else if 4096 ≤ (Text.utf8 name).length then .error .nameTooLong
  else d.follow (name.splitOn '/')

/-- A carriage return, with or without a line feed behind it, becomes a line feed. -/
def newlines : Text → Text
  | '\r' :: '\n' :: rest => '\n' :: newlines rest
  | '\r' :: rest => '\n' :: newlines rest
  | c :: rest => c :: newlines rest
  | [] => []

def decodeFile (data : List UInt8) : Except Text.Utf8Fault Text :=
  (Text.ofUtf8 data).map newlines

end Rfc6570.CommandLine
