import Rfc6570.CommandLine
/-!
The entry point of the command line tool. It reads the files that the arguments name and prints
the report.
-/

namespace Rfc6570.CommandLine

def fileFlaw : IO.Error → FileFlaw
  | .noFileOrDirectory .. => .missing
  | .inappropriateType .. => .isDirectory
  | .permissionDenied .. => .denied
  | _ => .failed

def readFile (name : Text) : IO (Except FileFlaw (List UInt8)) := do
  try
    let data ← IO.FS.readBinFile (String.ofList name)
    pure (.ok data.toList)
  catch e => pure (.error (fileFlaw e))

end Rfc6570.CommandLine

def main (args : List String) : IO UInt32 := do
  let args := args.map String.toList
  let files ← (Rfc6570.CommandLine.filesOf .current args).mapM fun name => do
    let content ← Rfc6570.CommandLine.readFile name
    pure (name, content)
  let read : Rfc6570.CommandLine.Reader := fun name =>
    (Rfc6570.Assoc.find? name files).getD (.error .missing)
  match Rfc6570.CommandLine.run .current read args with
  | .error abort => do
    IO.eprintln (String.ofList abort.message.shown)
    pure 1
  | .ok report => do
    IO.print (String.ofList report.output)
    IO.eprint (String.ofList report.errors)
    pure (UInt32.ofNat report.status)
