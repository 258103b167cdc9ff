import HttpSuite.CommandLine
import HttpSuite.Folder

/-!
# The program

Opens the files that the arguments name, runs, and prints the outcome.
-/

namespace HttpSuite

/-- The wording of a fault of the file system. -/
def fileFaultText : IO.Error → String
  | .noFileOrDirectory _ code details => details ++ " (os error " ++ toString code ++ ")"
  | .permissionDenied _ code details => details ++ " (os error " ++ toString code ++ ")"
  | .inappropriateType _ code details => details ++ " (os error " ++ toString code ++ ")"
  | .resourceExhausted _ code details => details ++ " (os error " ++ toString code ++ ")"
  | .invalidArgument _ code details => details ++ " (os error " ++ toString code ++ ")"
  | .illegalOperation code details => details ++ " (os error " ++ toString code ++ ")"
  | .otherError code details => details ++ " (os error " ++ toString code ++ ")"
  | error => toString error

/-- Everything in an open file, or one failed read. -/
def readHandle (handle : IO.FS.Handle) : IO (List Read) := do
  try
    return Read.ofBytes (← handle.readBinToEnd)
  catch error =>
    return [.failed (fileFaultText error)]

/-- Opens and reads a file. -/
def readFile (path : String) : IO (Except String (List Read)) := do
  try
    let handle ← IO.FS.Handle.mk path .read
    return .ok (← readHandle handle)
  catch error =>
    return .error (fileFaultText error)

end HttpSuite

open HttpSuite in
/-- Runs the program. -/
def main (args : List String) : IO UInt32 := do
  let files ← (CommandLine.filesOf args).mapM fun path => return (path, ← readFile path)
  let outcome := CommandLine.run args fun path =>
    match files.lookup path with
    | some file => file
    | none => .error FileFault.missing.message
  IO.print outcome.stdout
  IO.eprint outcome.stderr
  return UInt32.ofNat outcome.exit
