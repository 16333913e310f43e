/-
The program itself: reads the files that the arguments may name, hands all
over to `CommandLine`, writes what comes back, and takes the time for it that
the script has taken.
-/
import RoutineScript.CommandLine

open RoutineScript

/-- Reads a file, or tells why it cannot be read. -/
def readScript (path : String) : IO (Except ReadFault String) := do
  try
    let bytes ← IO.FS.readBinFile path
    match String.fromUTF8? bytes with
    | some text => return .ok text
    | none => return .error .notText
  catch
    | .permissionDenied .. => return .error .denied
    | .inappropriateType _ 20 _ => return .error .notDirectory
    | .inappropriateType .. => return .error .directory
    | .invalidArgument _ 36 _ => return .error .nameTooLong
    | _ => return .error .missing

/-- Runs the command line. -/
def main (args : List String) : IO UInt32 := do
  let files ← args.mapM fun path => do return (path, ← readScript path)
  let readFile (path : String) : Except ReadFault String :=
    (files.lookup path).getD (.error .missing)
  let outcome := CommandLine.execute (Nat.pow 2 62) readFile args
  (← IO.getStdout).putStr outcome.stdout
  (← IO.getStderr).putStr outcome.stderr
  IO.sleep (outcome.elapsed / 1000000).toUInt32
  return outcome.code.toUInt32
