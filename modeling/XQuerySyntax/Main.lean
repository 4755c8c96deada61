import XQuerySyntax.CommandLine
import XQuerySyntax.Library.Directory
import XQuerySyntax.Library.Source

/-!
The program: reads the files that a run asks for, runs again until it asks for no more, and writes
the outcome.
-/

namespace XQuerySyntax

/-- A system error with its number, which some calls give as a negative one. -/
def numbered (code : UInt32) (details : String) : String :=
  let number := if code < 0x80000000 then code else -code
  details.capitalize ++ " (os error " ++ toString number ++ ")"

/-- Why the system could not read a file. -/
def failureText : IO.Error → String
  | .inappropriateType _ code details | .permissionDenied _ code details
  | .invalidArgument _ code details | .resourceExhausted _ code details
  | .noSuchThing _ code details | .otherError code details => numbered code details
  | error => toString error

/-- Reads the text at a location as seen from a directory. -/
def readLocation (directory location : String) : IO (Except SourceError String) := do
  let path := String.ofList (Directory.pathFrom directory.toList location.toList)
  match ← (IO.FS.readBinFile path).toBaseIO with
  | .ok bytes => return Directory.decode location bytes
  | .error (.noFileOrDirectory ..) => return .error (.notFound location)
  | .error error => return .error (.readFailed location (failureText error))

/-- Runs a check until every location that it asks for has been read. -/
partial def checkFiles (options : CommandLine.Options) (known : Snapshot) :
    IO CommandLine.Outcome := do
  let (outcome, seen) := CommandLine.check Snapshot.provider options known
  if seen.wanted.isEmpty then return outcome
  let mut next := known
  for location in seen.wanted do
    let directory := CommandLine.directoryOf options.query
    next := next.learn location (← readLocation directory location)
  checkFiles options next

end XQuerySyntax

open XQuerySyntax in
/-- Runs the command line. -/
def main (arguments : List String) : IO UInt32 := do
  let request := CommandLine.Request.ofArguments arguments
  let outcome ← match request with
    | .check options => checkFiles options Snapshot.empty
    | _ => pure (CommandLine.run (fun _ => Snapshot.provider) Snapshot.empty request).1
  IO.print outcome.output
  IO.eprint outcome.errors
  return outcome.status.toUInt32
