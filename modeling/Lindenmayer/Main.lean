import Lindenmayer.CommandLine.Run

namespace Lindenmayer

namespace CommandLine

def failureOf : IO.Error → ReadFailure
  | .noFileOrDirectory .. => .missingFile
  | .inappropriateType .. => .directory
  | .permissionDenied .. => ⟨.permissionDenied, "Permission denied (os error 13)"⟩
  | error => ⟨.other, toString error⟩

def readFile (file : String) : IO (List Read) := do
  try
    return [.bytes (← IO.FS.readBinFile file)]
  catch error =>
    return [.failed (failureOf error)]

end CommandLine

end Lindenmayer

open Lindenmayer.CommandLine

def main (arguments : List String) : IO UInt32 := do
  let request := Request.ofArguments arguments
  let reads ← request.files.mapM (fun file => return (file, ← readFile file))
  let outcome := request.outcome (fun file => (reads.lookup file).getD [])
  (← IO.getStdout).putStr outcome.output
  (← IO.getStderr).putStr outcome.errors
  return outcome.exitCode
