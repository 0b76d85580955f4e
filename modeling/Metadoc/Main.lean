import Metadoc.CommandLine

/-!
# The program

Reads files, writes what the command line answers, and ends with its code.
-/

namespace Metadoc

/-- What a failure of the system stands for.  Numbers of failures come with either sign. -/
def systemFailure (e : IO.Error) : ReadError :=
  match e with
  | .alreadyExists _ code words | .invalidArgument _ code words | .permissionDenied _ code words
  | .resourceExhausted _ code words | .inappropriateType _ code words
  | .noSuchThing _ code words | .noFileOrDirectory _ code words | .interrupted _ code words
  | .otherError code words | .resourceBusy code words | .resourceVanished code words
  | .unsupportedOperation code words | .hardwareFault code words
  | .unsatisfiedConstraints code words | .illegalOperation code words
  | .protocolError code words | .timeExpired code words =>
    .ofCode code.toInt32.toInt.natAbs words.capitalize
  | .unexpectedEof => .other "unexpected end of file"
  | .userError words => .other words

/-- Reads a file. -/
def readFile (path : String) : IO (Except ReadError Bytes) := do
  if path.contains '\x00' then return .error .nulInName
  match ← (IO.FS.readBinFile path).toBaseIO with
  | .ok content => return .ok content.toList
  | .error e => return .error (systemFailure e)

end Metadoc

open Metadoc in
/-- The program. -/
def main (arguments : List String) : IO UInt32 := do
  let stdout ← IO.getStdout
  let stderr ← IO.getStderr
  let outcome ← Outcome.ofArguments readFile (← stderr.isTty) arguments
  stdout.putStr outcome.stdout
  stderr.putStr outcome.stderr
  return UInt32.ofNat outcome.code
