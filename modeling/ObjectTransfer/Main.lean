import ObjectTransfer.Formats

/-!
# The command line

Runs the trace of a file: reads the files that the session asks for and writes what it has written.
-/

namespace ObjectTransfer

/-- Reads a file. -/
def readText (path : String) : IO (Except ReadFailure String) := do
  try
    return textOfBytes (← IO.FS.readBinFile path)
  catch
    | .noFileOrDirectory .. => return .error .missing
    | .inappropriateType .. => return .error .directory
    | e => return .error (.other (toString e))

/-- Runs a session on the files of the system. -/
def Session.perform : Session → IO Transcript
  | .ended transcript => return transcript
  | .ask path next => do (next (← readText path)).perform

end ObjectTransfer

/-- Runs the trace command. -/
def main (args : List String) : IO UInt32 := do
  let transcript ← (ObjectTransfer.Trace.session .lineByLine args).perform
  IO.print transcript.output
  IO.eprint transcript.errors
  return transcript.exit.toUInt32
