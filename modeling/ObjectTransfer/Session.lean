/-!
# Sessions

A session is what a command does, as a value: it asks for files one after another and ends with an
exit status and what it has written. Whoever runs it decides what the files hold.
-/

namespace ObjectTransfer

/-- Why a file has no text. -/
inductive ReadFailure where
  | missing
  | directory
  /-- Its bytes are no text. -/
  | notText
  /-- Any other reason, in words. -/
  | other (reason : String)
deriving DecidableEq

/-- The reason in words. -/
def ReadFailure.message : ReadFailure → String
  | .missing => "No such file or directory (os error 2)"
  | .directory => "Is a directory (os error 21)"
  | .notText => "stream did not contain valid UTF-8"
  | .other reason => reason

/-- The text that the bytes of a file hold. -/
def textOfBytes (bytes : ByteArray) : Except ReadFailure String :=
  match String.fromUTF8? bytes with
  | some text => .ok text
  | none => .error .notText

/-- How a command has ended. -/
structure Transcript where
  exit : Nat
  output : String
  errors : String
deriving DecidableEq

/-- A command that asks for files. -/
inductive Session where
  /-- It has ended. -/
  | ended (transcript : Transcript)
  /-- It goes on with the text of a file. -/
  | ask (path : String) (next : Except ReadFailure String → Session)

namespace Session

/-- How a session ends if files are read by `read`. -/
def run (read : String → Except ReadFailure String) : Session → Transcript
  | ended transcript => transcript
  | ask path next => (next (read path)).run read

/-- The files that a session asks for, in order. -/
def asked (read : String → Except ReadFailure String) : Session → List String
  | ended _ => []
  | ask path next => path :: (next (read path)).asked read

end Session
end ObjectTransfer
