import ObjectTransfer.Error
import ObjectTransfer.Json.Literal

/-!
# Errors as JSON

An error is an object whose only member is named for the kind of error and holds its parts. The
parts of a limit that was exceeded are never a list. Causes without parts are names alone.
-/

namespace ObjectTransfer

/-- A cause as a name or an object of one member. -/
def LexicalError.Cause.encode : LexicalError.Cause → Json
  | .unterminatedString => .string "UnterminatedString"
  | .unterminatedComment => .string "UnterminatedComment"
  | .unexpectedCharacter c => .object [("UnexpectedCharacter", .string (String.ofList [c]))]
  | .invalidNumber text => .object [("InvalidNumber", .string text)]

/-- The only character of a string. -/
def singleChar? (s : String) : Option Char :=
  match s.toList with
  | [c] => some c
  | _ => none

/-- The cause that a value holds. -/
def LexicalError.Cause.decode? (json : Json) : Option LexicalError.Cause := do
  match ← json.variant? with
  | ("UnterminatedString", .null) => some .unterminatedString
  | ("UnterminatedComment", .null) => some .unterminatedComment
  | ("UnexpectedCharacter", .string s) => .unexpectedCharacter <$> singleChar? s
  | ("InvalidNumber", .string text) => some (.invalidNumber text)
  | _ => none

/-- A lexical error as a record. -/
def LexicalError.encode (e : LexicalError) : Json :=
  .object [("kind", e.cause.encode), ("position", e.position.encode)]

/-- The lexical error that a record holds. -/
def LexicalError.decode? (json : Json) : Option LexicalError := do
  match ← json.fields? ["kind", "position"] with
  | [some cause, some position] =>
    return ⟨← LexicalError.Cause.decode? cause, ← Position.decode? position⟩
  | _ => none

/-- A mismatch as a record. -/
def Mismatch.encode (m : Mismatch) : Json :=
  .object [("expected", .string m.expected), ("found", .string m.found),
    ("position", m.position.encode)]

/-- The mismatch that a record holds. -/
def Mismatch.decode? (json : Json) : Option Mismatch := do
  match ← json.fields? ["expected", "found", "position"] with
  | [some expected, some found, some position] =>
    return ⟨← expected.string?, ← found.string?, ← Position.decode? position⟩
  | _ => none

namespace ParseError

/-- The name of a kind of error. -/
def kindName : ParseError → String
  | .lexical _ => "Lex"
  | .mismatch _ => "Syntax"
  | .nestingTooDeep _ _ => "NestingTooDeep"
  | .inputTooLarge _ _ => "InputTooLarge"

/-- The parts of an error. -/
def parts : ParseError → Json
  | .lexical e => e.encode
  | .mismatch m => m.encode
  | .nestingTooDeep limit position =>
    .object [("limit", .ofNat limit), ("position", position.encode)]
  | .inputTooLarge limit actual => .object [("limit", .ofNat limit), ("actual", .ofNat actual)]

/-- An error as an object of one member. -/
def encode (e : ParseError) : Json := .object [(e.kindName, e.parts)]

/-- The error that an object holds. -/
def decode? (json : Json) : Option ParseError := do
  let (kind, parts) ← json.variant?
  match kind with
  | "Lex" => .lexical <$> LexicalError.decode? parts
  | "Syntax" => .mismatch <$> Mismatch.decode? parts
  | "NestingTooDeep" =>
    match ← parts.members? ["limit", "position"] with
    | [some limit, some position] =>
      return .nestingTooDeep (← limit.natural?) (← Position.decode? position)
    | _ => none
  | "InputTooLarge" =>
    match ← parts.members? ["limit", "actual"] with
    | [some limit, some actual] => return .inputTooLarge (← limit.natural?) (← actual.natural?)
    | _ => none
  | _ => none

end ParseError
end ObjectTransfer
