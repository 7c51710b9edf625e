import ObjectTransfer.Text.Inspected
import ObjectTransfer.Text.Position
import ObjectTransfer.Text.Slice

/-!
# Errors

Why a text is not read: it has no tokens, or its tokens do not fit the notation, or a limit is
passed. Each error but the last has a position, and `ParseError.render` shows the line there.
-/

namespace ObjectTransfer

/-- Why a text has no tokens. -/
inductive LexicalError.Cause where
  | unterminatedString
  | unterminatedComment
  | unexpectedCharacter (c : Char)
  | invalidNumber (text : String)
deriving DecidableEq

/-- A cause in words. -/
def LexicalError.Cause.message : LexicalError.Cause → String
  | .unterminatedString => "unterminated string literal"
  | .unterminatedComment => "unterminated block comment"
  | .unexpectedCharacter c => "unexpected character " ++ inspectChar c
  | .invalidNumber text => "invalid number literal `" ++ text ++ "`"

/-- Why a text has no tokens, and where: at the opening of what does not end. -/
structure LexicalError where
  cause : LexicalError.Cause
  position : Position
deriving DecidableEq

/-- The error in words. -/
def LexicalError.message (e : LexicalError) : String := e.cause.message ++ " at " ++ e.position.text

/-- Something else than what was expected, and where. -/
structure Mismatch where
  expected : String
  found : String
  position : Position
deriving DecidableEq

/-- The mismatch in words. -/
def Mismatch.message (m : Mismatch) : String :=
  "expected " ++ m.expected ++ ", found " ++ m.found ++ " at " ++ m.position.text

/-- Why a text is not read. -/
inductive ParseError where
  | lexical (error : LexicalError)
  | mismatch (error : Mismatch)
  | nestingTooDeep (limit : Nat) (position : Position)
  | inputTooLarge (limit actual : Nat)
deriving DecidableEq

namespace ParseError

/-- The error in words, on one line. -/
def message : ParseError → String
  | .lexical e => "lex error: " ++ e.message
  | .mismatch m => "syntax error: " ++ m.message
  | .nestingTooDeep limit position =>
    s!"nesting too deep: more than {limit} levels at {position.text}"
  | .inputTooLarge limit actual =>
    s!"input too large: {actual} bytes exceeds the limit of {limit} bytes"

/-- Where the error is, if it has a place. -/
def position? : ParseError → Option Position
  | .lexical e => some e.position
  | .mismatch m => some m.position
  | .nestingTooDeep _ position => some position
  | .inputTooLarge _ _ => none

/-- Whether the text has no tokens. -/
def isLexical : ParseError → Bool
  | .lexical _ => true
  | _ => false

/-- Whether the tokens do not fit the notation. -/
def isMismatch : ParseError → Bool
  | .mismatch _ => true
  | _ => false

/-- As wide as the first `count` characters of `line`, tabs kept. -/
def caretIndent (count : Nat) (line : List Char) : List Char :=
  (line.take count).map fun c => if c = '\t' then '\t' else ' '

/-- The line of the error with its number, and a caret below the column. -/
def excerpt (position : Position) (line : List Char) : String :=
  let number := toString position.line
  let margin := String.ofList (List.replicate number.length ' ')
  margin ++ " |\n" ++ number ++ " | " ++ String.ofList line ++ "\n" ++ margin ++ " | " ++
    String.ofList (caretIndent (position.column - 1) line) ++ "^"

/-- The error in words, followed by the line it is on if `source` has that line. -/
def render (e : ParseError) (source : String) : String :=
  match e.position? with
  | none => e.message
  | some position =>
    match line? source.toList (position.line - 1) with
    | none => e.message
    | some line => e.message ++ "\n" ++ excerpt position line

end ParseError
end ObjectTransfer
