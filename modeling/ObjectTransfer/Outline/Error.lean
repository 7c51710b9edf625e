import ObjectTransfer.Error
import ObjectTransfer.Outline.Document

/-!
# Outlines of errors

How errors are shown for inspection.
-/

namespace ObjectTransfer

/-- The outline of a cause. -/
def LexicalError.Cause.outline : LexicalError.Cause → Outline
  | .unterminatedString => .leaf "UnterminatedString"
  | .unterminatedComment => .leaf "UnterminatedComment"
  | .unexpectedCharacter c => .tuple "UnexpectedCharacter" [.leaf (inspectChar c)]
  | .invalidNumber text => .tuple "InvalidNumber" [.ofString text]

/-- The outline of a lexical error. -/
def LexicalError.outline (e : LexicalError) : Outline :=
  .record "LexError" [("kind", e.cause.outline), ("position", e.position.outline)]

/-- The outline of a mismatch. -/
def Mismatch.outline (m : Mismatch) : Outline :=
  .record "SyntaxError"
    [("expected", .ofString m.expected), ("found", .ofString m.found),
      ("position", m.position.outline)]

/-- The outline of an error. -/
def ParseError.outline : ParseError → Outline
  | .lexical e => .tuple "Lex" [e.outline]
  | .mismatch m => .tuple "Syntax" [m.outline]
  | .nestingTooDeep limit position =>
    .record "NestingTooDeep" [("limit", .ofNat limit), ("position", position.outline)]
  | .inputTooLarge limit actual =>
    .record "InputTooLarge" [("limit", .ofNat limit), ("actual", .ofNat actual)]

end ObjectTransfer
