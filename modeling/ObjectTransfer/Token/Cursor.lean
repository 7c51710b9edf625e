import ObjectTransfer.Error
import ObjectTransfer.Token.Basic

/-!
# Reading a text from left to right

A `Cursor` is a place in a text and what follows it. Moving on takes one character or a run of them;
`Cursor.skipTrivia` passes over blanks and comments, which stand between tokens and mean nothing.
-/

namespace ObjectTransfer

/-- What is still to be read of a text, and the position of its first character. -/
structure Cursor where
  rest : List Char
  position : Position
deriving DecidableEq

/-- What stands between tokens. -/
def isBlank (c : Char) : Bool := c = ' ' || c = '\t' || c = '\r' || c = '\n'

/-- What the scan for the next token is in the middle of. -/
inductive Trivia where
  /-- Blanks. -/
  | blanks
  /-- A comment that runs to the end of its line. -/
  | lineComment
  /-- A comment that was opened at the given place and runs to its closing mark. -/
  | blockComment (opened : Position)

/-- The first place at or after `p` that belongs to no blank and no comment. A comment that does not
end is reported with the place after it, the end of the text. -/
def Trivia.skip : Trivia → List Char → Position → Except (LexicalError × Cursor) Cursor
  | .blanks, '/' :: '/' :: cs, p => lineComment.skip cs ((p.advance '/').advance '/')
  | .blanks, '/' :: '*' :: cs, p => (blockComment p).skip cs ((p.advance '/').advance '*')
  | .blanks, c :: cs, p => if isBlank c then blanks.skip cs (p.advance c) else .ok ⟨c :: cs, p⟩
  | .lineComment, '\n' :: cs, p => blanks.skip cs (p.advance '\n')
  | .lineComment, c :: cs, p => lineComment.skip cs (p.advance c)
  | .blockComment _, '*' :: '/' :: cs, p => blanks.skip cs ((p.advance '*').advance '/')
  | .blockComment opened, c :: cs, p => (blockComment opened).skip cs (p.advance c)
  | .blockComment opened, [], p => .error (⟨.unterminatedComment, opened⟩, ⟨[], p⟩)
  | _, [], p => .ok ⟨[], p⟩

namespace Cursor

/-- The cursor at the start of a text. -/
def ofString (s : String) : Cursor := ⟨s.toList, .start⟩

/-- The cursor after the next `text.length` characters, which are those of `text`. -/
def after (c : Cursor) (text : List Char) : Cursor :=
  ⟨c.rest.drop text.length, c.position.advanceBy text⟩

/-- The cursor at the next token, or at the end of the text. -/
def skipTrivia (c : Cursor) : Except (LexicalError × Cursor) Cursor :=
  Trivia.blanks.skip c.rest c.position

end Cursor
end ObjectTransfer
