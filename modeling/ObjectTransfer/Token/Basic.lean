import ObjectTransfer.Dialect
import ObjectTransfer.Literal
import ObjectTransfer.Text.Inspected
import ObjectTransfer.Text.Position

/-!
# Tokens

A text of any of the three notations is a list of tokens. The end of the text is no token: `Tokens`
holds the tokens of a whole text and the place where the text ends.
-/

namespace ObjectTransfer

/-- A token of one character. -/
inductive Mark where
  | openBrace
  | closeBrace
  | openParen
  | closeParen
  | comma
  | colon
  | semicolon
  | dot
  | equals
  | bar
  | question
  | less
  | greater
deriving DecidableEq

namespace Mark

/-- The character of a mark. -/
def char : Mark → Char
  | .openBrace => '\x7b'
  | .closeBrace => '\x7d'
  | .openParen => '('
  | .closeParen => ')'
  | .comma => ','
  | .colon => ':'
  | .semicolon => ';'
  | .dot => '.'
  | .equals => '='
  | .bar => '|'
  | .question => '?'
  | .less => '<'
  | .greater => '>'

/-- All marks. -/
def all : List Mark :=
  [.openBrace, .closeBrace, .openParen, .closeParen, .comma, .colon, .semicolon, .dot, .equals,
    .bar, .question, .less, .greater]

/-- The mark written as the character `c`. -/
def ofChar? (c : Char) : Option Mark := all.find? (·.char = c)

/-- A mark in a message. -/
def describe (m : Mark) : String := String.ofList ['\'', m.char, '\'']

end Mark

namespace Token

/-- What a token is. -/
inductive Kind where
  | keyword (word : Keyword)
  | identifier (name : String)
  | literal (value : Literal)
  | mark (mark : Mark)
deriving DecidableEq

/-- A token in a message. -/
def Kind.describe : Kind → String
  | .keyword word => "keyword `" ++ word.text ++ "`"
  | .identifier name => "identifier `" ++ name ++ "`"
  | .literal (.string s) => "string " ++ inspectString s
  | .literal (.number x) => "number " ++ x.text .source
  | .literal (.boolean b) => "boolean " ++ Literal.booleanText b
  | .literal .null => "null"
  | .mark m => m.describe

/-- The next token, or none at the end of the text, in a message. -/
def describeNext : Option Kind → String
  | some kind => kind.describe
  | none => "end of input"

end Token

/-- A token and its place in the text. -/
structure Token where
  kind : Token.Kind
  start : Position
  finish : Position
deriving DecidableEq

/-- The number of bytes of a token. -/
def Token.size (t : Token) : Nat := t.finish.offset - t.start.offset

/-- The tokens of a whole text and the place where the text ends. -/
structure Tokens where
  list : List Token
  finish : Position
deriving DecidableEq

end ObjectTransfer
