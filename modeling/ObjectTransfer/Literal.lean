import ObjectTransfer.Number.Layout

/-!
# Literals

A literal is a string, a number, a truth value or null. Its source text quotes a string with
backslashes, so that the text shows no line break or tab and ends at the first bare quote.
-/

namespace ObjectTransfer

/-- A literal value, of the kind that it was written as. -/
inductive Literal where
  | string (content : String)
  | number (value : Double)
  | boolean (value : Bool)
  | null
deriving DecidableEq

/-- The kind of a literal. -/
inductive Literal.Kind where
  | string
  | number
  | boolean
  | null
deriving DecidableEq

namespace Literal

/-- The kind of a literal. -/
def kind : Literal → Kind
  | .string _ => .string
  | .number _ => .number
  | .boolean _ => .boolean
  | .null => .null

/-- The content of a string. -/
def string? : Literal → Option String
  | .string s => some s
  | _ => none

/-- The value of a number. -/
def number? : Literal → Option Double
  | .number x => some x
  | _ => none

/-- The value of a truth value. -/
def boolean? : Literal → Option Bool
  | .boolean b => some b
  | _ => none

/-- Whether the literal is null. -/
def isNull (l : Literal) : Bool := l.kind = .null

/-- One character of a string in source text: a backslash stands before quotes and backslashes, and
line feed, tab and carriage return have their letters. -/
def escapedChar (c : Char) : List Char :=
  if c = '\\' then ['\\', '\\']
  else if c = '"' then ['\\', '"']
  else if c = '\n' then ['\\', 'n']
  else if c = '\t' then ['\\', 't']
  else if c = '\r' then ['\\', 'r']
  else [c]

/-- The character that a letter after a backslash stands for in source text. -/
def unescape? (letter : Char) : Option Char :=
  if letter = 'n' then some '\n'
  else if letter = 't' then some '\t'
  else if letter = 'r' then some '\r'
  else if letter = '\\' then some '\\'
  else if letter = '"' then some '"'
  else none

/-- A string in source text. -/
def quote (s : String) : String :=
  String.ofList ('"' :: s.toList.flatMap escapedChar ++ ['"'])

/-- A truth value in source text. -/
def booleanText (b : Bool) : String := if b then "true" else "false"

/-- A literal in source text. -/
def text : Literal → String
  | .string s => quote s
  | .number x => x.text .source
  | .boolean b => booleanText b
  | .null => "null"

/-- Equality as values: numbers are compared as numbers. -/
def equals : Literal → Literal → Bool
  | .number x, .number y => x.equals y
  | l, m => l = m

end Literal
end ObjectTransfer
