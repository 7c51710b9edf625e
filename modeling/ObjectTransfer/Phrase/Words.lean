import ObjectTransfer.Phrase.Basic
import ObjectTransfer.Text.Location

/-!
# Phrases that the notations share

Names, literals, the mark that may end an item, and phrases that know where they were read.
-/

namespace ObjectTransfer.Phrase

/-- Reads an identifier. -/
def identifier (expected : Expectation) : Phrase String :=
  token expected fun kind => match kind with
    | .identifier name => some name
    | _ => none

/-- The name that a token can stand for: a reserved word names things too. -/
def nameOf? : Token.Kind → Option String
  | .identifier name => some name
  | .keyword word => some word.text
  | _ => none

/-- Reads a name. -/
def name (expected : Expectation) : Phrase String := token expected nameOf?

/-- Reads a literal. -/
def literal : Phrase Literal :=
  token .literal fun kind => match kind with
    | .literal value => some value
    | _ => none

/-- Reads a literal; a bare identifier is a string. -/
def literalOrWord : Phrase Literal :=
  token .literal fun kind => match kind with
    | .literal value => some value
    | .identifier name => some (.string name)
    | _ => none

/-- Reads a semicolon or else a comma, if one comes next. -/
def optionalTerminator : Phrase Unit := do
  if ← optionalMark .semicolon then return ()
  else
    let _ ← optionalMark .comma
    return ()

/-- Reads the end of the text. -/
def endOfInput : Phrase Unit := do
  if (← next?) = none then return () else expecting .endOfInput

/-- Reads the brace that closes a list of items. At the end of the text it is the brace that is
missing, before any other token one more item. -/
def closeBrace (item : Expectation) : Phrase Unit := do
  if ← optionalMark .closeBrace then return ()
  else if (← next?) = none then expecting (.mark .closeBrace)
  else expecting item

/-- The location in `source` from `start` up to the end of the last token read. -/
def locationFrom (source : String) (start : Position) : Phrase Location := do
  return ⟨source, start, (← place).behind⟩

end ObjectTransfer.Phrase
