/-!
# Positions

A `Position` is a place in a text: how many bytes come before it, and its line and column for
readers. Only a line feed ends a line, and a column is one character whatever its width in bytes.
-/

namespace ObjectTransfer

/-- A place in a text. -/
structure Position where
  /-- The number of bytes before it. -/
  offset : Nat
  /-- Its line, counted from 1. -/
  line : Nat
  /-- Its column in characters, counted from 1. -/
  column : Nat
deriving DecidableEq

namespace Position

/-- The place before the first character. -/
def start : Position := ⟨0, 1, 1⟩

/-- The place after `c`, from the place before it. -/
def advance (p : Position) (c : Char) : Position :=
  if c = '\n' then ⟨p.offset + c.utf8Size, p.line + 1, 1⟩
  else ⟨p.offset + c.utf8Size, p.line, p.column + 1⟩

/-- The place after the characters `cs`, from the place before them. -/
def advanceBy (p : Position) (cs : List Char) : Position := cs.foldl advance p

@[simp] theorem advanceBy_nil (p : Position) : p.advanceBy [] = p := rfl

@[simp] theorem advanceBy_cons (p : Position) (c : Char) (cs : List Char) :
    p.advanceBy (c :: cs) = (p.advance c).advanceBy cs := rfl

theorem advanceBy_append (p : Position) (cs ds : List Char) :
    p.advanceBy (cs ++ ds) = (p.advanceBy cs).advanceBy ds := List.foldl_append

/-- A position in words. -/
def text (p : Position) : String := s!"line {p.line}, column {p.column}"

/-- The order by offset, then line, then column. -/
def le (p q : Position) : Bool :=
  if p.offset ≠ q.offset then p.offset < q.offset
  else if p.line ≠ q.line then p.line < q.line
  else p.column ≤ q.column

end Position
end ObjectTransfer
