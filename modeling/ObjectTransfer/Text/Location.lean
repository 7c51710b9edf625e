import ObjectTransfer.Text.Position
import ObjectTransfer.Text.Slice

/-!
# Locations

A `Location` is the part of a named text that something was read from.
-/

namespace ObjectTransfer

/-- The part of the text `source` from `start` up to `finish`. -/
structure Location where
  source : String
  start : Position
  finish : Position
deriving DecidableEq

namespace Location

/-- The number of bytes; nothing if the location ends before it starts. -/
def size (l : Location) : Nat := l.finish.offset - l.start.offset

/-- Whether the location holds no byte. -/
def isEmpty (l : Location) : Bool := l.size = 0

/-- Whether a position lies inside, by its offset. -/
def contains (l : Location) (p : Position) : Bool :=
  l.start.offset ≤ p.offset && p.offset < l.finish.offset

/-- The part of `text` at the location, if the location fits it. -/
def slice? (l : Location) (text : String) : Option String :=
  byteSlice? text l.start.offset l.finish.offset

/-- Where the location starts, for readers. -/
def text (l : Location) : String := s!"{l.source}:{l.start.line}:{l.start.column}"

end Location
end ObjectTransfer
