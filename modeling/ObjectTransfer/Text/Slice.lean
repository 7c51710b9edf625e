/-!
# Parts of a text

A text is cut by byte offsets, which must lie between characters, and into lines. A line ends at a
line feed; a carriage return just before the line feed belongs to the ending, and nothing after the
last line feed is no line.
-/

namespace ObjectTransfer

/-- The characters in the first `size` bytes and the others, if the cut lies between characters;
`before` is what has been passed so far, latest first. -/
def splitAtByte? (before : List Char) (size : Nat) : List Char → Option (List Char × List Char)
  | [] => if size = 0 then some (before.reverse, []) else none
  | c :: cs =>
    if size = 0 then some (before.reverse, c :: cs)
    else if c.utf8Size ≤ size then splitAtByte? (c :: before) (size - c.utf8Size) cs
    else none

/-- The part of a text from byte `first` up to byte `last`, if both are places between characters
and in order. -/
def byteSlice? (text : String) (first last : Nat) : Option String :=
  if last < first then none
  else do
    let (_, rest) ← splitAtByte? [] first text.toList
    let (part, _) ← splitAtByte? [] (last - first) rest
    return String.ofList part

/-- What follows the first `n` line feeds; nothing if there are fewer. -/
def afterLines : Nat → List Char → List Char
  | 0, cs => cs
  | _ + 1, [] => []
  | n + 1, c :: cs => if c = '\n' then afterLines n cs else afterLines (n + 1) cs

/-- The first line without its ending. -/
def firstLine (cs : List Char) : List Char :=
  let line := cs.takeWhile (· ≠ '\n')
  if line.length < cs.length && line.getLast? = some '\r' then line.dropLast else line

/-- The line with the given number, counted from 0, without its ending. -/
def line? (cs : List Char) (n : Nat) : Option (List Char) :=
  match afterLines n cs with
  | [] => none
  | rest => some (firstLine rest)

end ObjectTransfer
