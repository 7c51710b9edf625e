import ObjectTransfer.Number.Decimal

/-!
# Numerals

A numeral is a sign, digits, and possibly a point and more digits. A point that no digit follows is
no part of it.
-/

namespace ObjectTransfer

/-- The digits of the notations: ASCII only. -/
def isDigit (c : Char) : Bool := '0' ≤ c && c ≤ '9'

/-- A number as it is spelled. -/
structure Numeral where
  negative : Bool
  whole : List Char
  /-- The digits after the point; without any there is no point. -/
  fraction : List Char
deriving DecidableEq

/-- The number that a list of digits spells. -/
def digitsValue (digits : List Char) : Nat :=
  digits.foldl (fun value c => value * 10 + (c.toNat - '0'.toNat)) 0

namespace Numeral

/-- The characters of a numeral. -/
def text (n : Numeral) : List Char :=
  (if n.negative then ['-'] else []) ++ n.whole ++
    (if n.fraction = [] then [] else '.' :: n.fraction)

/-- The number that a numeral spells, apart from its sign. -/
def size (n : Numeral) : Decimal :=
  ⟨digitsValue (n.whole ++ n.fraction), -n.fraction.length⟩

/-- The double nearest to what a numeral spells. -/
def value (n : Numeral) : Double := n.size.toDouble n.negative

/-- The digits after a point at the front of `cs`, and what follows them. -/
def readFraction : List Char → List Char
  | '.' :: cs => cs.takeWhile isDigit
  | _ => []

/-- The longest numeral at the front of `cs`. It has no whole digits, and then no fraction either,
if `cs` does not start with a digit after an optional minus sign. -/
def read (cs : List Char) : Numeral :=
  let negative := cs.head? = some '-'
  let unsigned := if negative then cs.tail else cs
  let whole := unsigned.takeWhile isDigit
  ⟨negative, whole, if whole = [] then [] else readFraction (unsigned.dropWhile isDigit)⟩

end Numeral
end ObjectTransfer
