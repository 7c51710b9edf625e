import ObjectTransfer.Number.Decimal

/-!
# How numbers are written

A `NumberLayout` fixes what the shortest decimal leaves open: which sizes are written with an
exponent, what marks a whole number, and which way a tie goes. The notations themselves, the
inspection form and JSON text use one layout each.
-/

namespace ObjectTransfer

/-- The choices in writing a number. -/
structure NumberLayout where
  /-- Which of two equally near shortest decimals is written. -/
  tie : Tie
  /-- What follows the digits of a whole number. -/
  wholeMark : String
  /-- The exponents of the first digit, from the first up to but without the second, that are
  written without an exponent; all of them if none are given. -/
  positional : Option (Int × Int)
  /-- The sign of a positive exponent. -/
  exponentSign : String

namespace NumberLayout

/-- Source text: digits and a point, never an exponent. -/
def source : NumberLayout := ⟨.up, "", none, ""⟩

/-- The inspection form: a whole number ends in a zero after the point, and sizes below `10 ^ -4` or
from `10 ^ 16` on have an exponent. -/
def inspection : NumberLayout := ⟨.up, ".0", some (-4, 16), ""⟩

/-- JSON text: as in the inspection form, but positional from `10 ^ -5` on, and a positive exponent
has its sign. -/
def json : NumberLayout := ⟨.even, ".0", some (-5, 16), "+"⟩

/-- Whether a number whose first digit stands for `10 ^ first` is written without an exponent. -/
def isPositional (layout : NumberLayout) (first : Int) : Bool :=
  match layout.positional with
  | none => true
  | some (low, high) => low ≤ first && first < high

end NumberLayout

namespace Decimal

/-- Digits with the point at its place. -/
def positionalText (wholeMark : List Char) (d : Decimal) : List Char :=
  match d.exponent with
  | .ofNat e =>
    let zeros := if d.significand = 0 then 0 else e
    d.digits ++ List.replicate zeros '0' ++ wholeMark
  | .negSucc e =>
    let places := e + 1
    let whole := d.digits.length - places
    if 0 < whole then d.digits.take whole ++ '.' :: d.digits.drop whole
    else '0' :: '.' :: List.replicate (places - d.digits.length) '0' ++ d.digits

/-- The exponent of ten that the first digit stands for. -/
def firstExponent (d : Decimal) : Int := d.digits.length + d.exponent - 1

/-- One digit before the point, the others after it, and the exponent. -/
def scientificText (exponentSign : List Char) (d : Decimal) : List Char :=
  let fraction := match d.digits with
    | [] => []
    | [first] => [first]
    | first :: others => first :: '.' :: others
  let exponent := match d.firstExponent with
    | .ofNat e => exponentSign ++ Nat.toDigits 10 e
    | .negSucc e => '-' :: Nat.toDigits 10 (e + 1)
  fraction ++ 'e' :: exponent

/-- The decimal written in a layout. -/
def text (layout : NumberLayout) (d : Decimal) : List Char :=
  if d.significand = 0 || layout.isPositional d.firstExponent then
    d.positionalText layout.wholeMark.toList
  else d.scientificText layout.exponentSign.toList

end Decimal

namespace Double

/-- The size of a number in a layout. -/
def sizeText (layout : NumberLayout) (x : Double) : List Char :=
  if x.isFinite then
    if x.isZero then Decimal.text layout ⟨0, 0⟩ else (x.shortest layout.tie).text layout
  else "inf".toList

/-- The characters of a number in a layout. A number without a value has no sign. -/
def chars (layout : NumberLayout) (x : Double) : List Char :=
  if x.isNaN then "NaN".toList
  else if x.negative then '-' :: x.sizeText layout
  else x.sizeText layout

/-- A number in a layout. -/
def text (layout : NumberLayout) (x : Double) : String := String.ofList (x.chars layout)

end Double
end ObjectTransfer
