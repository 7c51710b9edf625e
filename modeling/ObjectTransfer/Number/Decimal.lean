import ObjectTransfer.Number.Double

/-!
# Decimal fractions and the shortest one that reads back

A `Decimal` is a natural number times a power of ten. `Decimal.toDouble` reads one to the nearest
double. `Double.shortest` goes the other way: it takes the coarsest decimal grid on which one of the
two neighbours of the number reads back to it, and of two such neighbours the nearer.
-/

namespace ObjectTransfer

/-- The number `significand * 10 ^ exponent`. -/
structure Decimal where
  significand : Nat
  exponent : Int
deriving DecidableEq

namespace Decimal

/-- The nearest double with the given sign. -/
def toDouble (negative : Bool) (d : Decimal) : Double :=
  match d.exponent with
  | .ofNat e => .ofRatio negative (d.significand * Nat.pow 10 e) 1
  | .negSucc e => .ofRatio negative d.significand (Nat.pow 10 (e + 1))

/-- The same number with no zero at the end of its significand. -/
def trim (d : Decimal) : Decimal :=
  if _h : d.significand ≠ 0 ∧ d.significand % 10 = 0 then
    trim ⟨d.significand / 10, d.exponent + 1⟩
  else d
termination_by d.significand
decreasing_by omega

/-- The decimal digits of the significand. -/
def digits (d : Decimal) : List Char := Nat.toDigits 10 d.significand

end Decimal

/-- Which of two neighbours is taken when both are equally near. -/
inductive Tie where
  /-- The larger one. -/
  | up
  /-- The one whose last digit is even. -/
  | even
deriving DecidableEq

namespace Double

/-- Numerator and denominator of `|x| / 10 ^ exponent`. -/
def scaled (x : Double) (exponent : Int) : Nat × Nat :=
  match exponent with
  | .ofNat e => (x.units, unitsOfOne * Nat.pow 10 e)
  | .negSucc e => (x.units * Nat.pow 10 (e + 1), unitsOfOne)

/-- The exponent `k` with `10 ^ (k - 1) ≤ |x| < 10 ^ k`, for a finite number other than zero. No
such number is below `10 ^ -324`, so its whole part in that unit has a first digit. -/
def magnitude (x : Double) : Int :=
  let (num, den) := x.scaled (-324)
  ((Nat.toDigits 10 (num / den)).length : Int) - 324

/-- The neighbour of `x` among the multiples of `10 ^ exponent` that reads back to `x`, the nearer
one if both do. -/
def neighbour? (tie : Tie) (x : Double) (exponent : Int) : Option Decimal :=
  let (num, den) := x.scaled exponent
  let lower : Decimal := ⟨num / den, exponent⟩
  let upper : Decimal := ⟨num / den + 1, exponent⟩
  let twice := 2 * (num % den)
  match lower.toDouble x.negative == x, upper.toDouble x.negative == x with
  | true, true =>
    if twice < den then some lower
    else if den < twice then some upper
    else if tie = .even && num / den % 2 = 0 then some lower
    else some upper
  | true, false => some lower
  | false, true => some upper
  | false, false => none

/-- The whole decimal expansion of a finite number: `2 ^ -1074` is `5 ^ 1074 * 10 ^ -1074`. -/
def expansion (x : Double) : Decimal := ⟨x.units * Nat.pow 5 1074, -1074⟩

/-- The decimal with the fewest digits that reads back to `x`. Seventeen digits always do. -/
def shortest (tie : Tie) (x : Double) : Decimal :=
  let magnitude := x.magnitude
  let found := (List.range 17).findSome? fun n : Nat => x.neighbour? tie (magnitude - (n + 1))
  (found.getD x.expansion).trim

end Double
end ObjectTransfer
