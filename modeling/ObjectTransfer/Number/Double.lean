/-!
# Double-precision numbers

A `Double` is kept as its sign and its code: the exponent field and the fraction field of the binary
format, read together as one natural number. Codes order sizes, and every finite size is a whole
number of units of `2 ^ -1074`. So finding the double nearest to a fraction is one division of
natural numbers, and two doubles are the same exactly when sign and code are.
-/

namespace ObjectTransfer

/-- The quotient rounded to the nearest natural number, a half to the even neighbour. -/
def roundDiv (num den : Nat) : Nat :=
  let quotient := num / den
  let twice := 2 * (num % den)
  if twice < den then quotient
  else if den < twice then quotient + 1
  else if quotient % 2 = 0 then quotient
  else quotient + 1

/-- A number of the binary double-precision format. -/
structure Double where
  /-- Whether the sign bit is set. -/
  negative : Bool
  /-- The exponent field and the fraction field, read as one number. -/
  code : Fin (Nat.pow 2 63)
deriving DecidableEq

namespace Double

/-- The code of infinity: every smaller code is a finite size, every larger one is not a number. -/
def infinityCode : Nat := 2047 * Nat.pow 2 52

/-- The number whose sixty-four bits are `bits`, the sign first. -/
def ofBits (bits : Nat) : Double :=
  let sign := Nat.pow 2 63
  ⟨bits / sign % 2 = 1, ⟨bits % sign, Nat.mod_lt _ (Nat.two_pow_pos 63)⟩⟩

/-- Neither infinite nor without a value. -/
def isFinite (x : Double) : Bool := x.code.val < infinityCode

/-- Without a value. -/
def isNaN (x : Double) : Bool := infinityCode < x.code.val

/-- Zero of either sign. -/
def isZero (x : Double) : Bool := x.code.val = 0

/-- How many units one is. -/
def unitsOfOne : Nat := Nat.pow 2 1074

/-- The size that a code stands for, in units of `2 ^ -1074`. -/
def unitsOfCode (code : Nat) : Nat :=
  let hidden := Nat.pow 2 52
  if code < 2 * hidden then code else (hidden + code % hidden) * Nat.pow 2 (code / hidden - 1)

/-- The size of a finite number, in units of `2 ^ -1074`. -/
def units (x : Double) : Nat := unitsOfCode x.code

/-- The code nearest to the fraction `num / den`; what is too large becomes infinite. -/
def codeOfRatio (num den : Nat) : Nat :=
  let scaled := num * unitsOfOne
  let shift := (scaled / den).log2 - 52
  min (shift * Nat.pow 2 52 + roundDiv scaled (den * Nat.pow 2 shift)) infinityCode

theorem codeOfRatio_lt (num den : Nat) : codeOfRatio num den < Nat.pow 2 63 :=
  Nat.lt_of_le_of_lt (Nat.min_le_right ..) (by decide)

/-- The double nearest to the fraction `num / den` with the given sign. -/
def ofRatio (negative : Bool) (num den : Nat) : Double :=
  ⟨negative, ⟨codeOfRatio num den, codeOfRatio_lt num den⟩⟩

/-- Equality as numbers: the two zeros are equal, and a number without a value equals nothing. -/
def equals (x y : Double) : Bool :=
  !x.isNaN && !y.isNaN && (x = y || x.isZero && y.isZero)

end Double
end ObjectTransfer
