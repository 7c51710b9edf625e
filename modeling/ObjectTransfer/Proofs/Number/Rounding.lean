import ObjectTransfer.Number.Decimal
import Mathlib.Algebra.Ring.Nat

/-!
# Rounding to the nearest double

Three facts about reading a fraction as a double:

* the result depends on the fraction alone, not on how far it is reduced (`ofRatio_mul_mul_right`),
  so neither moving the point of a decimal nor dropping its last zeros changes what it reads as;
* a size that a double has exactly is read as that double (`codeOfRatio_units`);
* hence the whole decimal expansion of a finite double reads back to it (`toDouble_expansion`).
-/

namespace ObjectTransfer

/-! ## Rounding a quotient -/

theorem roundDiv_mul_mul_right (num den : Nat) {k : Nat} (hk : 0 < k) :
    roundDiv (num * k) (den * k) = roundDiv num den := by
  unfold roundDiv
  rw [Nat.mul_div_mul_right num den hk, Nat.mul_mod_mul_right, ← Nat.mul_assoc]
  simp only [Nat.mul_lt_mul_right hk]

/-- A multiple of the denominator is divided without rounding. -/
theorem roundDiv_mul_self (quotient : Nat) {den : Nat} (hden : 0 < den) :
    roundDiv (quotient * den) den = quotient := by
  unfold roundDiv
  rw [Nat.mul_div_cancel quotient hden, Nat.mul_mod_left]
  simp [hden]

namespace Double

theorem infinityCode_eq : infinityCode = 2047 * 2 ^ 52 := rfl

theorem unitsOfCode_eq (code : Nat) :
    unitsOfCode code =
      if code < 2 ^ 53 then code else (2 ^ 52 + code % 2 ^ 52) * 2 ^ (code / 2 ^ 52 - 1) :=
  rfl

theorem codeOfRatio_eq (num den : Nat) :
    codeOfRatio num den =
      min
        (((num * unitsOfOne / den).log2 - 52) * 2 ^ 52 +
          roundDiv (num * unitsOfOne) (den * 2 ^ ((num * unitsOfOne / den).log2 - 52)))
        infinityCode :=
  rfl

theorem unitsOfOne_pos : 0 < unitsOfOne := Nat.two_pow_pos 1074

theorem codeOfRatio_mul_mul_right (num den : Nat) {k : Nat} (hk : 0 < k) :
    codeOfRatio (num * k) (den * k) = codeOfRatio num den := by
  have hscaled : num * k * unitsOfOne = num * unitsOfOne * k := Nat.mul_right_comm ..
  rw [codeOfRatio_eq, codeOfRatio_eq, hscaled, Nat.mul_div_mul_right _ den hk]
  -- Both sides round at the same place, so the place does not matter.
  generalize 2 ^ ((num * unitsOfOne / den).log2 - 52) = unit
  rw [Nat.mul_right_comm den k unit, roundDiv_mul_mul_right _ _ hk]

theorem ofRatio_mul_mul_right (negative : Bool) (num den : Nat) {k : Nat} (hk : 0 < k) :
    ofRatio negative (num * k) (den * k) = ofRatio negative num den := by
  unfold ofRatio
  simp only [codeOfRatio_mul_mul_right num den hk]

/-! ## Sizes that a double has exactly -/

/-- The size of a code with its exponent field written out: the fraction field `fraction` has a
leading one before it, and the exponent field is one more than `shift`. -/
theorem unitsOfCode_normal (shift fraction : Nat) (hfraction : fraction < 2 ^ 52) :
    unitsOfCode ((shift + 1) * 2 ^ 52 + fraction) = (2 ^ 52 + fraction) * 2 ^ shift := by
  rw [unitsOfCode_eq]
  have hdiv : ((shift + 1) * 2 ^ 52 + fraction) / 2 ^ 52 = shift + 1 := by omega
  have hmod : ((shift + 1) * 2 ^ 52 + fraction) % 2 ^ 52 = fraction := by omega
  rw [hdiv, hmod]
  by_cases hsmall : (shift + 1) * 2 ^ 52 + fraction < 2 ^ 53
  · -- The first normal sizes are as large as their codes.
    have hshift : shift = 0 := by omega
    rw [if_pos hsmall, hshift]
    omega
  · rw [if_neg hsmall, Nat.add_sub_cancel]

theorem log2_mul_two_pow (significand shift : Nat) (hlow : 2 ^ 52 ≤ significand)
    (hhigh : significand < 2 ^ 53) : (significand * 2 ^ shift).log2 = 52 + shift := by
  have hne : significand * 2 ^ shift ≠ 0 :=
    Nat.mul_ne_zero (by omega) (Nat.pos_iff_ne_zero.mp (Nat.two_pow_pos shift))
  rw [Nat.log2_eq_iff hne]
  constructor
  · rw [Nat.pow_add]
    exact Nat.mul_le_mul_right _ hlow
  · rw [Nat.add_right_comm, Nat.pow_add]
    exact Nat.mul_lt_mul_of_pos_right hhigh (Nat.two_pow_pos shift)

/-- The size of a finite code, as a number of units of `2 ^ -1074`, has that code. -/
theorem codeOfRatio_units {code : Nat} (hcode : code < infinityCode) :
    codeOfRatio (unitsOfCode code) unitsOfOne = code := by
  rw [infinityCode_eq] at hcode
  rw [codeOfRatio_eq, infinityCode_eq, Nat.mul_div_cancel _ unitsOfOne_pos,
    Nat.mul_comm unitsOfOne, roundDiv_mul_mul_right _ _ unitsOfOne_pos]
  by_cases hsmall : code < 2 ^ 53
  · -- A subnormal size, or one of the first binade: nothing is shifted out.
    have hunits : unitsOfCode code = code := if_pos hsmall
    have hlog : code.log2 - 52 = 0 := by
      by_cases hzero : code = 0
      · simp [hzero]
      · have := (Nat.log2_lt hzero).mpr hsmall
        omega
    have hround := roundDiv_mul_self code Nat.one_pos
    rw [Nat.mul_one] at hround
    rw [hunits, hlog, Nat.pow_zero, hround]
    omega
  · -- A size with a leading one: rounding shifts out the zeros that `shift` has put behind it.
    obtain ⟨shift, fraction, hfraction, rfl⟩ :
        ∃ shift fraction, fraction < 2 ^ 52 ∧ code = (shift + 1) * 2 ^ 52 + fraction :=
      ⟨code / 2 ^ 52 - 1, code % 2 ^ 52, Nat.mod_lt _ (by decide), by omega⟩
    rw [unitsOfCode_normal shift fraction hfraction,
      log2_mul_two_pow _ shift (by omega) (by omega), Nat.add_sub_cancel_left,
      roundDiv_mul_self _ (Nat.two_pow_pos shift)]
    omega

/-- A finite double is the one nearest to its own size. -/
theorem ofRatio_units {x : Double} (hx : x.isFinite) :
    ofRatio x.negative x.units unitsOfOne = x := by
  have hcode : x.code.val < infinityCode := of_decide_eq_true hx
  unfold ofRatio units
  simp only [codeOfRatio_units hcode]

theorem ofRatio_zero (negative : Bool) {den : Nat} (hden : 0 < den) :
    ofRatio negative 0 den = ofRatio negative 0 1 := by
  have hscale := ofRatio_mul_mul_right negative 0 1 hden
  rwa [Nat.zero_mul, Nat.one_mul] at hscale

/-- Zero is read as zero, of the sign it is written with. -/
theorem toDouble_zero {x : Double} (hx : x.isZero) :
    Decimal.toDouble x.negative ⟨0, 0⟩ = x := by
  have hcode : x.code.val = 0 := of_decide_eq_true hx
  have hfinite : x.isFinite := by
    unfold isFinite
    rw [hcode]
    decide
  have hunits : x.units = 0 := by
    unfold units
    rw [hcode]
    rfl
  have hread := ofRatio_units hfinite
  rw [hunits, ofRatio_zero _ unitsOfOne_pos] at hread
  exact hread

end Double

/-! ## Decimals that read as the same double -/

namespace Decimal

theorem toDouble_ofNat (negative : Bool) (significand e : Nat) :
    toDouble negative ⟨significand, .ofNat e⟩ = .ofRatio negative (significand * 10 ^ e) 1 :=
  rfl

theorem toDouble_negSucc (negative : Bool) (significand e : Nat) :
    toDouble negative ⟨significand, .negSucc e⟩ = .ofRatio negative significand (10 ^ (e + 1)) :=
  rfl

/-- The point moves left by one place when a zero is written at the end. -/
theorem toDouble_mul_ten (negative : Bool) (significand : Nat) (exponent : Int) :
    toDouble negative ⟨significand * 10, exponent - 1⟩ = toDouble negative ⟨significand, exponent⟩ := by
  cases exponent with
  | ofNat e =>
    cases e with
    | zero =>
      -- The power of ten moves from the numerator to the denominator.
      have hexp : (Int.ofNat 0 - 1 : Int) = Int.negSucc 0 := rfl
      rw [hexp, toDouble_negSucc, toDouble_ofNat, Nat.pow_zero, Nat.mul_one, Nat.pow_one]
      exact Double.ofRatio_mul_mul_right negative significand 1 (by decide)
    | succ e =>
      have hexp : (Int.ofNat (e + 1) - 1 : Int) = Int.ofNat e := by simp
      rw [hexp, toDouble_ofNat, toDouble_ofNat, Nat.pow_succ', ← Nat.mul_assoc]
  | negSucc e =>
    have hexp : (Int.negSucc e - 1 : Int) = Int.negSucc (e + 1) := rfl
    rw [hexp, toDouble_negSucc, toDouble_negSucc, Nat.pow_succ 10 (e + 1)]
    exact Double.ofRatio_mul_mul_right negative significand _ (by decide)

/-- The point moves left by `places` places when as many zeros are written at the end. -/
theorem toDouble_mul_ten_pow (negative : Bool) (significand : Nat) (exponent : Int) (places : Nat) :
    toDouble negative ⟨significand * 10 ^ places, exponent - places⟩ =
      toDouble negative ⟨significand, exponent⟩ := by
  induction places with
  | zero => simp
  | succ n ih =>
    have hexp : exponent - (n + 1 : Nat) = exponent - n - 1 := by omega
    rw [hexp, Nat.pow_succ, ← Nat.mul_assoc, toDouble_mul_ten, ih]

/-- Dropping the zeros at the end does not change what a decimal reads as. -/
theorem toDouble_trim (negative : Bool) (d : Decimal) :
    d.trim.toDouble negative = d.toDouble negative := by
  fun_induction trim d with
  | case1 d h ih =>
    have hsignificand : d.significand / 10 * 10 = d.significand := by omega
    rw [ih, ← toDouble_mul_ten, hsignificand, Int.add_sub_cancel]
  | case2 => rfl

end Decimal

namespace Double

/-- So many binary places are as many decimal places. -/
theorem toDouble_mul_five_pow (negative : Bool) (units : Nat) {places : Nat} (hplaces : 0 < places) :
    Decimal.toDouble negative ⟨units * 5 ^ places, -places⟩ =
      ofRatio negative units (2 ^ places) := by
  obtain ⟨e, rfl⟩ : ∃ e, places = e + 1 := ⟨places - 1, by omega⟩
  have hten : 10 ^ (e + 1) = 2 ^ (e + 1) * 5 ^ (e + 1) := Nat.mul_pow 2 5 (e + 1)
  have hexp : (-((e + 1 : Nat) : Int)) = Int.negSucc e := rfl
  rw [hexp, Decimal.toDouble_negSucc, hten, ofRatio_mul_mul_right _ _ _ (Nat.pow_pos (by decide))]

/-- The whole decimal expansion of a finite double reads back to it. -/
theorem toDouble_expansion {x : Double} (hx : x.isFinite) :
    x.expansion.toDouble x.negative = x := by
  have hread := toDouble_mul_five_pow x.negative x.units (show 0 < 1074 by decide)
  exact hread.trans (ofRatio_units hx)

/-- A neighbour is only taken if it reads back. -/
theorem toDouble_of_neighbour? {tie : Tie} {x : Double} {exponent : Int} {d : Decimal}
    (h : x.neighbour? tie exponent = some d) : d.toDouble x.negative = x := by
  -- A branch that takes a neighbour has found that this neighbour reads back.
  unfold neighbour? at h
  dsimp only at h
  split at h
  · rename_i hlower hupper
    split at h
    · exact Option.some.inj h ▸ eq_of_beq hlower
    · split at h
      · exact Option.some.inj h ▸ eq_of_beq hupper
      · split at h
        · exact Option.some.inj h ▸ eq_of_beq hlower
        · exact Option.some.inj h ▸ eq_of_beq hupper
  · rename_i hlower _
    exact Option.some.inj h ▸ eq_of_beq hlower
  · rename_i _ hupper
    exact Option.some.inj h ▸ eq_of_beq hupper
  · exact absurd h (by simp)

/-- The decimal that is written for a finite double reads back to it. -/
theorem toDouble_shortest (tie : Tie) {x : Double} (hx : x.isFinite) :
    (x.shortest tie).toDouble x.negative = x := by
  unfold shortest
  rw [Decimal.toDouble_trim]
  cases hfound : (List.range 17).findSome? fun n : Nat => x.neighbour? tie (x.magnitude - (n + 1)) with
  | none =>
    -- No short decimal was found, so the whole expansion is written.
    show x.expansion.toDouble x.negative = x
    exact toDouble_expansion hx
  | some d =>
    obtain ⟨n, -, hn⟩ := List.exists_of_findSome?_eq_some hfound
    exact toDouble_of_neighbour? hn

end Double
end ObjectTransfer
