import ObjectTransfer.Number.Layout
import ObjectTransfer.Proofs.Number.Rounding
import ObjectTransfer.Token.Numeral
import Mathlib.Data.List.TakeWhile
import Mathlib.Tactic.Set
import Mathlib.Tactic.SplitIfs

/-!
# Numbers as they are written in source text

In source text a number is a numeral: a sign, digits, and possibly a point with digits after it.

* `Numeral.read_append`: a numeral is read back from any text that goes on with neither a digit nor
  a fraction;
* `Double.exists_numeral`: what is written for a finite double is a numeral of that value.
-/

namespace ObjectTransfer

/-! ## Digits -/

theorem digitsValue_eq (digits : List Char) : digitsValue digits = Nat.ofDigitChars 10 digits 0 := by
  unfold digitsValue
  rw [Nat.ofDigitChars_eq_foldl]
  simp only [Nat.mul_comm]

/-- Zeros at the end multiply by powers of ten. -/
theorem digitsValue_append_zeros (digits : List Char) (count : Nat) :
    digitsValue (digits ++ List.replicate count '0') = digitsValue digits * 10 ^ count := by
  rw [digitsValue_eq, digitsValue_eq, Nat.ofDigitChars_append, Nat.ofDigitChars_replicate_zero,
    Nat.mul_comm]

/-- Zeros in front count for nothing. -/
theorem digitsValue_zeros_append (count : Nat) (digits : List Char) :
    digitsValue (List.replicate count '0' ++ digits) = digitsValue digits := by
  rw [digitsValue_eq, digitsValue_eq, Nat.ofDigitChars_append, Nat.ofDigitChars_replicate_zero,
    Nat.mul_zero]

theorem isDigit_of_mem_zeros {c : Char} {count : Nat} (h : c ∈ List.replicate count '0') :
    isDigit c := by
  rw [List.eq_of_mem_replicate h]
  decide

namespace Decimal

theorem isDigit_of_mem_digits {d : Decimal} {c : Char} (h : c ∈ d.digits) : isDigit c :=
  Nat.isDigit_of_mem_toDigits (by decide) (by decide) h

theorem digits_ne_nil (d : Decimal) : d.digits ≠ [] := Nat.toDigits_ne_nil

theorem digitsValue_digits (d : Decimal) : digitsValue d.digits = d.significand := by
  rw [digitsValue_eq]
  exact Nat.ofDigitChars_ten_toDigits

end Decimal

/-! ## Runs of characters -/

/-- A run of characters of a class ends where the next character is not of the class. -/
theorem takeWhile_append_of_head {p : Char → Bool} {run rest : List Char}
    (hrun : ∀ c ∈ run, p c) (hrest : ∀ c ∈ rest.head?, p c = false) :
    (run ++ rest).takeWhile p = run := by
  rw [List.takeWhile_append_of_pos hrun]
  cases rest with
  | nil => simp
  | cons c cs => simp [hrest c rfl]

theorem dropWhile_append_of_head {p : Char → Bool} {run rest : List Char}
    (hrun : ∀ c ∈ run, p c) (hrest : ∀ c ∈ rest.head?, p c = false) :
    (run ++ rest).dropWhile p = rest := by
  rw [List.dropWhile_append_of_pos hrun]
  cases rest with
  | nil => rfl
  | cons c cs => simp [hrest c rfl]

/-! ## Numerals -/

namespace Numeral

/-- What a numeral is made of: digits alone, and at least one before the point. -/
structure WellFormed (n : Numeral) : Prop where
  whole_ne_nil : n.whole ≠ []
  whole_digits : ∀ c ∈ n.whole, isDigit c
  fraction_digits : ∀ c ∈ n.fraction, isDigit c

/-- A text after which a numeral has ended: it starts with no digit and no point. -/
def Ends (rest : List Char) : Prop := ∀ c ∈ rest.head?, isDigit c = false ∧ c ≠ '.'

/-- What is written of a numeral after its whole digits. -/
def fractionText (n : Numeral) : List Char := if n.fraction = [] then [] else '.' :: n.fraction

/-- What is written of a sign. -/
def signText (negative : Bool) : List Char := if negative then ['-'] else []

/-- A text is a sign, if it has one, and what follows it. -/
theorem exists_unsigned (cs : List Char) : ∃ negative unsigned,
    cs = signText negative ++ unsigned ∧ (negative = false → unsigned.head? ≠ some '-') := by
  by_cases hminus : cs.head? = some '-'
  · obtain ⟨unsigned, rfl⟩ := List.head?_eq_some_iff.mp hminus
    exact ⟨true, unsigned, rfl, nofun⟩
  · exact ⟨false, cs, rfl, fun _ => hminus⟩

theorem read_signText_append {negative : Bool} {unsigned : List Char}
    (h : negative = false → unsigned.head? ≠ some '-') :
    read (signText negative ++ unsigned) =
      ⟨negative, unsigned.takeWhile isDigit,
        if unsigned.takeWhile isDigit = [] then [] else
          readFraction (unsigned.dropWhile isDigit)⟩ := by
  cases negative with
  | true => simp [read, signText]
  | false => simp [read, signText, h rfl]

theorem text_eq (n : Numeral) :
    n.text = signText n.negative ++ (n.whole ++ n.fractionText) :=
  List.append_assoc ..

/-- A numeral starts with its sign or with a digit. -/
theorem exists_text_eq_cons {n : Numeral} (hn : n.WellFormed) :
    ∃ first others, n.text = first :: others ∧ (first = '-' ∨ isDigit first) := by
  obtain ⟨first, others, hcons⟩ := List.exists_cons_of_ne_nil hn.whole_ne_nil
  have hfirst : isDigit first := hn.whole_digits first (hcons ▸ List.mem_cons_self)
  rw [text_eq, hcons]
  cases n.negative with
  | true => exact ⟨'-', _, rfl, .inl rfl⟩
  | false => exact ⟨first, _, rfl, .inr hfirst⟩

/-- The numeral has ended where `rest` starts: neither a digit nor a fraction prolongs it. -/
structure EndsBefore (n : Numeral) (rest : List Char) : Prop where
  digit : ∀ c ∈ rest.head?, isDigit c = false
  fraction : n.fraction = [] → readFraction rest = []

theorem readFraction_eq_nil_of_head {rest : List Char} (h : rest.head? ≠ some '.') :
    readFraction rest = [] := by
  unfold readFraction
  split
  · exact absurd rfl h
  · rfl

theorem Ends.endsBefore {rest : List Char} (h : Ends rest) (n : Numeral) : n.EndsBefore rest where
  digit c hc := (h c hc).1
  fraction _ := readFraction_eq_nil_of_head fun hpoint => (h _ hpoint).2 rfl

/-- What follows the whole digits of a numeral starts with no digit. -/
theorem head_fractionText_append {n : Numeral} {rest : List Char} (hrest : n.EndsBefore rest) :
    ∀ c ∈ (n.fractionText ++ rest).head?, isDigit c = false := by
  intro c hc
  unfold fractionText at hc
  by_cases hnone : n.fraction = []
  · rw [if_pos hnone] at hc
    exact hrest.digit c hc
  · rw [if_neg hnone] at hc
    obtain rfl := Option.mem_some.mp hc
    decide

/-- The digits after the point are read back, and none are found where there is no point. -/
theorem readFraction_append {n : Numeral} (hn : n.WellFormed) {rest : List Char}
    (hrest : n.EndsBefore rest) : readFraction (n.fractionText ++ rest) = n.fraction := by
  unfold fractionText
  by_cases hnone : n.fraction = []
  · rw [if_pos hnone, hnone]
    exact hrest.fraction hnone
  · rw [if_neg hnone]
    show (n.fraction ++ rest).takeWhile isDigit = n.fraction
    exact takeWhile_append_of_head hn.fraction_digits hrest.digit

/-- In front of any rest, a numeral is read with the digits that follow it, or with the fraction. -/
theorem read_text_append {n : Numeral} (hn : n.WellFormed) (rest : List Char) :
    read (n.text ++ rest) =
      ⟨n.negative, n.whole ++ (n.fractionText ++ rest).takeWhile isDigit,
        readFraction ((n.fractionText ++ rest).dropWhile isDigit)⟩ := by
  obtain ⟨first, others, hcons⟩ := List.exists_cons_of_ne_nil hn.whole_ne_nil
  have hminus : (n.whole ++ (n.fractionText ++ rest)).head? ≠ some '-' := by
    intro hhead
    rw [hcons] at hhead
    obtain rfl : first = '-' := Option.some.inj hhead
    exact absurd (hn.whole_digits '-' (hcons ▸ List.mem_cons_self)) (by decide)
  -- The sign is read if and only if it is there, since no digit is a minus sign.
  have hread := read_signText_append fun (_ : n.negative = false) => hminus
  rw [List.takeWhile_append_of_pos hn.whole_digits, List.dropWhile_append_of_pos hn.whole_digits,
    if_neg (by simp [hn.whole_ne_nil])] at hread
  rw [text_eq, List.append_assoc, List.append_assoc, hread]

/-- The numeral that stands in front of `rest` is read as such. -/
theorem read_append {n : Numeral} (hn : n.WellFormed) {rest : List Char}
    (hrest : n.EndsBefore rest) : read (n.text ++ rest) = n := by
  have hhead := head_fractionText_append hrest
  have hnodigit : ∀ c ∈ ([] : List Char), isDigit c := fun _ hc => absurd hc List.not_mem_nil
  have hdigits := takeWhile_append_of_head hnodigit hhead
  have hafter := dropWhile_append_of_head hnodigit hhead
  rw [List.nil_append] at hdigits hafter
  rw [read_text_append hn, hdigits, hafter, readFraction_append hn hrest, List.append_nil]

/-- A numeral that is read is its sign, the digits in front of what follows them, and what has been
read of that. -/
theorem read_eq_of_text {n : Numeral} {cs rest : List Char} (hn : read cs = n)
    (hcs : n.text ++ rest = cs) (hwhole : n.whole ≠ []) :
    ∃ unsigned, cs = signText n.negative ++ unsigned ∧
      (n.negative = false → unsigned.head? ≠ some '-') ∧ unsigned.takeWhile isDigit = n.whole ∧
      unsigned.dropWhile isDigit = n.fractionText ++ rest ∧
      n.fraction = readFraction (n.fractionText ++ rest) := by
  obtain ⟨negative, unsigned, hunsigned, hsign⟩ := exists_unsigned cs
  have hread := read_signText_append hsign
  rw [← hunsigned, hn] at hread
  have hdigits : unsigned.takeWhile isDigit ≠ [] := by rwa [hread] at hwhole
  rw [if_neg hdigits] at hread
  have hnegative : n.negative = negative := by rw [hread]
  have hrun : unsigned.takeWhile isDigit = n.whole := by rw [hread]
  have hafter : unsigned.dropWhile isDigit = n.fractionText ++ rest := by
    have hsplit : signText negative ++ (n.whole ++ (n.fractionText ++ rest)) =
        signText negative ++ (n.whole ++ unsigned.dropWhile isDigit) := by
      rw [← hrun, List.takeWhile_append_dropWhile, ← hunsigned, hrun, ← hcs, text_eq, hnegative,
        List.append_assoc, List.append_assoc]
    exact (List.append_cancel_left (List.append_cancel_left hsplit)).symm
  subst hnegative
  refine ⟨unsigned, hunsigned, hsign, hrun, hafter, ?_⟩
  rw [← hafter, hread]

theorem isDigit_of_mem_readFraction {c : Char} {cs : List Char} (h : c ∈ readFraction cs) :
    isDigit c := by
  unfold readFraction at h
  split at h
  · exact List.mem_takeWhile_imp h
  · exact absurd h List.not_mem_nil

theorem wellFormed_read {cs : List Char} (hwhole : (read cs).whole ≠ []) :
    (read cs).WellFormed := by
  refine ⟨hwhole, fun c hc => List.mem_takeWhile_imp hc, fun c hc => ?_⟩
  dsimp only [read] at hc
  split_ifs at hc
  all_goals first
    | exact isDigit_of_mem_readFraction hc
    | exact absurd hc List.not_mem_nil

/-- No fraction follows a numeral that is read without one. -/
theorem readFraction_eq_nil_of_read {n : Numeral} {cs rest : List Char} (hn : read cs = n)
    (hcs : n.text ++ rest = cs) (hwhole : n.whole ≠ []) (hnone : n.fraction = []) :
    readFraction rest = [] := by
  obtain ⟨-, -, -, -, -, hfraction⟩ := read_eq_of_text hn hcs hwhole
  rw [hnone, fractionText, if_pos hnone] at hfraction
  exact hfraction.symm

end Numeral

/-! ## The numeral of a decimal -/

/-- The numeral is what is written of the decimal, and it reads as the decimal does. -/
structure Numeral.Renders (n : Numeral) (negative : Bool) (d : Decimal) : Prop where
  wellFormed : n.WellFormed
  sign : n.negative = negative
  text : n.whole ++ n.fractionText = d.positionalText []
  value : n.value = d.toDouble negative

namespace Decimal

/-- A whole decimal is written with its zeros. -/
theorem exists_renders_whole (negative : Bool) (significand e : Nat) :
    ∃ n : Numeral, n.Renders negative ⟨significand, .ofNat e⟩ := by
  set d : Decimal := ⟨significand, .ofNat e⟩ with hd
  -- Zero is written without the zeros of its exponent.
  set zeros := if significand = 0 then 0 else e with hzeros
  refine ⟨⟨negative, d.digits ++ List.replicate zeros '0', []⟩, ⟨?_, ?_, ?_⟩, rfl, ?_, ?_⟩
  · simp [d.digits_ne_nil]
  · intro c hc
    rcases List.mem_append.mp hc with hdigit | hzero
    · exact isDigit_of_mem_digits hdigit
    · exact isDigit_of_mem_zeros hzero
  · simp
  · rfl
  · have hsize : digitsValue (d.digits ++ List.replicate zeros '0') = significand * 10 ^ e := by
      rw [digitsValue_append_zeros, digitsValue_digits]
      by_cases hsignificand : significand = 0
      · simp [hd, hsignificand]
      · rw [hzeros, if_neg hsignificand]
    have hmove := toDouble_mul_ten_pow negative significand e e
    rw [Int.sub_self] at hmove
    simp only [Numeral.value, Numeral.size, List.append_nil, hsize]
    exact hmove

/-- A decimal with more digits than places is written with a point among its digits. -/
theorem exists_renders_split (negative : Bool) (significand e : Nat)
    (hwhole : 0 < (digits ⟨significand, .negSucc e⟩).length - (e + 1)) :
    ∃ n : Numeral, n.Renders negative ⟨significand, .negSucc e⟩ := by
  set d : Decimal := ⟨significand, .negSucc e⟩ with hd
  set whole := d.digits.length - (e + 1) with hwholeDef
  have hlength : (d.digits.drop whole).length = e + 1 := by
    rw [List.length_drop]
    omega
  have hfraction : d.digits.drop whole ≠ [] := List.ne_nil_of_length_eq_add_one hlength
  have htext : positionalText [] d = d.digits.take whole ++ '.' :: d.digits.drop whole := by
    simp only [positionalText, hd]
    exact if_pos hwhole
  refine ⟨⟨negative, d.digits.take whole, d.digits.drop whole⟩, ⟨?_, ?_, ?_⟩, rfl, ?_, ?_⟩
  · have hne := d.digits_ne_nil
    simp only [ne_eq, List.take_eq_nil_iff, hne, or_false]
    omega
  · exact fun c hc => isDigit_of_mem_digits (List.mem_of_mem_take hc)
  · exact fun c hc => isDigit_of_mem_digits (List.mem_of_mem_drop hc)
  · rw [htext]
    simp [Numeral.fractionText, hfraction]
  · simp only [Numeral.value, Numeral.size, List.take_append_drop, digitsValue_digits, hlength]
    rfl

/-- A decimal with no more digits than places is written with zeros around the point. -/
theorem exists_renders_zeros (negative : Bool) (significand e : Nat)
    (hwhole : ¬ 0 < (digits ⟨significand, .negSucc e⟩).length - (e + 1)) :
    ∃ n : Numeral, n.Renders negative ⟨significand, .negSucc e⟩ := by
  set d : Decimal := ⟨significand, .negSucc e⟩ with hd
  set zeros := e + 1 - d.digits.length with hzeros
  set fraction := List.replicate zeros '0' ++ d.digits with hfractionDef
  have hlength : fraction.length = e + 1 := by
    rw [hfractionDef, List.length_append, List.length_replicate]
    omega
  have hfraction : fraction ≠ [] := List.ne_nil_of_length_eq_add_one hlength
  have htext : positionalText [] d = ['0'] ++ '.' :: fraction := by
    simp only [positionalText, hd]
    exact if_neg hwhole
  refine ⟨⟨negative, ['0'], fraction⟩, ⟨?_, ?_, ?_⟩, rfl, ?_, ?_⟩
  · simp
  · simp [isDigit]
  · intro c hc
    rcases List.mem_append.mp hc with hzero | hdigit
    · exact isDigit_of_mem_zeros hzero
    · exact isDigit_of_mem_digits hdigit
  · rw [htext]
    simp [Numeral.fractionText, hfraction]
  · have hsize : digitsValue (['0'] ++ fraction) = significand := by
      rw [hfractionDef, ← List.append_assoc]
      show digitsValue (List.replicate (zeros + 1) '0' ++ d.digits) = significand
      rw [digitsValue_zeros_append, digitsValue_digits]
    simp only [Numeral.value, Numeral.size, hsize, hlength]
    rfl

/-- What is written of a decimal is a numeral that reads as the decimal does. -/
theorem exists_renders (negative : Bool) (d : Decimal) : ∃ n : Numeral, n.Renders negative d := by
  obtain ⟨significand, exponent⟩ := d
  cases exponent with
  | ofNat e => exact exists_renders_whole negative significand e
  | negSucc e =>
    by_cases hwhole : 0 < (digits ⟨significand, .negSucc e⟩).length - (e + 1)
    · exact exists_renders_split negative significand e hwhole
    · exact exists_renders_zeros negative significand e hwhole

end Decimal

namespace Double

/-- In source text the size of a number is always written without an exponent. -/
theorem text_source (d : Decimal) : d.text .source = d.positionalText [] := by
  unfold Decimal.text
  exact if_pos (by simp [NumberLayout.isPositional, NumberLayout.source])

/-- What is written for a finite double in source text is a numeral of that value. -/
theorem exists_numeral {x : Double} (hx : x.isFinite) :
    ∃ n : Numeral, n.WellFormed ∧ n.text = x.chars .source ∧ n.value = x := by
  have hnan : x.isNaN = false := by
    have hcode : x.code.val < infinityCode := of_decide_eq_true hx
    simp [isNaN, Nat.le_of_lt hcode]
  obtain ⟨d, hd, hvalue⟩ : ∃ d : Decimal,
      x.sizeText .source = d.positionalText [] ∧ d.toDouble x.negative = x := by
    unfold sizeText
    rw [if_pos hx]
    -- Zero is written as such, without looking for a shortest decimal.
    by_cases hzero : x.isZero
    · rw [if_pos hzero, text_source]
      exact ⟨_, rfl, toDouble_zero hzero⟩
    · rw [if_neg hzero, text_source]
      exact ⟨_, rfl, toDouble_shortest _ hx⟩
  obtain ⟨n, hn, hsign, htext, hread⟩ := d.exists_renders x.negative
  refine ⟨n, hn, ?_, hread.trans hvalue⟩
  rw [Numeral.text_eq, hsign, htext, ← hd]
  unfold chars
  rw [hnan]
  cases x.negative <;> rfl

end Double
end ObjectTransfer
