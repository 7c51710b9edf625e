import ObjectTransfer.Proofs.Token.Scanning

/-!
# The longest numeral

What is read of a number at the front of a text is the longest numeral there
(`Numeral.isLongest_read`), and there is only one (`Numeral.IsLongest.read_eq`).
-/

namespace ObjectTransfer.Numeral

/-- The numeral stands at the front of `cs`, and no longer one does. -/
structure IsLongest (n : Numeral) (cs : List Char) : Prop where
  wellFormed : n.WellFormed
  front : n.text <+: cs
  longest : ∀ m : Numeral, m.WellFormed → m.text <+: cs → m.text.length ≤ n.text.length

variable {n m : Numeral} {cs : List Char}

/-- No numeral at the front of a text is longer than the one that is read. -/
theorem length_text_le_read (hn : n.WellFormed) (h : n.text <+: cs) :
    n.text.length ≤ (read cs).text.length := by
  obtain ⟨rest, rfl⟩ := h
  rw [read_text_append hn, text_eq, text_eq]
  by_cases hnone : n.fraction = []
  · have hwritten : n.fractionText = [] := if_pos hnone
    simp only [hwritten, List.length_append, List.length_nil]
    omega
  · -- Behind a point, the digits of the fraction are read with those that follow them.
    have hwritten : n.fractionText = '.' :: n.fraction := if_neg hnone
    have hfraction : readFraction (('.' :: n.fraction ++ rest).dropWhile isDigit) =
        n.fraction ++ rest.takeWhile isDigit := List.takeWhile_append_of_pos hn.fraction_digits
    have hread : fractionText ⟨n.negative, n.whole ++ ('.' :: n.fraction ++ rest).takeWhile isDigit,
        n.fraction ++ rest.takeWhile isDigit⟩ = '.' :: (n.fraction ++ rest.takeWhile isDigit) :=
      if_neg (by simp [hnone])
    rw [hwritten, hfraction, hread]
    simp only [List.length_append, List.length_cons]
    omega

/-- What is read, if it has a digit, is the longest numeral. -/
theorem isLongest_read (h : (read cs).whole ≠ []) : (read cs).IsLongest cs :=
  ⟨wellFormed_read h, text_read_prefix cs, fun _ hm hfront => length_text_le_read hm hfront⟩

/-- A numeral is determined by its text. -/
theorem eq_of_text_eq (hn : n.WellFormed) (hm : m.WellFormed) (h : n.text = m.text) : n = m := by
  have hends : Ends [] := fun _ hc => absurd hc (by simp)
  rw [← read_append hn (hends.endsBefore n), h, read_append hm (hends.endsBefore m)]

/-- The longest numeral is what is read. -/
theorem IsLongest.read_eq (h : n.IsLongest cs) : read cs = n := by
  have hwhole : (read cs).whole ≠ [] := by
    obtain ⟨rest, rfl⟩ := h.front
    rw [read_text_append h.wellFormed]
    simp [h.wellFormed.whole_ne_nil]
  have hread := isLongest_read hwhole
  have hlength : (read cs).text.length = n.text.length :=
    Nat.le_antisymm (h.longest _ hread.wellFormed hread.front)
      (hread.longest _ h.wellFormed h.front)
  apply eq_of_text_eq hread.wellFormed h.wellFormed
  exact (List.prefix_of_prefix_length_le hread.front h.front hlength.le).eq_of_length hlength

end ObjectTransfer.Numeral
