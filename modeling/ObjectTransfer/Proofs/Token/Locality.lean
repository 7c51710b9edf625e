import ObjectTransfer.Proofs.Token.Scanning

/-!
# A token is decided by its own text

A token is read from its text alone: in front of another rest, and at another place, the same
characters are read as a token of the same kind (`Scans.reframe`), unless the other rest goes on in a
word or a number that has ended in front of the first (`EndsAlike`).
-/

namespace ObjectTransfer

/-- The content of a string is decided by the characters up to its closing quote. -/
theorem readString_local {content cs found : List Char} {p : Position} {next : Cursor}
    (h : readString content cs p = (some found, next)) :
    ∃ body, Cursor.Reads ⟨cs, p⟩ body next ∧ ∀ rest q,
      readString content (body ++ rest) q = (some found, ⟨rest, q.advanceBy body⟩) := by
  fun_induction readString content cs p with
  | case1 => exact absurd h (by simp)
  | case2 content cs p =>
    obtain ⟨hfound, rfl⟩ := Prod.mk.inj h
    refine ⟨['"'], Cursor.reads_cons (Cursor.reads_refl _), fun rest q => ?_⟩
    rw [List.singleton_append, readString, hfound]
    rfl
  | case3 content a cs p meant hmeant ih =>
    obtain ⟨body, hbody, hread⟩ := ih h
    refine ⟨_, Cursor.reads_cons (Cursor.reads_cons hbody), fun rest q => ?_⟩
    rw [List.cons_append, List.cons_append, readString, hmeant]
    exact hread rest _
  | case4 content a cs p hmeant ih =>
    obtain ⟨body, hbody, hread⟩ := ih h
    -- The character after the backslash is read anew, so it is the first of what is read then.
    obtain ⟨first, others, rfl⟩ : ∃ first others, body = first :: others := by
      refine List.exists_cons_of_ne_nil ?_
      rintro rfl
      exact absurd (hread [] p) (by simp [readString])
    obtain ⟨rfl, -⟩ := List.cons.inj hbody.rest
    refine ⟨_, Cursor.reads_cons hbody, fun rest q => ?_⟩
    rw [List.cons_append, List.cons_append, readString, hmeant]
    exact hread rest _
  | case5 content a cs p hquote hescape ih =>
    obtain ⟨body, hbody, hread⟩ := ih h
    -- A backslash here would be the last character of the text, and then the string does not end.
    have hbackslash : a ≠ '\\' := by
      rintro rfl
      cases cs with
      | nil => exact absurd h (by simp [readString])
      | cons second others => exact hescape second others rfl rfl
    refine ⟨_, Cursor.reads_cons hbody, fun rest q => ?_⟩
    rw [List.cons_append, readString]
    · exact hread rest _
    · exact hquote
    · exact fun _ _ ha => absurd ha hbackslash

/-- Where a token has ended in front of `rest`, it has ended in front of `rest'`. -/
structure EndsAlike (rest rest' : List Char) : Prop where
  word : WordEnds rest → WordEnds rest'
  fraction : Numeral.readFraction rest = [] → Numeral.readFraction rest' = []

theorem Apart.readFraction_eq_nil {rest : List Char} (h : Apart rest) :
    Numeral.readFraction rest = [] :=
  Numeral.readFraction_eq_nil_of_head fun hpoint => (h _ hpoint).2 rfl

/-- Every token has ended in front of what goes on neither in a word nor in a number. -/
theorem Apart.endsAlike {rest' : List Char} (h : Apart rest') (rest : List Char) :
    EndsAlike rest rest' :=
  ⟨fun _ => h.wordEnds, fun _ => h.readFraction_eq_nil⟩

theorem apart_nil : Apart [] := fun _ h => absurd h (by simp)

theorem WordEnds.isDigit_head {rest : List Char} (h : WordEnds rest) :
    ∀ c ∈ rest.head?, isDigit c = false := by
  intro c hc
  exact (Bool.or_eq_false_iff.mp (h c hc)).2

theorem wordEnds_dropWhile (cs : List Char) : WordEnds (cs.dropWhile isWordPart) := by
  intro c hc
  have hnot := List.head?_dropWhile_not isWordPart cs
  rw [hc] at hnot
  exact hnot

/-- What follows a token ends it alike if only what comes later is replaced, by what goes on neither
in a word nor in a number. -/
theorem Apart.endsAlike_append {rest' : List Char} (h : Apart rest') (text rest : List Char) :
    EndsAlike (text ++ rest) (text ++ rest') := by
  cases text with
  | nil => exact h.endsAlike rest
  | cons first others =>
    refine ⟨id, fun hnone => ?_⟩
    by_cases hpoint : first = '.'
    · subst hpoint
      -- The digits after the point, if there were any, would stand in the part that is kept.
      have hnone : (others ++ rest).takeWhile isDigit = [] := hnone
      show (others ++ rest').takeWhile isDigit = []
      cases others with
      | nil =>
        have hnone : ∀ a ∈ ([] : List Char), isDigit a := fun _ ha => absurd ha List.not_mem_nil
        exact takeWhile_append_of_head hnone h.wordEnds.isDigit_head
      | cons second others =>
        rw [List.cons_append, List.takeWhile_cons] at hnone ⊢
        split_ifs at hnone ⊢
        · rfl
    · exact Numeral.readFraction_eq_nil_of_head (by simpa using hpoint)

namespace Cursor

variable {d : Dialect} {c next : Cursor} {kind : Token.Kind} {text rest : List Char}

/-- The same characters are a token of the same kind in front of another rest. -/
theorem Scans.reframe (h : c.Scans d kind next) (hreads : c.Reads text next)
    (hrest : EndsAlike next.rest rest) (p : Position) :
    Scans d ⟨text ++ rest, p⟩ kind ⟨rest, p.advanceBy text⟩ := by
  cases h with
  | @mark m starts =>
    obtain ⟨others, hothers⟩ := List.head?_eq_some_iff.mp starts
    obtain rfl := hreads.text_unique (reads_after ⟨others, hothers.symm⟩)
    have hmark := Scans.mark (d := d) (c := ⟨[m.char] ++ rest, p⟩) rfl
    rwa [after_append] at hmark
  | @string content next starts closes =>
    obtain ⟨others, hothers⟩ := List.head?_eq_some_iff.mp starts
    obtain ⟨body, hbody, hread⟩ := readString_local closes
    rw [hothers] at hbody
    have hquoted := reads_cons hbody
    rw [List.tail_cons, ← hothers] at hquoted
    obtain rfl := hreads.text_unique hquoted
    exact .string rfl (hread rest (p.advance '"'))
  | @number first starts opens whole ends finite =>
    obtain rfl := hreads.text_unique (reads_after (Numeral.text_read_prefix c.rest))
    set n := Numeral.read c.rest with hn
    have hends : n.EndsBefore rest := by
      refine ⟨(hrest.word ends).isDigit_head, fun hnone => hrest.fraction ?_⟩
      exact Numeral.readFraction_eq_nil_of_read hn.symm hreads.rest.symm whole hnone
    have hsame : Numeral.read (n.text ++ rest) = n :=
      Numeral.read_append (Numeral.wellFormed_read whole) hends
    obtain ⟨first', others, htext, hfirst⟩ :=
      Numeral.exists_text_eq_cons (Numeral.wellFormed_read whole)
    have hstarts : (n.text ++ rest).head? = some first' := by
      rw [htext]
      rfl
    have hnumber := Scans.number (d := d) (c := ⟨n.text ++ rest, p⟩) hstarts hfirst (by rwa [hsame])
      (by rw [hsame, after_append]; exact hrest.word ends) (by rwa [hsame])
    rwa [hsame, after_append] at hnumber
  | @word first starts opens =>
    obtain rfl := hreads.text_unique (reads_after (List.takeWhile_prefix _))
    set word := c.rest.takeWhile isWordPart with hword
    have hends : WordEnds rest := by
      refine hrest.word ?_
      rw [hword, rest_after_takeWhile]
      exact wordEnds_dropWhile c.rest
    have hsame : (word ++ rest).takeWhile isWordPart = word :=
      takeWhile_append_of_head (fun _ ha => List.mem_takeWhile_imp ha) hends
    have hstarts : (word ++ rest).head? = some first := by
      obtain ⟨others, hothers⟩ := List.head?_eq_some_iff.mp starts
      rw [hword, hothers, List.takeWhile_cons, if_pos (by simp [isWordPart, opens])]
      rfl
    have hscans := Scans.word (d := d) (c := ⟨word ++ rest, p⟩) hstarts opens
    rwa [hsame, after_append] at hscans

end Cursor
end ObjectTransfer
