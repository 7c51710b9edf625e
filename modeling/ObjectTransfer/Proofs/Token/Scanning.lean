import ObjectTransfer.Proofs.Token.Gaps

/-!
# How tokens are scanned

A token is scanned in one of four ways, by what it starts with (`Cursor.Scans`), and scanning it moves
the cursor over its text. It starts and ends where the cursor was before and after it.
-/

namespace ObjectTransfer

/-! ## Numerals -/

namespace Numeral

/-- The digits after a point, with the point, are the front of the text they are read from. -/
theorem fractionText_prefix {n : Numeral} {cs : List Char} (h : n.fraction = readFraction cs) :
    n.fractionText <+: cs := by
  unfold fractionText
  split_ifs with hnone
  · exact List.nil_prefix
  · rw [h] at hnone ⊢
    unfold readFraction at hnone ⊢
    split at hnone
    · exact List.cons_prefix_cons.mpr ⟨rfl, List.takeWhile_prefix _⟩
    · exact absurd rfl hnone

/-- A numeral is the front of the text that it is read from. -/
theorem text_read_prefix (cs : List Char) : (read cs).text <+: cs := by
  obtain ⟨negative, unsigned, rfl, hsign⟩ := exists_unsigned cs
  rw [read_signText_append hsign, text_eq]
  refine (List.prefix_append_right_inj _).mpr ?_
  by_cases hwhole : unsigned.takeWhile isDigit = []
  · simp [fractionText, hwhole]
  · have hfraction := fractionText_prefix (n := ⟨negative, unsigned.takeWhile isDigit,
      readFraction (unsigned.dropWhile isDigit)⟩) rfl
    rw [if_neg hwhole]
    conv_rhs => rw [← List.takeWhile_append_dropWhile (p := isDigit) (l := unsigned)]
    exact (List.prefix_append_right_inj _).mpr hfraction

end Numeral

/-! ## Moving -/

namespace Cursor

variable {c next last : Cursor} {text : List Char}

theorem exists_reads_of_skip {t : Trivia} {cs : List Char} {p : Position}
    (h : t.skip cs p = .ok next) : ∃ text, Reads ⟨cs, p⟩ text next := by
  obtain ⟨gap, hgap, -⟩ := t.exists_passes_of_skip h
  exact ⟨gap, hgap⟩

theorem exists_reads_readString (content cs : List Char) (p : Position) :
    ∃ text, Reads ⟨cs, p⟩ text (readString content cs p).2 := by
  fun_induction readString content cs p with
  | case1 => exact ⟨[], reads_refl _⟩
  | case2 => exact ⟨_, reads_cons (reads_refl _)⟩
  | case3 _ _ _ _ _ _ ih =>
    obtain ⟨text, htext⟩ := ih
    exact ⟨_, reads_cons (reads_cons htext)⟩
  | case4 _ _ _ _ _ ih | case5 _ _ _ _ _ _ ih =>
    obtain ⟨text, htext⟩ := ih
    exact ⟨_, reads_cons htext⟩

theorem rest_ne_nil_of_head? {a : Char} (h : c.rest.head? = some a) : c.rest ≠ [] := by
  intro hnil
  rw [hnil] at h
  exact absurd h (by simp)

/-! ## One token -/

/-- The cursor is at a token of the given kind and is at `next` after it. There is one way for each
form of token. -/
inductive Scans (d : Dialect) (c : Cursor) : Token.Kind → Cursor → Prop
  | mark {m : Mark} (starts : c.rest.head? = some m.char) : c.Scans d (.mark m) (c.after [m.char])
  | string {content : List Char} {next : Cursor} (starts : c.rest.head? = some '"')
      (closes : readString [] c.rest.tail (c.position.advance '"') = (some content, next)) :
      c.Scans d (.literal (.string (String.ofList content))) next
  | number {first : Char} (starts : c.rest.head? = some first) (opens : first = '-' ∨ isDigit first)
      (whole : (Numeral.read c.rest).whole ≠ [])
      (ends : WordEnds (c.after (Numeral.read c.rest).text).rest)
      (finite : (Numeral.read c.rest).value.isFinite) :
      c.Scans d (.literal (.number (Numeral.read c.rest).value))
        (c.after (Numeral.read c.rest).text)
  | word {first : Char} (starts : c.rest.head? = some first) (opens : isWordStart first) :
      c.Scans d (.ofWord d (String.ofList (c.rest.takeWhile isWordPart)))
        (c.after (c.rest.takeWhile isWordPart))

variable {d : Dialect} {kind : Token.Kind} {t : Token}

theorem tokenUpTo_eq_token : c.tokenUpTo next kind = .token t last ↔
    t = ⟨kind, c.position, next.position⟩ ∧ last = next := by
  simp [tokenUpTo, eq_comm]

theorem scans_of_scanNumber {first : Char} (hstarts : c.rest.head? = some first)
    (hopens : first = '-' ∨ isDigit first) (h : c.scanNumber = .token t next) :
    c.Scans d t.kind next ∧ t.start = c.position ∧ t.finish = next.position := by
  dsimp only [scanNumber] at h
  split_ifs at h with hwhole hwrong
  obtain ⟨rfl, rfl⟩ := tokenUpTo_eq_token.mp h
  simp only [Bool.or_eq_true, not_or, decide_eq_true_eq, not_not, Bool.not_eq_true',
    Bool.not_eq_false, takeWhile_eq_nil_iff_wordEnds] at hwrong
  exact ⟨.number hstarts hopens hwhole hwrong.1 hwrong.2, rfl, rfl⟩

/-- A token is scanned in one of the four ways. -/
theorem scans_of_scan (h : c.scan d = .token t next) :
    c.Scans d t.kind next ∧ t.start = c.position ∧ t.finish = next.position := by
  unfold scan at h
  split at h
  · exact absurd h (by simp)
  · rename_i first others hrest
    have hstarts : c.rest.head? = some first := by rw [hrest, List.head?_cons]
    split at h
    · rename_i m hm
      obtain ⟨rfl, rfl⟩ := tokenUpTo_eq_token.mp h
      rw [← Mark.char_of_ofChar? hm] at hstarts ⊢
      exact ⟨.mark hstarts, rfl, rfl⟩
    · split_ifs at h with hquote hnumber hword
      · unfold scanString at h
        split at h
        · rename_i content after hread
          obtain ⟨rfl, rfl⟩ := tokenUpTo_eq_token.mp h
          rw [hquote] at hstarts
          exact ⟨.string hstarts hread, rfl, rfl⟩
        · exact absurd h (by simp)
      · exact scans_of_scanNumber hstarts (by simpa using hnumber) h
      · obtain ⟨rfl, rfl⟩ := tokenUpTo_eq_token.mp h
        exact ⟨.word hstarts hword, rfl, rfl⟩

/-- What can be scanned in one of the four ways is scanned. -/
theorem Scans.scan_eq (h : c.Scans d kind next) :
    c.scan d = .token ⟨kind, c.position, next.position⟩ next := by
  cases h with
  | @mark m starts =>
    obtain ⟨others, hrest⟩ := List.head?_eq_some_iff.mp starts
    simp only [scan, hrest, Mark.ofChar?_char]
    rfl
  | string starts closes =>
    obtain ⟨others, hrest⟩ := List.head?_eq_some_iff.mp starts
    have hopen : Mark.ofChar? '"' = none := Mark.ofChar?_eq_none (.inr (.inr rfl))
    simp only [scan, hrest, hopen, if_pos, scanString]
    rw [← hrest, closes]
    rfl
  | number starts opens whole ends finite =>
    have htail := takeWhile_eq_nil_iff_wordEnds.mpr ends
    rw [scan_eq_scanNumber starts opens]
    simp only [scanNumber, if_neg whole, htail, finite]
    rfl
  | word starts opens =>
    rw [scan_eq_scanWord starts opens]
    rfl

/-- Scanning a token moves over its text. -/
theorem Scans.exists_reads (h : c.Scans d kind next) : ∃ text, c.Reads text next := by
  cases h with
  | @mark m starts =>
    obtain ⟨others, hrest⟩ := List.head?_eq_some_iff.mp starts
    exact ⟨_, reads_after ⟨others, hrest.symm⟩⟩
  | @string content next starts closes =>
    obtain ⟨others, hrest⟩ := List.head?_eq_some_iff.mp starts
    obtain ⟨text, htext⟩ := exists_reads_readString [] c.rest.tail (c.position.advance '"')
    rw [closes, hrest] at htext
    have hreads := reads_cons htext
    rw [List.tail_cons, ← hrest] at hreads
    exact ⟨_, hreads⟩
  | number => exact ⟨_, reads_after (Numeral.text_read_prefix _)⟩
  | word => exact ⟨_, reads_after (List.takeWhile_prefix _)⟩

/-- No token starts with a slash. -/
theorem Scans.exists_first (h : c.Scans d kind next) :
    ∃ first, c.rest.head? = some first ∧ first ≠ '/' := by
  cases h with
  | @mark m starts => exact ⟨_, starts, by cases m <;> decide⟩
  | string starts => exact ⟨_, starts, by decide⟩
  | number starts opens =>
    refine ⟨_, starts, ?_⟩
    rintro rfl
    exact absurd opens (by decide)
  | word starts opens =>
    refine ⟨_, starts, ?_⟩
    rintro rfl
    exact absurd opens (by decide)

theorem ofWord_ne_mark (d : Dialect) (word : String) (m : Mark) :
    Token.Kind.ofWord d word ≠ .mark m := by
  unfold Token.Kind.ofWord
  split_ifs
  · exact nofun
  · exact nofun
  · exact nofun
  · split <;> exact nofun

/-- A mark is its character. -/
theorem Scans.head?_of_mark {m : Mark} (h : c.Scans d kind next) (hkind : kind = .mark m) :
    c.rest.head? = some m.char := by
  cases h with
  | mark starts => rwa [← Token.Kind.mark.inj hkind]
  | string => exact absurd hkind (by simp)
  | number => exact absurd hkind (by simp)
  | word => exact absurd hkind (ofWord_ne_mark d _ m)

/-- A token has characters. -/
theorem Scans.text_ne_nil (h : c.Scans d kind next) (hreads : c.Reads text next) : text ≠ [] := by
  rintro rfl
  have hlength := scan_length_lt h.scan_eq
  rw [hreads.rest, List.nil_append] at hlength
  exact absurd hlength (Nat.lt_irrefl _)

/-! ## All tokens -/

theorem nextToken_eq_token : c.nextToken d = .token t next ↔
    ∃ start, c.skipTrivia = .ok start ∧ start.scan d = .token t next := by
  unfold nextToken
  cases c.skipTrivia with
  | ok start => simp
  | error e => simp

theorem scan_eq_ended : c.scan d = .ended next ↔ c.rest = [] ∧ next = c := by
  constructor
  · intro h
    unfold scan at h
    split at h
    · rename_i hrest
      exact ⟨hrest, (Scan.ended.inj h).symm⟩
    · -- At a character there is a token or an error.
      simp only [scanString, scanNumber, scanWord, tokenUpTo] at h
      split at h
      · exact absurd h (by simp)
      · split_ifs at h
        split at h <;> exact absurd h (by simp)
  · rintro ⟨hrest, rfl⟩
    simp only [scan, hrest]

theorem nextToken_eq_ended : c.nextToken d = .ended next ↔
    c.skipTrivia = .ok next ∧ next.rest = [] := by
  unfold nextToken
  cases c.skipTrivia with
  | ok start =>
    simp only [scan_eq_ended, Except.ok.injEq]
    constructor
    · rintro ⟨hrest, rfl⟩
      exact ⟨rfl, hrest⟩
    · rintro ⟨rfl, hrest⟩
      exact ⟨hrest, rfl⟩
  | error e => simp

end Cursor
end ObjectTransfer
