import ObjectTransfer.Proofs.Token.Scanning

/-!
# The tokens of a text that is cut short

A text that is cut short has the tokens of the whole text but for the last one: the cut may go
through a word or a number, and where it goes through a number behind its point, the point is a token
of its own (`CutShort`). A string or a comment that the cut goes through does not end, and then there
are no tokens at all.
-/

namespace ObjectTransfer

/-! ## Runs and numerals -/

/-- A run of characters that ends before the cut ends there. -/
theorem takeWhile_append_of_rest {p : Char → Bool} {cs : List Char} (h : cs.dropWhile p ≠ [])
    (more : List Char) : (cs ++ more).takeWhile p = cs.takeWhile p := by
  rw [List.takeWhile_append, if_neg]
  intro hlength
  have hcs := congrArg List.length (List.takeWhile_append_dropWhile (p := p) (l := cs))
  rw [List.length_append, hlength] at hcs
  have hpos := List.length_pos_iff.mpr h
  omega

theorem dropWhile_append_of_rest {p : Char → Bool} {cs : List Char} (h : cs.dropWhile p ≠ [])
    (more : List Char) : (cs ++ more).dropWhile p = cs.dropWhile p ++ more := by
  rw [List.dropWhile_append, if_neg]
  rwa [List.isEmpty_iff]

namespace Numeral

theorem readFraction_append_of_rest {n : Numeral} {cs rest : List Char}
    (hn : n.fraction = readFraction cs) (hcs : n.fractionText ++ rest = cs) (hrest : rest ≠ [])
    (hpoint : rest ≠ ['.']) (more : List Char) :
    readFraction (cs ++ more) = readFraction cs := by
  unfold fractionText at hcs
  split_ifs at hcs with hnone
  · -- Without a fraction there is no point, or a point that something else follows.
    rw [List.nil_append] at hcs
    subst hcs
    obtain ⟨first, others, rfl⟩ := List.exists_cons_of_ne_nil hrest
    by_cases hfirst : first = '.'
    · subst hfirst
      obtain ⟨second, others, rfl⟩ : ∃ second others', others = second :: others' := by
        refine List.exists_cons_of_ne_nil ?_
        rintro rfl
        exact hpoint rfl
      rw [hnone] at hn
      show ((second :: others) ++ more).takeWhile isDigit = (second :: others).takeWhile isDigit
      refine takeWhile_append_of_rest ?_ more
      intro hall
      have hcs := List.takeWhile_append_dropWhile (p := isDigit) (l := second :: others)
      have hnil : (second :: others).takeWhile isDigit = [] := hn.symm
      rw [hall, hnil] at hcs
      exact absurd hcs (by simp)
    · simp [readFraction, hfirst]
  · subst hcs
    have hdigits : (n.fraction ++ rest).takeWhile isDigit = n.fraction := hn.symm
    show ((n.fraction ++ rest) ++ more).takeWhile isDigit = (n.fraction ++ rest).takeWhile isDigit
    refine takeWhile_append_of_rest ?_ more
    intro hall
    have hcs := List.takeWhile_append_dropWhile (p := isDigit) (l := n.fraction ++ rest)
    rw [hall, hdigits] at hcs
    exact hrest (List.append_cancel_left hcs).symm

/-- The numeral in front of a text is not prolonged by what comes after the cut. -/
theorem read_append_of_rest {n : Numeral} {cs rest : List Char} (hn : read cs = n)
    (hcs : n.text ++ rest = cs) (hwhole : n.whole ≠ []) (hrest : rest ≠ []) (hpoint : rest ≠ ['.'])
    (more : List Char) : read (cs ++ more) = n := by
  obtain ⟨unsigned, hunsigned, hsign, hrun, hafter, hfraction⟩ := read_eq_of_text hn hcs hwhole
  have hgoes : unsigned.dropWhile isDigit ≠ [] := by
    rw [hafter]
    exact List.append_ne_nil_of_right_ne_nil _ hrest
  have hsign' : n.negative = false → (unsigned ++ more).head? ≠ some '-' := by
    intro hnegative
    obtain ⟨first, others, rfl⟩ := List.exists_cons_of_ne_nil (l := unsigned) (by
      rintro rfl
      exact hwhole hrun.symm)
    exact hsign hnegative
  have hsame := readFraction_append_of_rest hfraction rfl hrest hpoint more
  rw [hunsigned, List.append_assoc, read_signText_append hsign', takeWhile_append_of_rest hgoes,
    dropWhile_append_of_rest hgoes, hrun, if_neg hwhole, hafter, hsame, ← hfraction]

end Numeral

namespace Cursor

/-- The cursor at the same place in a text that goes on. -/
def extend (c : Cursor) (more : List Char) : Cursor := ⟨c.rest ++ more, c.position⟩

variable {c next : Cursor} {d : Dialect} {kind : Token.Kind}

/-- Where blanks and comments end in front of something else, they end so in a text that goes on. A
slash may turn out to open a comment. -/
theorem skip_extend {t : Trivia} {cs : List Char} {p : Position} (h : t.skip cs p = .ok next)
    {first : Char} (hfirst : next.rest.head? = some first) (hslash : first ≠ '/')
    (more : List Char) : t.skip (cs ++ more) p = .ok (next.extend more) := by
  fun_induction Trivia.skip t cs p with
  | case1 _ _ ih | case2 _ _ ih | case5 _ _ ih | case7 _ _ _ ih =>
    simpa only [List.cons_append, Trivia.skip] using ih h
  | case3 a cs p _ _ hblank ih =>
    have hopen : a ≠ '/' := by
      rintro rfl
      exact absurd hblank (by decide)
    rw [List.cons_append, Trivia.skip, if_pos hblank, ih h]
    · exact fun _ ha => absurd ha hopen
    · exact fun _ ha => absurd ha hopen
  | case4 a cs p _ _ hblank =>
    obtain rfl := Except.ok.inj h
    obtain rfl := Option.some.inj hfirst
    rw [List.cons_append, Trivia.skip, if_neg hblank]
    · rfl
    · exact fun _ ha => absurd ha hslash
    · exact fun _ ha => absurd ha hslash
  | case6 a cs p hfeed ih =>
    rw [List.cons_append, Trivia.skip, ih h]
    exact hfeed
  | case8 opened a cs p hclose ih =>
    -- A comment that ends does not end with the star of its closing mark.
    obtain ⟨second, others, rfl⟩ : ∃ second others, cs = second :: others := by
      refine List.exists_cons_of_ne_nil ?_
      rintro rfl
      exact absurd h (by simp [Trivia.skip])
    rw [List.cons_append, Trivia.skip, ih h]
    intro others' ha hcs
    obtain ⟨rfl, -⟩ := List.cons.inj hcs
    exact hclose others ha rfl
  | case9 => exact absurd h (by simp)
  | case10 =>
    obtain rfl := Except.ok.inj h
    exact absurd hfirst (by simp)

theorem readString_extend {content cs found : List Char} {p : Position}
    (h : readString content cs p = (some found, next)) (more : List Char) :
    readString content (cs ++ more) p = (some found, next.extend more) := by
  fun_induction readString content cs p with
  | case1 => exact absurd h (by simp)
  | case2 content cs p =>
    obtain ⟨hfound, rfl⟩ := Prod.mk.inj h
    rw [List.cons_append, readString, hfound]
    rfl
  | case3 content a cs p meant hmeant ih =>
    rw [List.cons_append, List.cons_append, readString, hmeant]
    exact ih h
  | case4 content a cs p hmeant ih =>
    rw [List.cons_append, List.cons_append, readString, hmeant]
    exact ih h
  | case5 content a cs p hquote hescape ih =>
    -- A string that ends does not end with a backslash.
    obtain ⟨second, others, rfl⟩ : ∃ second others, cs = second :: others := by
      refine List.exists_cons_of_ne_nil ?_
      rintro rfl
      exact absurd h (by simp [readString])
    rw [List.cons_append, readString]
    · exact ih h
    · exact hquote
    · intro second' others' ha hcs
      exact hescape second others ha rfl

/-! ## One token -/

theorem after_extend {text : List Char} (h : text <+: c.rest) (more : List Char) :
    (c.extend more).after text = (c.after text).extend more := by
  rw [after, after, extend, extend, List.drop_append_of_le_length h.length_le]

theorem head?_extend {a : Char} (h : c.rest.head? = some a) (more : List Char) :
    (c.extend more).rest.head? = some a := by
  obtain ⟨others, hrest⟩ := List.head?_eq_some_iff.mp h
  rw [extend, hrest]
  rfl

theorem scanNumber_cases (c : Cursor) :
    (∃ x next, c.scanNumber = .token ⟨.literal (.number x), c.position, next.position⟩ next) ∨
      ∃ e next, c.scanNumber = .failed e next := by
  dsimp only [scanNumber]
  split_ifs
  · exact .inr ⟨_, _, rfl⟩
  · exact .inr ⟨_, _, rfl⟩
  · exact .inl ⟨_, _, rfl⟩

theorem wordEnds_append {rest : List Char} (h : WordEnds rest) (hrest : rest ≠ [])
    (more : List Char) : WordEnds (rest ++ more) := by
  obtain ⟨first, others, rfl⟩ := List.exists_cons_of_ne_nil hrest
  exact h

/-- What becomes of a token of the given kind, scanned from `c` up to `next`, in a text that goes
on: it is the same token, or it is a word or a number that the cut goes through, or a number that the
cut goes through behind its point. -/
inductive ScansOn (d : Dialect) (c : Cursor) (more : List Char) (next : Cursor) :
    Token.Kind → Prop
  | same {kind : Token.Kind} (scans : (c.extend more).Scans d kind (next.extend more)) :
      ScansOn d c more next kind
  | last {kind : Token.Kind} (ended : next.rest = []) (mark : ∀ m, kind ≠ .mark m) :
      ScansOn d c more next kind
  | point {x : Double} (ended : next.rest = ['.'])
      (number : (c.extend more).scan d = (c.extend more).scanNumber) :
      ScansOn d c more next (.literal (.number x))

theorem Scans.scansOn (h : c.Scans d kind next) (more : List Char) :
    c.ScansOn d more next kind := by
  cases h with
  | @mark m starts =>
    obtain ⟨others, hrest⟩ := List.head?_eq_some_iff.mp starts
    have hmark := Scans.mark (d := d) (head?_extend starts more)
    rw [after_extend ⟨others, hrest.symm⟩] at hmark
    exact .same hmark
  | string starts closes =>
    refine .same (.string (head?_extend starts more) ?_)
    rw [extend, List.tail_append_of_ne_nil (rest_ne_nil_of_head? starts)]
    exact readString_extend closes more
  | @number first starts opens whole ends finite =>
    have hprefix := Numeral.text_read_prefix c.rest
    have hcs := (reads_after hprefix).rest
    by_cases hend : (c.after (Numeral.read c.rest).text).rest = []
    · exact .last hend nofun
    by_cases hpoint : (c.after (Numeral.read c.rest).text).rest = ['.']
    · exact .point hpoint (scan_eq_scanNumber (head?_extend starts more) opens)
    have hsame : Numeral.read (c.extend more).rest = Numeral.read c.rest :=
      Numeral.read_append_of_rest rfl hcs.symm whole hend hpoint more
    have hafter := after_extend hprefix more
    have hends : WordEnds ((c.extend more).after (Numeral.read c.rest).text).rest := by
      rw [hafter]
      exact wordEnds_append ends hend more
    have hnumber := Scans.number (d := d) (c := c.extend more) (head?_extend starts more) opens
      (by rwa [hsame]) (by rwa [hsame]) (by rwa [hsame])
    rw [hsame, hafter] at hnumber
    exact .same hnumber
  | @word first starts opens =>
    by_cases hend : (c.after (c.rest.takeWhile isWordPart)).rest = []
    · exact .last hend (ofWord_ne_mark d _)
    have hprefix := List.takeWhile_prefix isWordPart (l := c.rest)
    have hgoes : c.rest.dropWhile isWordPart ≠ [] := by rwa [← rest_after_takeWhile]
    have hsame : (c.extend more).rest.takeWhile isWordPart = c.rest.takeWhile isWordPart :=
      takeWhile_append_of_rest hgoes more
    have hword := Scans.word (d := d) (head?_extend starts more) opens
    rw [hsame, after_extend hprefix] at hword
    exact .same hword

/-- A token that is found in front of the cut is found in a text that goes on, unless the cut goes
through it. -/
theorem nextToken_extend {t : Token} (h : c.nextToken d = .token t next) (more : List Char) :
    (c.extend more).nextToken d = .token t (next.extend more) ∨
      next.rest = [] ∧ (∀ m, t.kind ≠ .mark m) ∨
      next.rest = ['.'] ∧ (∃ x, t.kind = .literal (.number x)) ∧
        ∃ start : Cursor, (c.extend more).nextToken d = start.scanNumber := by
  obtain ⟨start, hskip, hscan⟩ := nextToken_eq_token.mp h
  obtain ⟨hscans, hstart, hfinish⟩ := scans_of_scan hscan
  obtain ⟨first, hfirst, hslash⟩ := hscans.exists_first
  have hskip' : (c.extend more).skipTrivia = .ok (start.extend more) :=
    skip_extend hskip hfirst hslash more
  have hnext : (c.extend more).nextToken d = (start.extend more).scan d := by
    rw [nextToken, hskip']
  rw [hnext]
  obtain ⟨kind, p, q⟩ := t
  obtain rfl : p = start.position := hstart
  obtain rfl : q = next.position := hfinish
  cases hscans.scansOn more with
  | same scans => exact .inl scans.scan_eq
  | last ended mark => exact .inr (.inl ⟨ended, mark⟩)
  | point ended number => exact .inr (.inr ⟨ended, ⟨_, rfl⟩, _, number⟩)

end Cursor

/-! ## All tokens -/

/-- `cut` can be the tokens of a text that is cut short if `whole` are those of the whole text. -/
inductive CutShort : List Token.Kind → List Token.Kind → Prop
  | ended (whole : List Token.Kind) : CutShort [] whole
  | same (kind : Token.Kind) {cut whole : List Token.Kind} (h : CutShort cut whole) :
      CutShort (kind :: cut) (kind :: whole)
  /-- The cut goes through a word or a number. -/
  | last {kind : Token.Kind} (mark : ∀ m, kind ≠ .mark m) (whole : List Token.Kind) :
      CutShort [kind] whole
  /-- The cut goes through a number behind its point. -/
  | point (x y : Double) (whole : List Token.Kind) :
      CutShort [.literal (.number x), .mark .dot] (.literal (.number y) :: whole)

namespace Cursor

variable {c next : Cursor} {d : Dialect} {t : Token} {seen : List Token} {tokens tokens' : Tokens}

/-- The tokens after the cursor come after those seen before. -/
theorem exists_tokensAfter_eq (h : (c.tokensAfter d seen).1 = .ok tokens) :
    ∃ added, tokens.list = seen.reverse ++ added := by
  fun_induction tokensAfter d seen c with
  | case1 seen c t next _ ih =>
    obtain ⟨added, hadded⟩ := ih h
    exact ⟨t :: added, by rw [hadded, List.reverse_cons, List.append_assoc]; rfl⟩
  | case2 seen c finish _ =>
    obtain rfl := Except.ok.inj h
    exact ⟨[], (List.append_nil _).symm⟩
  | case3 => exact absurd h (by simp)

theorem tokensAfter_of_rest_eq_nil (seen : List Token) (hrest : c.rest = []) :
    (c.tokensAfter d seen).1 = .ok ⟨seen.reverse, c.position⟩ := by
  obtain ⟨rest, p⟩ := c
  obtain rfl : rest = [] := hrest
  rw [tokensAfter_of_ended seen (nextToken_eq_ended.mpr ⟨rfl, rfl⟩)]

/-- The tokens of a text that is cut short and those of the whole text. -/
theorem cutShort_of_tokensAfter {more : List Char} (h : (c.tokensAfter d seen).1 = .ok tokens)
    (h' : ((c.extend more).tokensAfter d seen).1 = .ok tokens') :
    ∃ cut whole, tokens.list.map (·.kind) = seen.reverse.map (·.kind) ++ cut ∧
      tokens'.list.map (·.kind) = seen.reverse.map (·.kind) ++ whole ∧ CutShort cut whole := by
  -- By induction on the run in front of the cut, as long as the whole text has the same tokens.
  fun_induction tokensAfter d seen c with
  | case1 seen c t next hnext ih =>
    rcases nextToken_extend hnext more with hsame | ⟨hrest, hmark⟩ | ⟨hrest, ⟨x, hx⟩, hnumber⟩
    · rw [tokensAfter_of_token seen hsame] at h'
      obtain ⟨cut, whole, hcut, hwhole, hshort⟩ := ih h h'
      refine ⟨t.kind :: cut, t.kind :: whole, ?_, ?_, .same _ hshort⟩
      · rw [hcut]
        simp
      · rw [hwhole]
        simp
    · obtain ⟨added, hadded⟩ := exists_tokensAfter_eq h'
      rw [tokensAfter_of_rest_eq_nil _ hrest] at h
      obtain rfl := Except.ok.inj h
      refine ⟨[t.kind], added.map (·.kind), ?_, ?_, .last hmark _⟩
      · simp
      · rw [hadded, List.map_append]
    · -- In front of the cut the point is left over, the whole text goes on with digits behind it.
      obtain ⟨rest, p⟩ := next
      obtain rfl : rest = [Mark.dot.char] := hrest
      have hdot := nextToken_of_scan (scan_mark d .dot [] p)
      rw [tokensAfter_of_token _ hdot, tokensAfter_of_rest_eq_nil _ rfl] at h
      obtain rfl := Except.ok.inj h
      obtain ⟨start, hstart⟩ := hnumber
      rcases start.scanNumber_cases with ⟨y, next', hnext'⟩ | ⟨e, next', hnext'⟩
      · rw [hnext'] at hstart
        rw [tokensAfter_of_token seen hstart] at h'
        obtain ⟨added, hadded⟩ := exists_tokensAfter_eq h'
        refine ⟨[t.kind, .mark .dot], .literal (.number y) :: added.map (·.kind), ?_, ?_, ?_⟩
        · simp
        · rw [hadded]
          simp
        · rw [hx]
          exact .point x y _
      · rw [hnext'] at hstart
        rw [tokensAfter.eq_def, hstart] at h'
        exact absurd h' (by simp)
  | case2 seen c finish _ =>
    obtain ⟨added, hadded⟩ := exists_tokensAfter_eq h'
    obtain rfl := Except.ok.inj h
    refine ⟨[], added.map (·.kind), ?_, ?_, .ended _⟩
    · simp
    · rw [hadded, List.map_append]
  | case3 => exact absurd h (by simp)

end Cursor

/-- The tokens of a text that is cut short and those of the whole text. -/
theorem cutShort_of_tokenize {d : Dialect} {before after : String} {tokens tokens' : Tokens}
    (h : tokenize d before = .ok tokens) (h' : tokenize d (before ++ after) = .ok tokens') :
    CutShort (tokens.list.map (·.kind)) (tokens'.list.map (·.kind)) := by
  have hextend : Cursor.ofString (before ++ after) =
      (Cursor.ofString before).extend after.toList := by
    rw [Cursor.ofString, String.toList_append]
    rfl
  rw [tokenize, hextend] at h'
  obtain ⟨cut, whole, hcut, hwhole, hshort⟩ := Cursor.cutShort_of_tokensAfter h h'
  rw [List.reverse_nil, List.map_nil, List.nil_append] at hcut hwhole
  rwa [hcut, hwhole]

end ObjectTransfer
