import ObjectTransfer.Proofs.Messages
import ObjectTransfer.Proofs.Text.Lines

/-!
# The line of an error

An error is shown with the line that it is on and a caret below its column. Positions are counted over
all characters of the text, while the line is shown without its ending, but no error is at the ending of
a line: what stands at its place is no blank (`Dialect.exists_reads_of_parse`). So the caret is below the
character at the place (`Dialect.excerpt_points`). An error at the end of the text is on no line if the
last line has ended, and is told in words only.
-/

namespace ObjectTransfer

/-! ## Where errors are -/

theorem Numeral.WellFormed.not_isBlank {n : Numeral} (h : n.WellFormed) (rest : List Char) :
    ∀ c ∈ (n.text ++ rest).head?, ¬ isBlank c := by
  obtain ⟨first, others, htext, hfirst⟩ := exists_text_eq_cons h
  rw [htext]
  intro c hc
  obtain rfl : first = c := Option.some.inj hc
  intro hblank
  simp only [isBlank, Bool.or_eq_true, decide_eq_true_eq] at hblank
  rcases hblank with ((rfl | rfl) | rfl) | rfl <;> exact absurd hfirst (by decide)

/-- A fault is at no blank. -/
theorem Fault.not_isBlank {d : Dialect} {cs : List Char} {cause : LexicalError.Cause}
    (h : Fault d cs cause) : ∀ c ∈ cs.head?, ¬ isBlank c := by
  cases h with
  | string | comment | sign =>
    intro c hc
    rw [← Option.some.inj hc]
    decide
  | word longest => exact longest.wellFormed.not_isBlank _
  | tooLarge longest => exact longest.wellFormed.not_isBlank _
  | character notBlank =>
    intro c hc
    rwa [← Option.some.inj hc]

namespace Dialect

variable {d : Dialect} {options : Options} {source : String}

/-- Where reading stops there is a token or the end of the text. -/
theorem exists_reads_of_stop {tokens : Tokens} {stop : Stop} (htokens : tokenize d source = .ok tokens)
    (hread : (d.read options tokens.stream).result = .error stop) :
    ∃ before here, (Cursor.ofString source).Reads before here ∧
      here.position = stop.failure.place.position ∧ ∀ c ∈ here.rest.head?, ¬ isBlank c := by
  obtain ⟨⟨kinds, hplace⟩, -⟩ := exists_after_stop hread
  obtain ⟨read, -, hrest⟩ := hplace.exists_rest_eq
  obtain ⟨last, finish, hpasses, hended, hfinish⟩ := Cursor.passes_of_tokenize htokens
  have hlist : tokens.list = read ++ stop.failure.place.rest := hrest
  rw [hlist] at hpasses
  obtain ⟨mid, hread, hothers⟩ := Cursor.passes_append.mp hpasses
  obtain ⟨passed, hpassed⟩ := hread.exists_reads
  unfold TokenStream.position
  cases hnext : stop.failure.place.rest with
  | nil =>
    rw [hnext] at hothers
    cases hothers
    obtain ⟨hskip, hend⟩ := Cursor.nextToken_eq_ended.mp hended
    obtain ⟨gap, hgap⟩ := Cursor.exists_reads_of_skip hskip
    refine ⟨_, finish, hpassed.trans hgap, ?_, ?_⟩
    · rw [← hfinish]
      exact hplace.follows.finish.symm
    · intro c hc
      rw [hend] at hc
      exact absurd hc (by simp)
  | cons t ts =>
    rw [hnext] at hothers
    cases hothers with
    | cons first others =>
      obtain ⟨gap, start, text, hmeets⟩ := Cursor.exists_meets_of_nextToken first
      refine ⟨_, start, hpassed.trans hmeets.gap, hmeets.start_eq.symm, ?_⟩
      intro c hc
      obtain ⟨cs, hcs⟩ := List.head?_eq_some_iff.mp hc
      have hskip := Cursor.skipTrivia_of_scan hmeets.scan
      have hstart : start = ⟨c :: cs, start.position⟩ := by rw [← hcs]
      rw [hstart] at hskip
      exact (skipTrivia_eq_self_iff.mp hskip).1

/-- The place of an error is in front of what is no blank, or at the end of the text. -/
theorem exists_reads_of_parse {e : ParseError} {p : Position}
    (h : d.parse options source = .error e) (hp : e.position? = some p) :
    ∃ before here, (Cursor.ofString source).Reads before here ∧ here.position = p ∧
      ∀ c ∈ here.rest.head?, ¬ isBlank c := by
  rcases parse_error_cases h with ⟨-, rfl⟩ | ⟨error, htokens, rfl⟩ |
    ⟨tokens, stop, htokens, hread, rfl⟩
  · exact absurd hp (by simp [ParseError.position?])
  · obtain ⟨before, here, hreads, hposition, hfault⟩ := exists_fault_of_tokenize htokens
    exact ⟨before, here, hreads, hposition.trans (Option.some.inj hp), hfault.not_isBlank⟩
  · rw [stop.position?_toError] at hp
    rw [← Option.some.inj hp]
    exact exists_reads_of_stop htokens hread

end Dialect

/-! ## The excerpt -/

/-- The number of the line of a place. -/
def Position.number (p : Position) : List Char := Nat.toDigits 10 p.line

/-- Blanks as wide as the number of the line. -/
def Position.margin (p : Position) : List Char := List.replicate p.number.length ' '

namespace ParseError

/-- The lines in which an error is shown: in words, an empty margin, the line of its place `p` with its
number, and what stands in front of the caret, with the caret. -/
def shownLines (e : ParseError) (p : Position) (line indent : List Char) : List (List Char) :=
  [e.message.toList,
    p.margin ++ [' ', '|'],
    p.number ++ [' ', '|', ' '] ++ line,
    p.margin ++ [' ', '|', ' '] ++ indent ++ ['^']]

/-- The error is shown with `content`, which is the line of the place `p`, and with the caret behind
`indent`, as far from the margin as the place from the start of its line. -/
structure Excerpt (e : ParseError) (source : String) (p : Position) (content indent : List Char) :
    Prop where
  lines : (e.render source).toList.splitOn '\n' = e.shownLines p content indent
  shown : ∃ index, p.line = index + 1 ∧ (textLines source.toList)[index]? = some content
  width : indent.length + 1 = p.column
  /-- What stands in front of the caret is as wide as what stands above it. -/
  tabs : ∀ i, i < indent.length → indent[i]? = some (if content[i]? = some '\t' then '\t' else ' ')
  /-- Above the caret is the character at the place. -/
  above : p.offset < source.utf8ByteSize → ∃ before c after,
    source.toList = before ++ c :: after ∧ String.utf8Len before = p.offset ∧
      (p.number ++ [' ', '|', ' '] ++ content)[(p.margin ++ [' ', '|', ' '] ++ indent).length]? = some c

variable {e : ParseError} {source : String} {p : Position} {line : List Char}

theorem toList_excerpt (p : Position) (line : List Char) :
    (excerpt p line).toList = p.margin ++ [' ', '|'] ++ '\n' :: (p.number ++ [' ', '|', ' '] ++ line ++
      '\n' :: (p.margin ++ [' ', '|', ' '] ++ caretIndent (p.column - 1) line ++ ['^'])) := by
  have hnumber : (toString p.line).toList = p.number := Nat.toList_repr
  have hmargin : List.replicate (toString p.line).length ' ' = p.margin := by
    rw [Position.margin, ← hnumber, String.length_toList]
  simp only [excerpt, String.toList_append, String.toList_ofList, hnumber, hmargin]
  simp

theorem feed_not_mem_caretIndent (count : Nat) (line : List Char) : '\n' ∉ caretIndent count line := by
  intro h
  obtain ⟨c, -, hc⟩ := List.mem_map.mp h
  by_cases htab : c = '\t'
  · rw [if_pos htab] at hc
    exact absurd hc (by decide)
  · rw [if_neg htab] at hc
    exact absurd hc (by decide)

theorem length_caretIndent {cs : List Char} {count : Nat} (h : count ≤ cs.length) :
    (caretIndent count cs).length = count := by
  rw [caretIndent, List.length_map, List.length_take, Nat.min_eq_left h]

theorem getElem?_caretIndent {cs : List Char} {count i : Nat} (h : count ≤ cs.length) (hi : i < count) :
    (caretIndent count cs)[i]? = some (if cs[i]? = some '\t' then '\t' else ' ') := by
  have hinside : i < cs.length := Nat.lt_of_lt_of_le hi h
  rw [caretIndent, List.getElem?_map, List.getElem?_take_of_lt hi, List.getElem?_eq_getElem hinside]
  simp

/-- The caret is as far from the margin as what is behind as many characters of the line. -/
theorem getElem?_above (p : Position) {xs tail indent : List Char} (h : indent.length = xs.length) :
    (p.number ++ [' ', '|', ' '] ++ (xs ++ tail))[(p.margin ++ [' ', '|', ' '] ++ indent).length]? =
      tail.head? := by
  have hwidth : (p.margin ++ [' ', '|', ' '] ++ indent).length =
      (p.number ++ [' ', '|', ' '] ++ xs).length := by
    simp only [List.length_append, Position.margin, List.length_replicate, h]
  rw [hwidth, ← List.append_assoc, List.getElem?_append_right (Nat.le_refl _), Nat.sub_self,
    List.head?_eq_getElem?]

/-- None of the lines is broken again. -/
theorem feed_not_mem_shownLines (hmessage : OneLine e.message) (hline : '\n' ∉ line) (count : Nat) :
    ∀ l ∈ e.shownLines p line (caretIndent count line), '\n' ∉ l := by
  have hnumber : '\n' ∉ p.number := by
    have hrepr := oneLine_repr p.line
    rwa [OneLine, Nat.toList_repr] at hrepr
  have hmargin : '\n' ∉ p.margin := fun h => absurd (List.eq_of_mem_replicate h) (by decide)
  have hindent := feed_not_mem_caretIndent count line
  have hwords : '\n' ∉ e.message.toList := hmessage
  simp [shownLines, hwords, hnumber, hmargin, hline, hindent]

theorem render_of_line (hp : e.position? = some p)
    (hline : line? source.toList (p.line - 1) = some line) :
    e.render source = e.message ++ "\n" ++ excerpt p line := by
  rw [render, hp]
  simp only [hline]

theorem render_of_no_line (hp : e.position? = some p)
    (hline : line? source.toList (p.line - 1) = none) : e.render source = e.message := by
  rw [render, hp]
  simp only [hline]

/-- An error with a line is shown in four lines. -/
theorem splitOn_render (hp : e.position? = some p) (hmessage : OneLine e.message)
    (hline : line? source.toList (p.line - 1) = some line) :
    (e.render source).toList.splitOn '\n' =
      e.shownLines p line (caretIndent (p.column - 1) line) := by
  have hjoined : (e.render source).toList =
      ['\n'].intercalate (e.shownLines p line (caretIndent (p.column - 1) line)) := by
    rw [render_of_line hp hline, String.toList_append, String.toList_append, toList_excerpt, shownLines]
    simp [List.intercalate]
  rw [hjoined]
  apply List.splitOn_intercalate
  · exact feed_not_mem_shownLines hmessage (not_mem_line? hline) _
  · simp [shownLines]

/-- An error is told in words only if there is no line. -/
theorem render_eq_message (hp : e.position? = some p) :
    e.render source = e.message ↔ line? source.toList (p.line - 1) = none := by
  constructor
  · intro hsame
    by_contra hsome
    obtain ⟨line, hline⟩ := Option.ne_none_iff_exists'.mp hsome
    rw [render_of_line hp hline] at hsame
    have hlength := congrArg String.length hsame
    have hfeed : "\n".length = 1 := rfl
    rw [String.length_append, String.length_append, hfeed] at hlength
    omega
  · exact render_of_no_line hp

end ParseError

/-! ## The place of an error in its excerpt -/

section

variable {source : String} {before rest : List Char}

theorem line_start_advanceBy (before : List Char) :
    (Position.start.advanceBy before).line - 1 = before.count '\n' := by
  rw [Position.line_advanceBy]
  exact Nat.add_sub_cancel_left 1 _

/-- A place is the end of the text if nothing follows it. -/
theorem offset_eq_size (h : source.toList = before ++ rest) :
    (Position.start.advanceBy before).offset = source.utf8ByteSize ↔ rest = [] := by
  rw [Position.offset_start_advanceBy, utf8ByteSize_of_append h, ← String.utf8Len_eq_zero]
  omega

/-- At the end of a text that is empty or ends with a line feed, and only there, a place is on no
line. -/
theorem on_no_line_iff (h : source.toList = before ++ rest) :
    (Position.start.advanceBy before).offset = source.utf8ByteSize ∧
        (source = "" ∨ source.toList.getLast? = some '\n') ↔
      afterLastFeed before = [] ∧ rest = [] := by
  rw [offset_eq_size h, and_comm, and_congr_left_iff]
  rintro rfl
  rw [List.append_nil] at h
  rw [afterLastFeed_eq_nil, ← h, String.toList_eq_nil_iff]

variable {d : Dialect} {options : Options} {e : ParseError} {p : Position}

/-- The excerpt of an error at a place that is on a line. -/
theorem exists_excerpt (h : source.toList = before ++ rest) (hmessage : OneLine e.message)
    (hp : e.position? = some (Position.start.advanceBy before))
    (hrest : ∀ c ∈ rest.head?, ¬ isBlank c) (hline : ¬ (afterLastFeed before = [] ∧ rest = [])) :
    ∃ line indent, e.Excerpt source (Position.start.advanceBy before) line indent := by
  have hending : ∀ c ∈ rest.head?, c ≠ '\n' ∧ c ≠ '\r' := by
    intro c hc
    constructor
    · rintro rfl
      exact hrest _ hc rfl
    · rintro rfl
      exact hrest _ hc rfl
  obtain ⟨tail, htail, hhead⟩ := exists_line?_append hending hline
  have hcolumn : (Position.start.advanceBy before).column - 1 = (afterLastFeed before).length := by
    rw [Position.column_start_advanceBy]
    exact Nat.add_sub_cancel_left 1 _
  have hshown : line? source.toList ((Position.start.advanceBy before).line - 1) =
      some (afterLastFeed before ++ tail) := by rw [line_start_advanceBy, h, htail]
  have hcount : (Position.start.advanceBy before).column - 1 ≤ (afterLastFeed before ++ tail).length := by
    rw [hcolumn, List.length_append]
    exact Nat.le_add_right _ _
  have hwidth := ParseError.length_caretIndent hcount
  refine ⟨_, _, ParseError.splitOn_render hp hmessage hshown, ?_, ?_, ?_, ?_⟩
  · refine ⟨before.count '\n', ?_, ?_⟩
    · rw [Position.line_advanceBy]
      exact Nat.add_comm 1 _
    · rw [← line?_eq_getElem?, h, htail]
  · rw [hwidth, hcolumn, Position.column_start_advanceBy, Nat.add_comm]
  · intro i hi
    rw [hwidth] at hi
    exact ParseError.getElem?_caretIndent hcount hi
  · intro hinside
    have hne : rest ≠ [] := fun hnil => Nat.ne_of_lt hinside ((offset_eq_size h).mpr hnil)
    obtain ⟨c, after, rfl⟩ := List.exists_cons_of_ne_nil hne
    refine ⟨before, c, after, h, (Position.offset_start_advanceBy before).symm, ?_⟩
    rw [ParseError.getElem?_above _ (hwidth.trans hcolumn), hhead]
    rfl

/-- An error at a place of the text is told in words only if the place is the end of the text, and the
text is empty or ends with a line feed. Otherwise it is shown with the line of the place and a caret
below the character there. The words are on one line. -/
theorem Dialect.excerpt_points (h : d.parse options source = .error e) (hp : e.position? = some p) :
    OneLine e.message ∧
    (e.render source = e.message ↔
      p.offset = source.utf8ByteSize ∧ (source = "" ∨ source.toList.getLast? = some '\n')) ∧
    (¬ (p.offset = source.utf8ByteSize ∧ (source = "" ∨ source.toList.getLast? = some '\n')) →
      ∃ line indent, e.Excerpt source p line indent) := by
  obtain ⟨before, here, hreads, rfl, hblank⟩ := exists_reads_of_parse h hp
  have hsource : source.toList = before ++ here.rest := hreads.rest
  have hposition : here.position = Position.start.advanceBy before := hreads.position
  have hmessage := oneLine_of_parse h
  rw [hposition] at hp ⊢
  rw [on_no_line_iff hsource]
  refine ⟨hmessage, ?_, exists_excerpt hsource hmessage hp hblank⟩
  rw [ParseError.render_eq_message hp, hsource, line_start_advanceBy, line?_append_eq_none]

end

/-- A line that starts with a tab, has a character of two bytes and ends with a carriage return and a
line feed. -/
def tabbedText : String := "Model A \x7b\r\n\ta: B = \"\u00e9\" )\r\n\x7d"

/-- The parenthesis there is out of place, and the caret is below it. -/
theorem tabbedText_points : ∃ e, Dialect.schema.parse Options.standard tabbedText = .error e ∧
    e.position? = some ⟨24, 2, 13⟩ ∧
    e.render tabbedText = "syntax error: expected attribute or action name, found ')' at line 2, " ++
      "column 13\n  |\n2 | \ta: B = \"\u00e9\" )\n  | \t           ^" ∧
    ∃ line indent, e.Excerpt tabbedText ⟨24, 2, 13⟩ line indent := by
  have hparse : Dialect.schema.parse Options.standard tabbedText =
      .error (.mismatch ⟨"attribute or action name", "')'", ⟨24, 2, 13⟩⟩) := by decide +kernel
  have hinside : (24 : Nat) ≠ tabbedText.utf8ByteSize := by decide +kernel
  refine ⟨_, hparse, rfl, by decide +kernel, ?_⟩
  exact (Dialect.excerpt_points hparse rfl).2.2 fun hend => hinside hend.1

end ObjectTransfer
