import ObjectTransfer.Proofs.Token.Passing

/-!
# The rest of a text as a text of its own

From a place on, a lexer reads what it reads of the rest of the text as a text of its own, only with
other positions: they are counted from that place instead of from the start
(`Cursor.tokens_eq_tokenize`). Lines go on from the line of the place, and columns from its column as
long as the line is the same.
-/

namespace ObjectTransfer

variable {d : Dialect} {p q : Position}

namespace Position

/-- The place `q` of a text that starts at the place `p` of another. -/
def rebase (p q : Position) : Position :=
  ⟨p.offset + q.offset, p.line + (q.line - 1),
    if q.line = 1 then p.column + (q.column - 1) else q.column⟩

/-- Lines and columns are counted from 1. -/
structure IsCounted (q : Position) : Prop where
  line : 0 < q.line
  column : 0 < q.column

theorem isCounted_start : start.IsCounted := ⟨by decide, by decide⟩

theorem IsCounted.advance (h : q.IsCounted) (c : Char) : (q.advance c).IsCounted := by
  unfold Position.advance
  split
  · exact ⟨Nat.succ_pos _, Nat.one_pos⟩
  · exact ⟨h.line, Nat.succ_pos _⟩

theorem IsCounted.advanceBy (h : q.IsCounted) (cs : List Char) : (q.advanceBy cs).IsCounted := by
  induction cs generalizing q with
  | nil => exact h
  | cons c cs ih => exact ih (h.advance c)

theorem rebase_start (p : Position) : p.rebase start = p := rfl

theorem rebase_advance (p : Position) (h : q.IsCounted) (c : Char) :
    p.rebase (q.advance c) = (p.rebase q).advance c := by
  have hline := h.line
  have hcolumn := h.column
  by_cases hc : c = '\n'
  · simp [rebase, advance, hc]
    omega
  · by_cases hfirst : q.line = 1 <;> simp [rebase, advance, hc, hfirst] <;> omega

theorem rebase_advanceBy (p : Position) (h : q.IsCounted) (cs : List Char) :
    p.rebase (q.advanceBy cs) = (p.rebase q).advanceBy cs := by
  induction cs generalizing q with
  | nil => rfl
  | cons c cs ih => rw [advanceBy_cons, advanceBy_cons, ih (h.advance c), rebase_advance p h]

end Position

/-! ## Blanks and comments -/

/-- The cursor of a text that starts at `p`. -/
def Cursor.rebase (p : Position) (c : Cursor) : Cursor := ⟨c.rest, p.rebase c.position⟩

/-- The error of a text that starts at `p`. -/
def LexicalError.rebase (p : Position) (e : LexicalError) : LexicalError :=
  ⟨e.cause, p.rebase e.position⟩

/-- The state of a scan in a text that starts at `p`. -/
def Trivia.rebase (p : Position) : Trivia → Trivia
  | .blanks => .blanks
  | .lineComment => .lineComment
  | .blockComment opened => .blockComment (p.rebase opened)

/-- What passing over blanks and comments leads to in a text that starts at `p`. -/
def Trivia.rebaseEnd (p : Position) :
    Except (LexicalError × Cursor) Cursor → Except (LexicalError × Cursor) Cursor
  | .ok next => .ok (next.rebase p)
  | .error (e, next) => .error (e.rebase p, next.rebase p)

theorem Trivia.skip_rebase (t : Trivia) (cs : List Char) (p : Position) (hq : q.IsCounted) :
    (t.rebase p).skip cs (p.rebase q) = rebaseEnd p (t.skip cs q) := by
  fun_induction Trivia.skip t cs q with
  | case1 cs q ih | case7 opened cs q ih =>
    rw [← ih ((hq.advance _).advance _), Position.rebase_advance p (hq.advance _),
      Position.rebase_advance p hq]
    rfl
  | case2 cs q ih =>
    rw [← ih ((hq.advance _).advance _), Position.rebase_advance p (hq.advance _),
      Position.rebase_advance p hq]
    rfl
  | case5 cs q ih =>
    rw [← ih (hq.advance _), Position.rebase_advance p hq]
    rfl
  | case3 a cs q hline hblock hblank ih =>
    rw [← ih (hq.advance _), Position.rebase_advance p hq, rebase, Trivia.skip, if_pos hblank]
    · exact hline
    · exact hblock
  | case4 a cs q hline hblock hblank =>
    rw [rebase, Trivia.skip, if_neg hblank]
    · rfl
    · exact hline
    · exact hblock
  | case6 a cs q hfeed ih =>
    rw [← ih (hq.advance _), Position.rebase_advance p hq, rebase, Trivia.skip]
    exact hfeed
  | case8 opened a cs q hclose ih =>
    rw [← ih (hq.advance _), Position.rebase_advance p hq, rebase, Trivia.skip]
    exact hclose
  | case9 opened q => rfl
  | case10 t q hblock =>
    cases t with
    | blanks | lineComment => rfl
    | blockComment opened => exact absurd rfl (hblock opened)

theorem readString_rebase (content cs : List Char) (p : Position) (hq : q.IsCounted) :
    readString content cs (p.rebase q) =
      ((readString content cs q).1, (readString content cs q).2.rebase p) := by
  fun_induction readString content cs q with
  | case1 => rfl
  | case2 content cs q =>
    rw [readString, ← Position.rebase_advance p hq]
    rfl
  | case3 content a cs q meant hmeant ih =>
    rw [← ih ((hq.advance _).advance _), Position.rebase_advance p (hq.advance _),
      Position.rebase_advance p hq, readString, hmeant]
  | case4 content a cs q hmeant ih =>
    rw [← ih (hq.advance _), Position.rebase_advance p hq, readString, hmeant]
  | case5 content a cs q hquote hescape ih =>
    rw [← ih (hq.advance _), Position.rebase_advance p hq, readString]
    · exact hquote
    · exact hescape

/-! ## Tokens -/

/-- The token of a text that starts at `p`. -/
def Token.rebase (p : Position) (t : Token) : Token := ⟨t.kind, p.rebase t.start, p.rebase t.finish⟩

/-- What the next token is in a text that starts at `p`. -/
def Scan.rebase (p : Position) : Scan → Scan
  | .token t next => .token (t.rebase p) (next.rebase p)
  | .ended finish => .ended (finish.rebase p)
  | .failed e next => .failed (e.rebase p) (next.rebase p)

/-- The tokens of a text that starts at `p`, or why it has none. -/
def Tokens.rebaseResult (p : Position) : Except LexicalError Tokens → Except LexicalError Tokens
  | .ok tokens => .ok ⟨tokens.list.map (·.rebase p), p.rebase tokens.finish⟩
  | .error e => .error (e.rebase p)

namespace Cursor

variable {c next : Cursor}

/-- Where a cursor gets to, lines and columns are counted from 1 as well. -/
theorem Reads.isCounted {text : List Char} (h : c.Reads text next) (hc : c.position.IsCounted) :
    next.position.IsCounted := by
  rw [h.position]
  exact hc.advanceBy text

theorem rest_rebase (p : Position) (c : Cursor) : (c.rebase p).rest = c.rest := rfl

theorem after_rebase (p : Position) (hc : c.position.IsCounted) (text : List Char) :
    (c.rebase p).after text = (c.after text).rebase p := by
  rw [after, after, rebase, rebase, Position.rebase_advanceBy p hc]

theorem scanString_rebase (p : Position) (hc : c.position.IsCounted) :
    (c.rebase p).scanString = c.scanString.rebase p := by
  unfold scanString
  rw [rebase, ← Position.rebase_advance p hc, readString_rebase _ _ p (hc.advance _)]
  rcases readString [] c.rest.tail (c.position.advance '"') with ⟨_ | content, next⟩ <;> rfl

theorem scanNumber_rebase (p : Position) (hc : c.position.IsCounted) :
    (c.rebase p).scanNumber = c.scanNumber.rebase p := by
  have hnext := hc.advanceBy (Numeral.read c.rest).text
  dsimp only [scanNumber]
  rw [rest_rebase, after_rebase p hc, rest_rebase]
  split_ifs
  · rfl
  · rw [after_rebase p hnext]
    rfl
  · rfl

theorem scan_rebase (d : Dialect) (p : Position) (hc : c.position.IsCounted) :
    (c.rebase p).scan d = (c.scan d).rebase p := by
  unfold scan
  rw [rest_rebase]
  split
  · rfl
  · split
    · rw [after_rebase p hc]
      rfl
    · split_ifs
      · exact scanString_rebase p hc
      · exact scanNumber_rebase p hc
      · dsimp only [scanWord]
        rw [rest_rebase, after_rebase p hc]
        rfl
      · rfl

theorem nextToken_rebase (d : Dialect) (p : Position) (hc : c.position.IsCounted) :
    (c.rebase p).nextToken d = (c.nextToken d).rebase p := by
  have hskip : (c.rebase p).skipTrivia = Trivia.rebaseEnd p c.skipTrivia :=
    Trivia.skip_rebase .blanks c.rest p hc
  unfold nextToken
  rw [hskip]
  cases hstart : c.skipTrivia with
  | ok start =>
    obtain ⟨gap, hgap⟩ := exists_reads_of_skip hstart
    exact scan_rebase d p (hgap.isCounted hc)
  | error e => rfl

theorem tokensAfter_of_failed {e : LexicalError} (seen : List Token)
    (h : c.nextToken d = .failed e next) : c.tokensAfter d seen = (.error e, next) := by
  rw [tokensAfter.eq_def, h]

/-- The run of a lexer over a text that starts at `p` is that over the text as one of its own. -/
theorem tokensAfter_rebase (d : Dialect) (seen : List Token) (p : Position)
    (hc : c.position.IsCounted) : (c.rebase p).tokensAfter d (seen.map (·.rebase p)) =
      (Tokens.rebaseResult p (c.tokensAfter d seen).1, (c.tokensAfter d seen).2.rebase p) := by
  fun_induction tokensAfter d seen c with
  | case1 seen c t next hnext ih =>
    obtain ⟨gap, start, text, hmeets⟩ := exists_meets_of_nextToken hnext
    have hrebased : (c.rebase p).nextToken d = .token (t.rebase p) (next.rebase p) := by
      rw [nextToken_rebase d p hc, hnext]
      rfl
    rw [tokensAfter_of_token _ hrebased, ← ih (hmeets.reads.isCounted hc), List.map_cons]
  | case2 seen c finish hended =>
    have hrebased : (c.rebase p).nextToken d = .ended (finish.rebase p) := by
      rw [nextToken_rebase d p hc, hended]
      rfl
    rw [tokensAfter_of_ended _ hrebased, Tokens.rebaseResult, List.map_reverse]
    rfl
  | case3 seen c e next hfailed =>
    have hrebased : (c.rebase p).nextToken d = .failed (e.rebase p) (next.rebase p) := by
      rw [nextToken_rebase d p hc, hfailed]
      rfl
    rw [tokensAfter_of_failed _ hrebased]
    rfl

/-- What is read from a cursor on is what is still to be read as a text of its own, with the place of
the cursor for its start. -/
theorem tokens_eq_tokenize (d : Dialect) (c : Cursor) : (c.tokens d).1 =
    Tokens.rebaseResult c.position (tokenize d (String.ofList c.rest)) := by
  have hself : (ofString (String.ofList c.rest)).rebase c.position = c := by
    rw [ofString, String.toList_ofList, rebase, Position.rebase_start]
  have hrun := tokensAfter_rebase d [] c.position (c := ofString (String.ofList c.rest))
    Position.isCounted_start
  rw [List.map_nil, hself] at hrun
  rw [Cursor.tokens, hrun]
  rfl

end Cursor
end ObjectTransfer
