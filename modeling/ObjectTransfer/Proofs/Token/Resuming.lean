import ObjectTransfer.Proofs.Token.Positions
import ObjectTransfer.Proofs.Token.Rebasing

/-!
# Calling a lexer again

A call on a lexer reads what the calls before it have left of the text, as a text of its own
(`lexer_resumes`). Where a call stops depends on its result (`Leaves`): what has no end takes the whole
text with it, an unexpected character stays, and a wrong number takes its characters. So a call
settles the results of all later calls, unless it fails at a wrong number, and then it takes at least
one character.
-/

namespace ObjectTransfer.Cursor

variable {d : Dialect} {source : String} {c start next last : Cursor} {e : LexicalError}
  {calls : Nat}

/-! ## Where a call stops -/

/-- A lexer that fails with the error `e` is at `next` then. -/
def Leaves (d : Dialect) (e : LexicalError) (next : Cursor) : Prop :=
  match e.cause with
  | .unterminatedString | .unterminatedComment => next.rest = []
  | .unexpectedCharacter _ => next.nextToken d = .failed e next
  | .invalidNumber spelled => spelled ≠ "" ∧ next.position = e.position.advanceBy spelled.toList

/-- Behind blanks and comments there are none. -/
theorem skipTrivia_of_skip {t : Trivia} {cs : List Char} {p : Position}
    (h : t.skip cs p = .ok next) : next.skipTrivia = .ok next := by
  fun_induction Trivia.skip t cs p with
  | case1 _ _ ih | case2 _ _ ih | case3 _ _ _ _ _ _ ih | case5 _ _ ih | case6 _ _ _ _ ih
  | case7 _ _ _ ih | case8 _ _ _ _ _ ih => exact ih h
  | case9 => exact absurd h (by simp)
  | case4 a cs p hline hblock hblank =>
    obtain rfl := Except.ok.inj h
    rw [skipTrivia, Trivia.skip, if_neg hblank]
    · exact hline
    · exact hblock
  | case10 =>
    obtain rfl := Except.ok.inj h
    rfl

theorem rest_eq_nil_of_readString {content cs : List Char} {p : Position}
    (h : readString content cs p = (none, next)) : next.rest = [] := by
  fun_induction readString content cs p with
  | case1 =>
    obtain ⟨-, rfl⟩ := Prod.mk.inj h
    rfl
  | case2 => exact absurd h (by simp)
  | case3 _ _ _ _ _ _ ih | case4 _ _ _ _ _ ih | case5 _ _ _ _ _ _ ih => exact ih h

theorem leaves_of_scanString (h : c.scanString = .failed e next) : Leaves d e next := by
  unfold scanString at h
  split at h
  · exact absurd h (by simp [tokenUpTo])
  · rename_i next' hread
    injection h with he hnext
    subst he hnext
    exact rest_eq_nil_of_readString hread

theorem leaves_of_scanNumber {first : Char} {others : List Char} (hrest : c.rest = first :: others)
    (hfirst : first = '-' ∨ isDigit first) (h : c.scanNumber = .failed e next) :
    Leaves d e next := by
  have hne : (Numeral.read c.rest).text ≠ [] := by
    rw [hrest]
    exact Numeral.text_read_ne_nil hfirst
  dsimp only [scanNumber] at h
  split_ifs at h
  · injection h with he hnext
    subst he hnext
    refine ⟨by simpa using hne, ?_⟩
    rw [String.toList_ofList]
    rfl
  · injection h with he hnext
    subst he hnext
    refine ⟨?_, ?_⟩
    · rw [String.ofList_append]
      simp [hne]
    · rw [String.toList_ofList, Position.advanceBy_append]
      rfl
  · exact absurd h (by simp [tokenUpTo])

theorem leaves_of_scan (hstart : c.skipTrivia = .ok c) (h : c.scan d = .failed e next) :
    Leaves d e next := by
  have hscan := h
  unfold scan at h
  split at h
  · exact absurd h (by simp)
  · rename_i first others hrest
    split at h
    · exact absurd h (by simp [tokenUpTo])
    · split_ifs at h with hquote hnumber hword
      · exact leaves_of_scanString h
      · exact leaves_of_scanNumber hrest (by simpa using hnumber) h
      · exact absurd h (by simp [scanWord, tokenUpTo])
      · injection h with he hnext
        subst he hnext
        show c.nextToken d = _
        unfold nextToken
        rw [hstart]
        exact hscan

theorem leaves_of_nextToken (h : c.nextToken d = .failed e next) : Leaves d e next := by
  unfold nextToken at h
  split at h
  · rename_i start hskip
    exact leaves_of_scan (skipTrivia_of_skip hskip) h
  · rename_i e' finish hskip
    injection h with he hnext
    subst he hnext
    obtain ⟨hcause, rfl, -⟩ := Trivia.opensComment_of_skip hskip
    unfold Leaves
    rw [hcause]

/-- A call with the result `result` has left the lexer at `next`. -/
def Stops (d : Dialect) (next : Cursor) : Except LexicalError Tokens → Prop
  | .ok _ => next.rest = []
  | .error e => Leaves d e next

theorem stops_tokens (d : Dialect) (c : Cursor) : Stops d (c.tokens d).2 (c.tokens d).1 := by
  obtain ⟨ts, last, -, hlast⟩ := tokensAfter_cases d [] c
  unfold Cursor.tokens
  rcases hlast with ⟨finish, hended, hrun⟩ | ⟨e, next, hfailed, hrun⟩
  · rw [hrun]
    exact (nextToken_eq_ended.mp hended).2
  · rw [hrun]
    exact leaves_of_nextToken hfailed

/-! ## What later calls do -/

theorem tokens_of_rest_eq_nil (h : c.rest = []) : c.tokens d = (.ok ⟨[], c.position⟩, c) := by
  obtain ⟨rest, p⟩ := c
  obtain rfl : rest = [] := h
  exact tokensAfter_of_ended [] (nextToken_eq_ended.mpr ⟨rfl, rfl⟩)

/-- A lexer that a call does not move stays where it is. -/
theorem afterCalls_of_fixed
    (h : ((afterCalls d source calls).tokens d).2 = afterCalls d source calls) (more : Nat) :
    afterCalls d source (calls + more) = afterCalls d source calls := by
  induction more with
  | zero => rfl
  | succ more ih => rw [← Nat.add_assoc, afterCalls, ih, h]

/-- The result of a call after the given number of calls. -/
def resultAfter (d : Dialect) (source : String) (calls : Nat) : Except LexicalError Tokens :=
  ((afterCalls d source calls).tokens d).1

theorem resultAfter_of_ended (h : (afterCalls d source calls).rest = []) (more : Nat) :
    resultAfter d source (calls + more) = .ok ⟨[], Position.start.advanceBy source.toList⟩ := by
  obtain ⟨before, hbefore⟩ := exists_reads_afterCalls d source calls
  have hrun := tokens_of_rest_eq_nil (d := d) h
  have hsource : source.toList = before := by
    have hrest := hbefore.rest
    rwa [h, List.append_nil] at hrest
  rw [resultAfter, afterCalls_of_fixed (by rw [hrun]), hrun, hbefore.position, hsource]
  rfl

theorem resultAfter_of_refused
    (h : (afterCalls d source calls).nextToken d = .failed e (afterCalls d source calls))
    (more : Nat) : resultAfter d source (calls + more) = .error e := by
  have hrun : (afterCalls d source calls).tokens d = (.error e, afterCalls d source calls) :=
    tokensAfter_of_failed [] h
  rw [resultAfter, afterCalls_of_fixed (by rw [hrun]), hrun]

/-- What follows a call with the given result, when there have been `calls` calls with it. -/
def Followed (d : Dialect) (source : String) (calls : Nat) : Except LexicalError Tokens → Prop
  | .ok _ | .error ⟨.unterminatedString, _⟩ | .error ⟨.unterminatedComment, _⟩ =>
    ∀ more, resultAfter d source (calls + more) =
      .ok ⟨[], Position.start.advanceBy source.toList⟩
  | .error ⟨.unexpectedCharacter found, p⟩ =>
    ∀ more, resultAfter d source (calls + more) = .error ⟨.unexpectedCharacter found, p⟩
  | .error ⟨.invalidNumber spelled, p⟩ => spelled ≠ "" ∧
    (afterCalls d source calls).position = p.advanceBy spelled.toList ∧
    byteSlice? source p.offset (afterCalls d source calls).position.offset = some spelled

theorem followed_resultAfter (d : Dialect) (source : String) (calls : Nat) :
    Followed d source (calls + 1) (resultAfter d source calls) := by
  have hstops := stops_tokens d (afterCalls d source calls)
  obtain ⟨before, hbefore⟩ := exists_reads_afterCalls d source calls
  have hresult := (exists_reads_tokens (d := d) hbefore).2
  unfold resultAfter
  rcases hrun : ((afterCalls d source calls).tokens d).1 with ⟨cause, p⟩ | tokens
  · rw [hrun] at hstops hresult
    cases cause with
    | unterminatedString | unterminatedComment => exact resultAfter_of_ended hstops
    | unexpectedCharacter found => exact resultAfter_of_refused hstops
    | invalidNumber spelled => exact ⟨hstops.1, hstops.2, hresult.2 spelled rfl⟩
  · rw [hrun] at hstops
    exact resultAfter_of_ended hstops

/-! ## How many calls make a difference -/

/-- A call leaves the lexer where no later call moves it, or it takes something from the text. -/
theorem fixed_or_shorter (d : Dialect) (c : Cursor) :
    (((c.tokens d).2.tokens d).2 = (c.tokens d).2) ∨
      (c.tokens d).2.rest.length < c.rest.length := by
  obtain ⟨ts, last, hpasses, hlast⟩ := tokensAfter_cases d [] c
  obtain ⟨passed, hpassed⟩ := hpasses.exists_reads
  rcases hlast with ⟨finish, hended, hrun⟩ | ⟨e, next, hfailed, hrun⟩
  · left
    have hagain := tokens_of_rest_eq_nil (d := d) (nextToken_eq_ended.mp hended).2
    rw [show c.tokens d = _ from hrun, hagain]
  · rw [show c.tokens d = _ from hrun]
    dsimp only
    have hleaves := leaves_of_nextToken hfailed
    obtain ⟨gap, start, hgap, hposition, text, htext, hspelled⟩ :=
      exists_refuses_of_nextToken hfailed
    rcases e with ⟨cause, p⟩
    cases cause with
    | unterminatedString | unterminatedComment =>
      left
      rw [tokens_of_rest_eq_nil hleaves]
    | unexpectedCharacter found =>
      left
      rw [Cursor.tokens, tokensAfter_of_failed [] hleaves]
    | invalidNumber spelled =>
      right
      have hne : text ≠ [] := by
        rintro rfl
        exact hleaves.1 (hspelled spelled rfl)
      have hlength := congrArg List.length ((hpassed.trans hgap).trans htext).rest
      have hpos := List.length_pos_iff.mpr hne
      simp only [List.length_append] at hlength
      omega

/-- With each call there is less to read, until a call makes no difference any more. -/
theorem fixed_or_shorter_afterCalls (d : Dialect) (source : String) (calls : Nat) :
    ((afterCalls d source (calls + 1)).tokens d).2 = afterCalls d source (calls + 1) ∨
      (afterCalls d source (calls + 1)).rest.length + calls < source.length := by
  induction calls with
  | zero =>
    rw [← String.length_toList]
    exact fixed_or_shorter d (ofString source)
  | succ calls ih =>
    rcases ih with hfixed | hshorter
    · left
      rw [afterCalls, hfixed, hfixed]
    · rcases fixed_or_shorter d (afterCalls d source (calls + 1)) with hfixed | hlength
      · exact .inl hfixed
      · right
        rw [afterCalls]
        omega

/-- However often a lexer has been called on the text `source`, the next call reads what is left of
the text as a text of its own, only with positions counted from there. What follows is decided by the
result: there is nothing but the end of the text after the tokens and after what has no end, an
unexpected character is told again, and behind a wrong number the reading goes on. So after one call
more than there are characters, all further calls have the same result. -/
theorem lexer_resumes (d : Dialect) (source : String) :
    (∀ calls, ∃ before, source.toList = before ++ (afterCalls d source calls).rest ∧
      (afterCalls d source calls).position = Position.start.advanceBy before ∧
      resultAfter d source calls = Tokens.rebaseResult (afterCalls d source calls).position
        (tokenize d (String.ofList (afterCalls d source calls).rest))) ∧
    (∀ calls, Followed d source (calls + 1) (resultAfter d source calls)) ∧
    ∀ more, resultAfter d source (source.length + 1 + more) =
      resultAfter d source (source.length + 1) := by
  refine ⟨fun calls => ?_, followed_resultAfter d source, fun more => ?_⟩
  · obtain ⟨before, hbefore⟩ := exists_reads_afterCalls d source calls
    exact ⟨before, hbefore.rest, hbefore.position, tokens_eq_tokenize d _⟩
  · have hfixed := (fixed_or_shorter_afterCalls d source source.length).resolve_right (by omega)
    unfold resultAfter
    rw [afterCalls_of_fixed hfixed]

/-- A wrong number is passed by, an unexpected character is not. -/
example : (List.range 3).map (resultAfter .schema "7a #") =
    [.error ⟨.invalidNumber "7a", ⟨0, 1, 1⟩⟩, .error ⟨.unexpectedCharacter '#', ⟨3, 1, 4⟩⟩,
      .error ⟨.unexpectedCharacter '#', ⟨3, 1, 4⟩⟩] := by decide +kernel

end ObjectTransfer.Cursor
