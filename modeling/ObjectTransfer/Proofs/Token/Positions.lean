import ObjectTransfer.Proofs.Text.Places
import ObjectTransfer.Proofs.Token.Locality
import ObjectTransfer.Proofs.Token.Passing

/-!
# Where the lexer is

A lexer can be called again and again on one text: a call goes on where the last one has stopped, at
the end of the text or at an error. All the time its cursor is at a place of the text, with the rest
of the text still to be read (`Cursor.IsIn`), and whatever a call tells of the text is about such
places and the parts of the text between them (`lexer_at_places`).
-/

namespace ObjectTransfer

/-- The text of a token of the given kind. -/
inductive Token.Kind.TakenFrom (d : Dialect) : String → Token.Kind → Prop
  | mark (m : Mark) : TakenFrom d (String.singleton m.char) (.mark m)
  | string {body content : List Char} {next : Cursor}
      (closes : readString [] body .start = (some content, next)) (ended : next.rest = []) :
      TakenFrom d (String.ofList ('"' :: body)) (.literal (.string (String.ofList content)))
  | number {n : Numeral} (wellFormed : n.WellFormed) :
      TakenFrom d (String.ofList n.text) (.literal (.number n.value))
  | word {word : String} (isWord : IsWord word) : TakenFrom d word (.ofWord d word)

/-- The token stands between two places of the text `source`, and what stands there is its text. -/
structure Token.IsIn (d : Dialect) (t : Token) (source : String) : Prop where
  start : t.start.IsPlaceOf source
  finish : t.finish.IsPlaceOf source
  text : ∃ text, byteSlice? source t.start.offset t.finish.offset = some text ∧
    t.kind.TakenFrom d text

namespace Cursor

/-- The cursor is at a place of the text `source`, and what it is still to read is what follows. -/
structure IsIn (c : Cursor) (source : String) : Prop where
  place : c.position.IsPlaceOf source
  rest : byteSlice? source c.position.offset source.utf8ByteSize = some (String.ofList c.rest)

variable {d : Dialect} {source : String} {c start next : Cursor} {before text : List Char}
  {kind : Token.Kind}

theorem offset_eq_of_reads (h : (ofString source).Reads before c) :
    c.position.offset = String.utf8Len before := by
  rw [h.position]
  exact Position.offset_start_advanceBy before

/-- What has been read between two cursors is the part of the text between their offsets. -/
theorem byteSlice?_of_reads (hstart : (ofString source).Reads before start)
    (htext : start.Reads text next) :
    byteSlice? source start.position.offset next.position.offset = some (String.ofList text) := by
  have hsource : source.toList = before ++ (text ++ next.rest) := by
    rw [← htext.rest]
    exact hstart.rest
  rw [htext.position, Position.offset_advanceBy, offset_eq_of_reads hstart]
  exact byteSlice?_of_append hsource

/-- A cursor that has moved over some of the text is in it. -/
theorem isIn_of_reads (h : (ofString source).Reads before c) : c.IsIn source := by
  refine ⟨?_, ?_⟩
  · rw [h.position]
    exact isPlaceOf_advanceBy h.rest
  · have hall : c.Reads c.rest ⟨[], c.position.advanceBy c.rest⟩ := ⟨(List.append_nil _).symm, rfl⟩
    have hend := byteSlice?_of_reads h hall
    have hsize : c.position.offset + String.utf8Len c.rest = source.utf8ByteSize := by
      rw [offset_eq_of_reads h, ← String.utf8Len_append, ← String.utf8Len_toList]
      exact congrArg _ h.rest.symm
    rwa [Position.offset_advanceBy, hsize] at hend

/-! ## One call -/

theorem Scans.takenFrom (h : c.Scans d kind next) (htext : c.Reads text next) :
    kind.TakenFrom d (String.ofList text) := by
  cases h with
  | @mark m starts =>
    obtain ⟨others, hothers⟩ := List.head?_eq_some_iff.mp starts
    obtain rfl := htext.text_unique (reads_after ⟨others, hothers.symm⟩)
    exact .mark m
  | @string content next starts closes =>
    obtain ⟨others, hothers⟩ := List.head?_eq_some_iff.mp starts
    obtain ⟨body, hbody, hread⟩ := readString_local closes
    rw [hothers] at hbody
    have hquoted := reads_cons hbody
    rw [List.tail_cons, ← hothers] at hquoted
    obtain rfl := htext.text_unique hquoted
    have halone := hread [] .start
    rw [List.append_nil] at halone
    exact .string halone rfl
  | number starts opens whole ends finite =>
    obtain rfl := htext.text_unique (reads_after (Numeral.text_read_prefix c.rest))
    exact .number (Numeral.wellFormed_read whole)
  | word starts opens =>
    obtain rfl := htext.text_unique (reads_after (List.takeWhile_prefix _))
    exact .word (isWord_takeWhile starts opens)

/-- A token that is passed is in the text. -/
theorem Passes.isIn {ts : List Token} (h : c.Passes d ts next)
    (hc : (ofString source).Reads before c) : ∀ t ∈ ts, t.IsIn d source := by
  induction h generalizing before with
  | refl => exact fun _ ht => absurd ht List.not_mem_nil
  | @cons c mid next t ts first _ ih =>
    obtain ⟨gap, start, own, hmeets⟩ := exists_meets_of_nextToken first
    have hstart := hc.trans hmeets.gap
    have hmid := hstart.trans hmeets.text
    refine List.forall_mem_cons.mpr ⟨⟨?_, ?_, _, ?_, hmeets.scans.takenFrom hmeets.text⟩, ih hmid⟩
    · rw [hmeets.start_eq]
      exact (isIn_of_reads hstart).place
    · rw [hmeets.finish_eq]
      exact (isIn_of_reads hmid).place
    · rw [hmeets.start_eq, hmeets.finish_eq]
      exact byteSlice?_of_reads hstart hmeets.text

/-- The result of a call that ends at `next` is about the text `source`: its tokens are in the text
and it ends at a place of it; an error is at a place of it, and a wrong number is what stands there. -/
def ResultIn (d : Dialect) (source : String) (next : Cursor) : Except LexicalError Tokens → Prop
  | .ok tokens => tokens.finish.IsPlaceOf source ∧ ∀ t ∈ tokens.list, t.IsIn d source
  | .error e => e.position.IsPlaceOf source ∧ ∀ spelled, e.cause = .invalidNumber spelled →
      byteSlice? source e.position.offset next.position.offset = some spelled

/-- A call moves the cursor over the text, and its result is about the text. -/
theorem exists_reads_tokens (hc : (ofString source).Reads before c) :
    (∃ text, c.Reads text (c.tokens d).2) ∧ ResultIn d source (c.tokens d).2 (c.tokens d).1 := by
  obtain ⟨ts, last, hpasses, hlast⟩ := tokensAfter_cases d [] c
  obtain ⟨passed, hpassed⟩ := hpasses.exists_reads
  unfold Cursor.tokens
  rcases hlast with ⟨finish, hended, hrun⟩ | ⟨e, next, hfailed, hrun⟩
  · obtain ⟨hskip, -⟩ := nextToken_eq_ended.mp hended
    obtain ⟨gap, hgap⟩ := exists_reads_of_skip hskip
    rw [hrun]
    exact ⟨⟨_, hpassed.trans hgap⟩, (isIn_of_reads ((hc.trans hpassed).trans hgap)).place,
      hpasses.isIn hc⟩
  · obtain ⟨gap, start, hgap, hposition, text, htext, hspelled⟩ :=
      exists_refuses_of_nextToken hfailed
    have hstart := (hc.trans hpassed).trans hgap
    rw [hrun]
    refine ⟨⟨_, (hpassed.trans hgap).trans htext⟩, ?_, ?_⟩
    · rw [hposition]
      exact (isIn_of_reads hstart).place
    · intro spelled hcause
      rw [hposition, hspelled spelled hcause]
      exact byteSlice?_of_reads hstart htext

/-! ## Any number of calls -/

/-- The cursor after the given number of calls, whatever their results are. -/
def afterCalls (d : Dialect) (source : String) : Nat → Cursor
  | 0 => ofString source
  | calls + 1 => ((afterCalls d source calls).tokens d).2

theorem exists_reads_afterCalls (d : Dialect) (source : String) (calls : Nat) :
    ∃ before, (ofString source).Reads before (afterCalls d source calls) := by
  induction calls with
  | zero => exact ⟨[], reads_refl _⟩
  | succ calls ih =>
    obtain ⟨before, hbefore⟩ := ih
    obtain ⟨⟨text, htext⟩, -⟩ := exists_reads_tokens (d := d) hbefore
    exact ⟨_, hbefore.trans htext⟩

/-- The cursor is at `here` at some time: between the places where it is before and after a call. A call
moves it over one character at a time, so these are all the places where it is within the call. -/
def Visits (d : Dialect) (source : String) (here : Cursor) : Prop :=
  ∃ calls before after, (afterCalls d source calls).Reads before here ∧
    here.Reads after (afterCalls d source (calls + 1))

/-- At any time the cursor is in the text. A call only moves it forward over the text, and the result
of the call is about places of the text and the parts between them. -/
theorem lexer_at_places (d : Dialect) (source : String) :
    (∀ here, Visits d source here → here.IsIn source) ∧
      ∀ calls, (∃ text, (afterCalls d source calls).Reads text (afterCalls d source (calls + 1))) ∧
        ResultIn d source (afterCalls d source (calls + 1))
          ((afterCalls d source calls).tokens d).1 := by
  constructor
  · rintro here ⟨calls, before, after, hbefore, -⟩
    obtain ⟨passed, hpassed⟩ := exists_reads_afterCalls d source calls
    exact isIn_of_reads (hpassed.trans hbefore)
  · intro calls
    obtain ⟨passed, hpassed⟩ := exists_reads_afterCalls d source calls
    exact exists_reads_tokens hpassed

end Cursor
end ObjectTransfer
