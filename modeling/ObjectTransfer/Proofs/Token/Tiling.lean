import ObjectTransfer.Proofs.Document
import ObjectTransfer.Proofs.Token.Positions
import ObjectTransfer.Proofs.Token.Reading

/-!
# Tokens tile a text

The tokens of a text stand in it one after the other, and what stands before, between and after them
is blanks and comments. Each token has characters, and is read from these alone (`tokens_tile`).
-/

namespace ObjectTransfer
/-! ## What tiles a text -/

/-- The offsets between which no token stands: from `first` to the first token, from each token to
the next, and from the last one to `last`. -/
def gapsBetween (first : Nat) (ts : List Token) (last : Nat) : List (Nat × Nat) :=
  (first :: ts.map (·.finish.offset)).zip (ts.map (·.start.offset) ++ [last])

/-- The offsets between which no token of a text stands. -/
def Tokens.gaps (tokens : Tokens) : List (Nat × Nat) :=
  gapsBetween 0 tokens.list tokens.finish.offset

/-- Between the two offsets, which are in order, the text has blanks and comments only. -/
def IsGap (source : String) (gap : Nat × Nat) : Prop :=
  gap.1 ≤ gap.2 ∧ ∃ between after, byteSlice? source gap.1 gap.2 = some (String.ofList between) ∧
    byteSlice? source gap.2 source.utf8ByteSize = some (String.ofList after) ∧
    IsTrivia between after

/-- The token has characters, and these alone are a text of a single token of its kind. -/
def Token.StandsAlone (d : Dialect) (source : String) (t : Token) : Prop :=
  0 < t.size ∧ ∃ text, byteSlice? source t.start.offset t.finish.offset = some text ∧
    ∃ alone, tokenize d text = .ok alone ∧ alone.list.map (·.kind) = [t.kind]

namespace Cursor

variable {d : Dialect} {source : String} {c start last finish : Cursor} {t : Token}
  {ts : List Token} {before gap : List Char}

theorem isGap_of_skipTrivia (hc : (ofString source).Reads before c) (h : c.skipTrivia = .ok start)
    (hgap : c.Reads gap start) : IsGap source (c.position.offset, start.position.offset) :=
  ⟨hgap.offset_le, gap, start.rest, byteSlice?_of_reads hc hgap,
    (isIn_of_reads (hc.trans hgap)).rest, isTrivia_of_skipTrivia h hgap⟩

/-- Before, between and after the tokens that are passed up to the end of the text are gaps. -/
theorem Passes.isGap (h : c.Passes d ts last) (hc : (ofString source).Reads before c)
    (hended : last.nextToken d = .ended finish) :
    ∀ gap ∈ gapsBetween c.position.offset ts finish.position.offset, IsGap source gap := by
  induction h generalizing before with
  | refl c =>
    obtain ⟨hskip, -⟩ := nextToken_eq_ended.mp hended
    obtain ⟨gap, hgap⟩ := exists_reads_of_skip hskip
    exact List.forall_mem_singleton.mpr (isGap_of_skipTrivia hc hskip hgap)
  | cons first _ ih =>
    obtain ⟨gap, start, own, hmeets⟩ := exists_meets_of_nextToken first
    have hgap := isGap_of_skipTrivia hc hmeets.skips hmeets.gap
    have hothers := ih (hc.trans hmeets.reads) hended
    rw [← hmeets.start_eq] at hgap
    rw [← hmeets.finish_eq] at hothers
    exact List.forall_mem_cons.mpr ⟨hgap, hothers⟩

theorem Passes.standsAlone (h : c.Passes d ts last) (hc : (ofString source).Reads before c) :
    ∀ t ∈ ts, t.StandsAlone d source := by
  induction h generalizing before with
  | refl => exact fun _ ht => absurd ht List.not_mem_nil
  | @cons c mid next t ts first _ ih =>
    obtain ⟨gap, start, own, hmeets⟩ := exists_meets_of_nextToken first
    have hslice := byteSlice?_of_reads (hc.trans hmeets.gap) hmeets.text
    rw [← hmeets.start_eq, ← hmeets.finish_eq] at hslice
    have halone := (hmeets.passes.readsAs hmeets.text).exists_tokenize apart_nil
    have hsize : 0 < t.size := Nat.sub_pos_of_lt hmeets.start_lt_finish
    exact List.forall_mem_cons.mpr ⟨⟨hsize, _, hslice, halone⟩, ih (hc.trans hmeets.reads)⟩

end Cursor

/-- The tokens of a text tile it. The text ends where the last gap ends; every token has characters
and is read from them alone; before, between and after the tokens are blanks and comments. -/
theorem tokens_tile {d : Dialect} {source : String} {tokens : Tokens}
    (h : tokenize d source = .ok tokens) :
    tokens.finish.offset = source.utf8ByteSize ∧
      (∀ t ∈ tokens.list, t.StandsAlone d source) ∧ ∀ gap ∈ tokens.gaps, IsGap source gap := by
  obtain ⟨last, finish, hpasses, hended, hfinish⟩ := Cursor.passes_of_tokenize h
  have hstart := Cursor.reads_refl (.ofString source)
  refine ⟨?_, hpasses.standsAlone hstart, ?_⟩
  · obtain ⟨hskip, hrest⟩ := Cursor.nextToken_eq_ended.mp hended
    obtain ⟨text, htext⟩ := hpasses.exists_reads
    obtain ⟨gap, hgap⟩ := Cursor.exists_reads_of_skip hskip
    have hall := htext.trans hgap
    rw [hfinish, Cursor.offset_eq_of_reads hall, ← String.utf8Len_toList]
    have hsource := hall.rest
    rw [hrest, List.append_nil] at hsource
    exact congrArg _ hsource.symm
  · unfold Tokens.gaps
    rw [hfinish]
    exact hpasses.isGap hstart hended

/-- The tokens of `1./*é*/x // y`: a number, a point that is no part of it, and a name. -/
def pointedTokens : Tokens where
  list :=
    [⟨.literal (.number (Numeral.read ['1']).value), ⟨0, 1, 1⟩, ⟨1, 1, 2⟩⟩,
      ⟨.mark .dot, ⟨1, 1, 2⟩, ⟨2, 1, 3⟩⟩, ⟨.identifier "x", ⟨8, 1, 8⟩, ⟨9, 1, 9⟩⟩]
  finish := ⟨14, 1, 14⟩

theorem pointedTokens_tile :
    tokenize .request "1./*é*/x // y" = .ok pointedTokens ∧
      (∀ t ∈ pointedTokens.list, t.StandsAlone .request "1./*é*/x // y") ∧
      ∀ gap ∈ [(0, 0), (1, 1), (2, 8), (9, 14)], IsGap "1./*é*/x // y" gap := by
  have hread : tokenize .request "1./*é*/x // y" = .ok pointedTokens := by decide +kernel
  obtain ⟨-, halone, hgaps⟩ := tokens_tile hread
  exact ⟨hread, halone, hgaps⟩
end ObjectTransfer
