import ObjectTransfer.Proofs.Token.Gaps
import ObjectTransfer.Proofs.Token.Locality
import ObjectTransfer.Proofs.Token.Passing

/-!
# Characters that are read as tokens

A run of tokens is read from its own characters, wherever these stand: in front of what goes on
neither in a word nor in a number they are tokens of the same kinds (`Passes.readsAs`). Pieces of text
that are read in this way are put together by `ReadsAs.append`.
-/

namespace ObjectTransfer

open Cursor

/-- In front of what satisfies `Follow`, the characters are read as tokens of these kinds, and the
lexer goes on behind them. -/
def ReadsAs (d : Dialect) (Follow : List Char → Prop) (text : List Char) (kinds : List Token.Kind) :
    Prop :=
  ∀ ⦃rest : List Char⦄, Follow rest → ∀ (p : Position) (seen : List Token),
    ∃ ts : List Token, ts.map (·.kind) = kinds ∧ tokensAfter d seen ⟨text ++ rest, p⟩ =
      tokensAfter d (ts.reverse ++ seen) ⟨rest, p.advanceBy text⟩

variable {d : Dialect} {Follow Follow' : List Char → Prop} {text text' : List Char}
  {kinds kinds' : List Token.Kind}

/-- Two pieces, if the second can follow the first. -/
theorem ReadsAs.append (h : ReadsAs d Follow text kinds) (h' : ReadsAs d Follow' text' kinds')
    (hfollow : ∀ rest, Follow' rest → Follow (text' ++ rest)) :
    ReadsAs d Follow' (text ++ text') (kinds ++ kinds') := by
  intro rest hrest p seen
  obtain ⟨ts, rfl, hts⟩ := h (hfollow rest hrest) p seen
  obtain ⟨us, rfl, hus⟩ := h' hrest (p.advanceBy text) (ts.reverse ++ seen)
  refine ⟨ts ++ us, List.map_append, ?_⟩
  rw [List.append_assoc, hts, hus, Position.advanceBy_append, List.reverse_append,
    List.append_assoc]

/-- A text is read as the tokens that it is read as in front of nothing. -/
theorem ReadsAs.exists_tokenize (h : ReadsAs d Follow text kinds) (hend : Follow []) :
    ∃ tokens, tokenize d (String.ofList text) = .ok tokens ∧
      tokens.list.map (·.kind) = kinds := by
  obtain ⟨ts, rfl, hts⟩ := h hend .start []
  have hended : nextToken d ⟨[], Position.start.advanceBy text⟩ =
      .ended ⟨[], Position.start.advanceBy text⟩ := rfl
  rw [List.append_nil, List.append_nil, tokensAfter_of_ended _ hended, List.reverse_reverse] at hts
  refine ⟨⟨ts, Position.start.advanceBy text⟩, ?_, rfl⟩
  rw [tokenize, Cursor.tokens, ofString, String.toList_ofList, hts]

/-! ## Pieces -/

/-- The source form of a token. -/
theorem readsAs_text (kind : Token.Kind) (hkind : kind.IsLexical d) :
    ReadsAs d (kind.EndsBefore ·) kind.text.toList [kind] := by
  intro rest hrest p seen
  exact ⟨[_], rfl, tokensAfter_of_token seen (nextToken_of_scan (scan_text hkind hrest p))⟩

theorem readsAs_mark (m : Mark) : ReadsAs d (fun _ => True) [m.char] [.mark m] := by
  have hmark := readsAs_text (.mark m) (d := d) trivial
  rwa [Token.Kind.text, String.toList_singleton] at hmark

theorem readsAs_identifier {name : String} (hname : IsName name) (hfree : d.keyword? name = none) :
    ReadsAs d WordEnds name.toList [.identifier name] :=
  readsAs_text (.identifier name) ⟨hname, hfree⟩

theorem readsAs_blank {c : Char} (hc : isBlank c) : ReadsAs d (fun _ => True) [c] [] := by
  intro rest _ p seen
  refine ⟨[], rfl, tokensAfter_congr _ ?_⟩
  unfold nextToken
  rw [List.singleton_append, skipTrivia_blank hc]
  rfl

namespace Cursor

variable {c next : Cursor} {ts : List Token} {rest : List Char}

theorem nextToken_isTrivia_append {gap : List Char} (h : IsTrivia gap rest) (p : Position) :
    nextToken d ⟨gap ++ rest, p⟩ = nextToken d ⟨rest, p.advanceBy gap⟩ := by
  unfold nextToken
  rw [h.skipTrivia_append]

/-- The characters of tokens that are passed, with what stands between them, are read as tokens of
the same kinds. -/
theorem Passes.readsAs (h : c.Passes d ts next) (hreads : c.Reads text next) :
    ReadsAs d Apart text (ts.map (·.kind)) := by
  intro rest hrest p seen
  induction h generalizing text p seen with
  | refl c =>
    obtain rfl := hreads.text_unique (reads_refl c)
    exact ⟨[], rfl, rfl⟩
  | @cons c mid next t ts first others ih =>
    obtain ⟨gap, start, own, hmeets⟩ := exists_meets_of_nextToken first
    obtain ⟨after, hafter⟩ := others.exists_reads
    obtain rfl := hreads.text_unique (hmeets.reads.trans hafter)
    have hends : EndsAlike mid.rest (after ++ rest) := by
      rw [hafter.rest]
      exact hrest.endsAlike_append after next.rest
    have hscan := (hmeets.scans.reframe hmeets.text hends (p.advanceBy gap)).scan_eq
    -- A token follows the gap, both in the text and in front of the other rest.
    have htrivia : IsTrivia gap (own ++ (after ++ rest)) := by
      obtain ⟨first, hfirst, -⟩ := hmeets.scans.exists_first
      exact (isTrivia_of_skipTrivia hmeets.skips hmeets.gap).reframe (rest_ne_nil_of_head? hfirst) _
    have hnext := nextToken_of_scan hscan
    rw [← nextToken_isTrivia_append htrivia] at hnext
    let read : Token := ⟨t.kind, p.advanceBy gap, (p.advanceBy gap).advanceBy own⟩
    obtain ⟨us, hkinds, hus⟩ := ih hafter read.finish (read :: seen)
    refine ⟨read :: us, by rw [List.map_cons, List.map_cons, hkinds], ?_⟩
    rw [List.append_assoc, List.append_assoc, tokensAfter_of_token seen hnext, hus,
      Position.advanceBy_append, Position.advanceBy_append, List.reverse_cons, List.append_assoc]
    rfl

end Cursor
end ObjectTransfer
