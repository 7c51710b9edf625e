import ObjectTransfer.Proofs.Token.Reading

/-!
# The tokens of joined texts

A text is its tokens, with what stands between them, and then blanks and comments up to its end
(`exists_readsAs_of_tokenize`). Behind a line feed another text may go on: the line feed ends the last
token, and the last comment if it runs to the end of its line. So the tokens of two texts with a line
feed between them are those of the one and those of the other (`exists_tokenize_joined`).
-/

namespace ObjectTransfer

open Cursor

/-! ## What stands behind the last token -/

/-- Blanks and comments that end with a line feed may stand in front of anything. -/
theorem IsTrivia.append_feed {gap behind : List Char} (h : IsTrivia gap behind)
    (rest : List Char) : IsTrivia (gap ++ ['\n']) rest := by
  induction h with
  | nil => exact .blank rfl (.nil rest)
  | blank hblank _ ih => exact .blank hblank ih
  | line noFeed _ ih =>
    rw [List.cons_append, List.cons_append, List.append_assoc]
    exact .line noFeed ih
  | lastLine noFeed => exact .line noFeed (.nil rest)
  | block notClosed _ ih =>
    rw [List.cons_append, List.cons_append, List.append_assoc]
    exact .block notClosed ih

/-- A blank ends any token. -/
theorem apart_blank {c : Char} (h : isBlank c) (rest : List Char) : Apart (c :: rest) := by
  simp only [isBlank, Bool.or_eq_true, decide_eq_true_eq] at h
  rcases h with ((rfl | rfl) | rfl) | rfl <;> exact apart_cons (by decide) (by decide) _

/-- Blanks and comments end any token. -/
theorem IsTrivia.apart_append {gap behind rest : List Char} (h : IsTrivia gap behind)
    (hrest : Apart rest) : Apart (gap ++ rest) := by
  cases h with
  | nil => exact hrest
  | blank hblank _ => exact apart_blank hblank _
  | line => exact apart_cons (by decide) (by decide) _
  | lastLine => exact apart_cons (by decide) (by decide) _
  | block => exact apart_cons (by decide) (by decide) _

variable {d : Dialect}

theorem readsAs_trivia {Follow : List Char → Prop} {gap : List Char}
    (h : ∀ rest, Follow rest → IsTrivia gap rest) : ReadsAs d Follow gap [] := by
  intro rest hrest p seen
  exact ⟨[], rfl, tokensAfter_congr seen (nextToken_isTrivia_append (h rest hrest) p)⟩

/-! ## Texts -/

/-- A text is its tokens and what stands behind the last of them. -/
theorem exists_readsAs_of_tokenize {source : String} {tokens : Tokens}
    (h : tokenize d source = .ok tokens) :
    ∃ text gap, source.toList = text ++ gap ∧ ReadsAs d Apart text (tokens.list.map (·.kind)) ∧
      IsTrivia gap [] := by
  obtain ⟨last, finish, hpasses, hended, -⟩ := passes_of_tokenize h
  obtain ⟨hskip, hrest⟩ := nextToken_eq_ended.mp hended
  obtain ⟨text, htext⟩ := hpasses.exists_reads
  obtain ⟨gap, hgap⟩ := exists_reads_of_skip hskip
  have hsource : source.toList = text ++ (gap ++ finish.rest) := by
    rw [← hgap.rest]
    exact htext.rest
  have htrivia := isTrivia_of_skipTrivia hskip hgap
  rw [hrest] at hsource htrivia
  rw [List.append_nil] at hsource
  exact ⟨text, gap, hsource, hpasses.readsAs htext, htrivia⟩

/-- The tokens of two texts with a line feed between them. -/
theorem exists_tokenize_joined {a b : String} {tokens tokens' : Tokens}
    (ha : tokenize d a = .ok tokens) (hb : tokenize d b = .ok tokens') :
    ∃ joined, tokenize d (a ++ "\n" ++ b) = .ok joined ∧
      joined.list.map (·.kind) = tokens.list.map (·.kind) ++ tokens'.list.map (·.kind) := by
  obtain ⟨text, gap, hsource, hread, hgap⟩ := exists_readsAs_of_tokenize ha
  obtain ⟨text', gap', hsource', hread', hgap'⟩ := exists_readsAs_of_tokenize hb
  have hfirst : ReadsAs d (fun _ => True) (text ++ (gap ++ ['\n'])) (tokens.list.map (·.kind)) := by
    have htrivia : ReadsAs d (fun _ => True) (gap ++ ['\n']) [] :=
      readsAs_trivia fun rest _ => hgap.append_feed rest
    have hall := hread.append htrivia fun rest _ => ?_
    · rwa [List.append_nil] at hall
    · rw [List.append_assoc]
      exact hgap.apart_append (apart_cons (by decide) (by decide) _)
  have hsecond : ReadsAs d (· = []) (text' ++ gap') (tokens'.list.map (·.kind)) := by
    have htrivia : ReadsAs d (· = []) gap' [] := by
      refine readsAs_trivia fun rest hrest => ?_
      rw [hrest]
      exact hgap'
    have hall := hread'.append htrivia fun rest hrest => ?_
    · rwa [List.append_nil] at hall
    · rw [hrest]
      exact hgap'.apart_append apart_nil
  have hjoined := (hfirst.append hsecond fun _ _ => trivial).exists_tokenize rfl
  have hchars : String.ofList (text ++ (gap ++ ['\n']) ++ (text' ++ gap')) = a ++ "\n" ++ b := by
    rw [← hsource', ← List.append_assoc, ← hsource, String.ofList_append, String.ofList_append]
    simp
  rwa [hchars] at hjoined

end ObjectTransfer
