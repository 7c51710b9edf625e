import ObjectTransfer.Proofs.Token.Scanning

/-!
# The run of the lexer

A run of the lexer passes one token after the other (`Cursor.Passes`) until the text ends or
something in it is no token (`tokensAfter_cases`). A run that fails has moved over the text like any
other, and the error is at a place that the cursor has come to (`exists_refuses_of_nextToken`). The
tokens of a text are in order (`inOrder_of_tokenize`).
-/

namespace ObjectTransfer
namespace Cursor

variable {d : Dialect} {c mid next last : Cursor} {e : LexicalError} {t : Token}
  {ts us : List Token}

/-! ## Failures -/

/-- The error `e` is at the cursor `c`, which is at `next` after it; a wrong number is what has been
read in between. -/
structure Refuses (c : Cursor) (e : LexicalError) (next : Cursor) : Prop where
  position : e.position = c.position
  text : ∃ text, c.Reads text next ∧
    ∀ spelled, e.cause = .invalidNumber spelled → spelled = String.ofList text

theorem refuses_of_scanString (hrest : c.rest.head? = some '"')
    (h : c.scanString = .failed e next) : c.Refuses e next := by
  obtain ⟨others, hothers⟩ := List.head?_eq_some_iff.mp hrest
  obtain ⟨text, htext⟩ := exists_reads_readString [] c.rest.tail (c.position.advance '"')
  unfold scanString at h
  split at h
  · exact absurd h (by simp [tokenUpTo])
  · rename_i next' hread
    injection h with he hnext
    subst he hnext
    rw [hread, hothers] at htext
    have hreads := reads_cons htext
    rw [List.tail_cons, ← hothers] at hreads
    exact ⟨rfl, _, hreads, fun _ hspelled => absurd hspelled (by simp)⟩

theorem refuses_of_scanNumber (h : c.scanNumber = .failed e next) : c.Refuses e next := by
  have hreads := reads_after (Numeral.text_read_prefix c.rest)
  dsimp only [scanNumber] at h
  split_ifs at h
  · injection h with he hnext
    subst he hnext
    refine ⟨rfl, _, hreads, fun spelled hspelled => ?_⟩
    exact (LexicalError.Cause.invalidNumber.inj hspelled).symm
  · injection h with he hnext
    subst he hnext
    have hall := hreads.trans (reads_after (List.takeWhile_prefix isWordPart))
    refine ⟨rfl, _, hall, fun spelled hspelled => ?_⟩
    exact (LexicalError.Cause.invalidNumber.inj hspelled).symm
  · exact absurd h (by simp [tokenUpTo])

theorem refuses_of_scan (h : c.scan d = .failed e next) : c.Refuses e next := by
  unfold scan at h
  split at h
  · exact absurd h (by simp)
  · rename_i first others hrest
    split at h
    · exact absurd h (by simp [tokenUpTo])
    · split_ifs at h with hquote hnumber hword
      · exact refuses_of_scanString (by rw [hrest, hquote]; rfl) h
      · exact refuses_of_scanNumber h
      · exact absurd h (by simp [scanWord, tokenUpTo])
      · -- An unexpected character stays where it is.
        injection h with he hnext
        subst he hnext
        exact ⟨rfl, [], reads_refl _, fun _ hspelled => absurd hspelled (by simp)⟩

/-- Where there is no next token, the error is at a place after blanks and comments. -/
theorem exists_refuses_of_nextToken (h : c.nextToken d = .failed e next) :
    ∃ gap start, c.Reads gap start ∧ start.Refuses e next := by
  unfold nextToken at h
  split at h
  · rename_i start hskip
    obtain ⟨gap, hgap⟩ := exists_reads_of_skip hskip
    exact ⟨gap, start, hgap, refuses_of_scan h⟩
  · rename_i e' finish hskip
    injection h with he hnext
    subst he hnext
    obtain ⟨hcause, rfl, ⟨⟨⟩, -⟩ | ⟨gap, start, hgap, -, -, hposition⟩⟩ :=
      Trivia.opensComment_of_skip hskip
    refine ⟨gap, start, hgap, hposition.symm, start.rest, ⟨(List.append_nil _).symm, ?_⟩, ?_⟩
    · rw [hgap.rest, Position.advanceBy_append, ← hgap.position]
    · intro spelled hspelled
      rw [hcause] at hspelled
      exact absurd hspelled (by simp)

/-! ## Runs -/

/-- The token `t` is the next one after `c`: behind the gap it stands from `start` up to `next`, and
`text` is its text. -/
structure Meets (d : Dialect) (c : Cursor) (gap : List Char) (start : Cursor) (text : List Char)
    (t : Token) (next : Cursor) : Prop where
  skips : c.skipTrivia = .ok start
  gap : c.Reads gap start
  text : start.Reads text next
  scan : start.scan d = .token t next

theorem exists_meets_of_nextToken (h : c.nextToken d = .token t next) :
    ∃ gap start text, c.Meets d gap start text t next := by
  obtain ⟨start, hskip, hscan⟩ := nextToken_eq_token.mp h
  obtain ⟨gap, hgap⟩ := exists_reads_of_skip hskip
  obtain ⟨text, htext⟩ := (scans_of_scan hscan).1.exists_reads
  exact ⟨gap, start, text, hskip, hgap, htext, hscan⟩

namespace Meets

variable {gap text : List Char} {start : Cursor}

theorem reads (h : c.Meets d gap start text t next) : c.Reads (gap ++ text) next :=
  h.gap.trans h.text

theorem scans (h : c.Meets d gap start text t next) : start.Scans d t.kind next :=
  (scans_of_scan h.scan).1

theorem start_eq (h : c.Meets d gap start text t next) : t.start = start.position :=
  (scans_of_scan h.scan).2.1

theorem finish_eq (h : c.Meets d gap start text t next) : t.finish = next.position :=
  (scans_of_scan h.scan).2.2

end Meets

/-- From `c` the cursor passes the tokens `ts`, one after the other, and is at `next` then. -/
inductive Passes (d : Dialect) : Cursor → List Token → Cursor → Prop
  | refl (c : Cursor) : Passes d c [] c
  | cons {c mid next : Cursor} {t : Token} {ts : List Token} (first : c.nextToken d = .token t mid)
      (others : Passes d mid ts next) : Passes d c (t :: ts) next

theorem Meets.passes {gap text : List Char} {start : Cursor}
    (h : c.Meets d gap start text t next) : start.Passes d [t] next :=
  .cons (nextToken_of_scan h.scan) (.refl next)

/-- A run passes tokens until the text ends or something in it is no token. -/
theorem tokensAfter_cases (d : Dialect) (seen : List Token) (c : Cursor) :
    ∃ ts last, c.Passes d ts last ∧
      ((∃ finish, last.nextToken d = .ended finish ∧
        c.tokensAfter d seen = (.ok ⟨seen.reverse ++ ts, finish.position⟩, finish)) ∨
      ∃ e next, last.nextToken d = .failed e next ∧ c.tokensAfter d seen = (.error e, next)) := by
  fun_induction tokensAfter d seen c with
  | case1 seen c t mid hmid ih =>
    obtain ⟨ts, last, hpasses, hlast⟩ := ih
    refine ⟨t :: ts, last, .cons hmid hpasses, ?_⟩
    simpa using hlast
  | case2 seen c finish hended =>
    refine ⟨[], c, .refl c, .inl ⟨finish, hended, ?_⟩⟩
    rw [List.append_nil]
  | case3 seen c e next hfailed => exact ⟨[], c, .refl c, .inr ⟨e, next, hfailed, rfl⟩⟩

/-- A text is tokenized by passing its tokens from its start up to its end. -/
theorem passes_of_tokenize {source : String} {tokens : Tokens}
    (h : tokenize d source = .ok tokens) :
    ∃ last finish, (ofString source).Passes d tokens.list last ∧
      last.nextToken d = .ended finish ∧ tokens.finish = finish.position := by
  obtain ⟨ts, last, hpasses, hlast⟩ := tokensAfter_cases d [] (ofString source)
  unfold tokenize Cursor.tokens at h
  rcases hlast with ⟨finish, hended, hrun⟩ | ⟨e, next, -, hrun⟩
  · rw [hrun] at h
    obtain rfl := Except.ok.inj h
    exact ⟨last, finish, hpasses, hended, rfl⟩
  · rw [hrun] at h
    exact absurd h (by simp)

theorem Passes.exists_reads (h : c.Passes d ts next) : ∃ text, c.Reads text next := by
  induction h with
  | refl c => exact ⟨[], reads_refl c⟩
  | cons first _ ih =>
    obtain ⟨gap, start, own, hmeets⟩ := exists_meets_of_nextToken first
    obtain ⟨text, htext⟩ := ih
    exact ⟨_, hmeets.reads.trans htext⟩

/-- The last token that is passed ends where the cursor is then. -/
theorem Passes.finish_eq (h : c.Passes d ts next) (hlast : ts.getLast? = some t) :
    t.finish = next.position := by
  induction h with
  | refl => exact absurd hlast (by simp)
  | @cons c mid next u ts first others ih =>
    cases others with
    | refl =>
      obtain ⟨gap, start, text, hmeets⟩ := exists_meets_of_nextToken first
      rw [← Option.some.inj hlast]
      exact hmeets.finish_eq
    | cons first' others' =>
      rw [List.getLast?_cons_cons] at hlast
      exact ih hlast

/-- Tokens are passed from the place where the first of them starts, as well as from the gap in front
of it. -/
theorem Passes.exists_start (h : c.Passes d (t :: ts) next) : ∃ gap start text, c.Reads gap start ∧
    start.Reads text next ∧ start.Passes d (t :: ts) next ∧ t.start = start.position ∧
    ∀ m, t.kind = .mark m → text.head? = some m.char := by
  rcases h with _ | ⟨first, others⟩
  obtain ⟨gap, start, own, hmeets⟩ := exists_meets_of_nextToken first
  obtain ⟨after, hafter⟩ := others.exists_reads
  refine ⟨gap, start, own ++ after, hmeets.gap, hmeets.text.trans hafter,
    .cons (nextToken_of_scan hmeets.scan) others, hmeets.start_eq, fun m hm => ?_⟩
  have hhead := hmeets.scans.head?_of_mark hm
  obtain ⟨a, cs, hown⟩ := List.exists_cons_of_ne_nil (hmeets.scans.text_ne_nil hmeets.text)
  rw [hmeets.text.rest, hown] at hhead
  rw [hown]
  exact hhead

/-- What is passed in two parts. -/
theorem passes_append :
    c.Passes d (ts ++ us) next ↔ ∃ mid, c.Passes d ts mid ∧ mid.Passes d us next := by
  induction ts generalizing c with
  | nil =>
    constructor
    · exact fun h => ⟨c, .refl c, h⟩
    · rintro ⟨mid, ⟨⟩, h⟩
      exact h
  | cons t ts ih =>
    constructor
    · rintro (_ | ⟨first, others⟩)
      obtain ⟨mid, hts, hus⟩ := ih.mp others
      exact ⟨mid, .cons first hts, hus⟩
    · rintro ⟨mid, _ | ⟨first, others⟩, hus⟩
      exact .cons first (ih.mpr ⟨mid, others, hus⟩)

end Cursor

/-! ## Tokens in order -/

/-- The tokens have characters, and each ends before the next one starts. -/
structure InOrder (ts : List Token) : Prop where
  size : ∀ t ∈ ts, t.start.offset < t.finish.offset
  apart : ts.Pairwise (·.finish.offset ≤ ·.start.offset)

theorem InOrder.of_part {own ts : List Token} (h : InOrder ts) (hown : own <:+: ts) :
    InOrder own :=
  ⟨fun t ht => h.size t (hown.subset ht), h.apart.sublist hown.sublist⟩

/-- The first of tokens in order starts first. -/
theorem InOrder.start_le {ts : List Token} (h : InOrder ts) {first t : Token}
    (hfirst : ts.head? = some first) (ht : t ∈ ts) : first.start.offset ≤ t.start.offset := by
  obtain ⟨others, rfl⟩ := List.head?_eq_some_iff.mp hfirst
  rcases List.mem_cons.mp ht with rfl | ht
  · exact Nat.le_refl _
  · have hsize := h.size first List.mem_cons_self
    have hapart := (List.pairwise_cons.mp h.apart).1 t ht
    omega

/-- The last of tokens in order ends last. -/
theorem InOrder.le_finish {ts : List Token} (h : InOrder ts) {last t : Token}
    (hlast : ts.getLast? = some last) (ht : t ∈ ts) : t.finish.offset ≤ last.finish.offset := by
  obtain ⟨others, rfl⟩ := List.getLast?_eq_some_iff.mp hlast
  rcases List.mem_append.mp ht with ht | ht
  · have hsize := h.size last (List.mem_append_right _ List.mem_cons_self)
    have hapart := (List.pairwise_append.mp h.apart).2.2 t ht last List.mem_cons_self
    omega
  · obtain rfl := List.mem_singleton.mp ht
    exact Nat.le_refl _

/-- A token has characters. -/
theorem Cursor.Meets.start_lt_finish {d : Dialect} {c start next : Cursor} {gap text : List Char}
    {t : Token} (h : c.Meets d gap start text t next) : t.start.offset < t.finish.offset := by
  obtain ⟨first, others, rfl⟩ := List.exists_cons_of_ne_nil (h.scans.text_ne_nil h.text)
  have hsize := first.utf8Size_pos
  rw [h.start_eq, h.finish_eq, h.text.position, Position.offset_advanceBy, String.utf8Len_cons]
  omega

/-- Tokens that are passed are in order, and none starts before the place of the cursor. -/
theorem Cursor.Passes.inOrder {d : Dialect} {c next : Cursor} {ts : List Token}
    (h : c.Passes d ts next) : InOrder ts ∧ ∀ t ∈ ts, c.position.offset ≤ t.start.offset := by
  induction h with
  | refl => exact ⟨⟨List.forall_mem_nil _, .nil⟩, List.forall_mem_nil _⟩
  | @cons c mid next t ts first _ ih =>
    obtain ⟨gap, start, text, hmeets⟩ := exists_meets_of_nextToken first
    have hstart : c.position.offset ≤ t.start.offset := by
      rw [hmeets.start_eq]
      exact hmeets.gap.offset_le
    have hsize := hmeets.start_lt_finish
    have hothers : ∀ u ∈ ts, t.finish.offset ≤ u.start.offset := by
      rw [hmeets.finish_eq]
      exact ih.2
    refine ⟨⟨List.forall_mem_cons.mpr ⟨hsize, ih.1.size⟩,
      List.pairwise_cons.mpr ⟨hothers, ih.1.apart⟩⟩, List.forall_mem_cons.mpr ⟨hstart, ?_⟩⟩
    intro u hu
    have hu := hothers u hu
    omega

theorem inOrder_of_tokenize {d : Dialect} {source : String} {tokens : Tokens}
    (h : tokenize d source = .ok tokens) : InOrder tokens.list := by
  obtain ⟨last, finish, hpasses, -⟩ := Cursor.passes_of_tokenize h
  exact hpasses.inOrder.1

/-- No token of a text starts after the place where the text ends. -/
theorem offset_le_of_tokenize {d : Dialect} {source : String} {tokens : Tokens}
    (h : tokenize d source = .ok tokens) :
    ∀ t ∈ tokens.list, t.start.offset ≤ tokens.finish.offset := by
  obtain ⟨last, finish, hpasses, hended, hfinish⟩ := Cursor.passes_of_tokenize h
  obtain ⟨gap, hgap⟩ := Cursor.exists_reads_of_skip (Cursor.nextToken_eq_ended.mp hended).1
  intro t ht
  obtain ⟨end', hend⟩ := Option.isSome_iff_exists.mp
    (List.getLast?_isSome.mpr (List.ne_nil_of_mem ht))
  have hsize := hpasses.inOrder.1.size t ht
  have hle := hpasses.inOrder.1.le_finish hend ht
  rw [hpasses.finish_eq hend] at hle
  rw [hfinish]
  exact Nat.le_trans (Nat.le_trans (Nat.le_of_lt hsize) hle) hgap.offset_le

end ObjectTransfer
