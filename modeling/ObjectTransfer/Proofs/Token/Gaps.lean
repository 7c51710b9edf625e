import ObjectTransfer.Proofs.Token.Moving
import ObjectTransfer.Proofs.Token.Spelling

/-!
# What stands between tokens

Between tokens there are only blanks and comments (`IsTrivia`). That is what the lexer passes over
(`isTrivia_of_skipTrivia`), and it passes over all of it (`IsTrivia.skipTrivia_append`).
-/

namespace ObjectTransfer

/-- `gap` consists of blanks and of comments that end, and `rest` is what follows it in the text. A
comment in slashes runs to the end of its line, which may be the end of the text; a comment in stars
runs to the first closing mark in it. -/
inductive IsTrivia : List Char → List Char → Prop
  | nil (rest : List Char) : IsTrivia [] rest
  | blank {c : Char} {gap rest : List Char} (isBlank : isBlank c) (others : IsTrivia gap rest) :
      IsTrivia (c :: gap) rest
  | line {body gap rest : List Char} (noFeed : '\n' ∉ body) (others : IsTrivia gap rest) :
      IsTrivia ('/' :: '/' :: (body ++ '\n' :: gap)) rest
  | lastLine {body : List Char} (noFeed : '\n' ∉ body) : IsTrivia ('/' :: '/' :: body) []
  | block {body gap rest : List Char} (notClosed : ¬ ['*', '/'] <:+: body)
      (others : IsTrivia gap rest) : IsTrivia ('/' :: '*' :: (body ++ '*' :: '/' :: gap)) rest

/-- In front of something else, every comment has its own end, and what follows does not matter. -/
theorem IsTrivia.reframe {gap rest : List Char} (h : IsTrivia gap rest) (hrest : rest ≠ [])
    (rest' : List Char) : IsTrivia gap rest' := by
  induction h with
  | nil => exact .nil rest'
  | blank hblank _ ih => exact .blank hblank (ih hrest)
  | line noFeed _ ih => exact .line noFeed (ih hrest)
  | lastLine => exact absurd rfl hrest
  | block notClosed _ ih => exact .block notClosed (ih hrest)

/-! ## What is passed over -/

/-- `gap` takes the scan from the given state to the end of the trivia in front of `rest`. -/
def Trivia.Passes : Trivia → List Char → List Char → Prop
  | .blanks, gap, rest => IsTrivia gap rest
  | .lineComment, gap, rest =>
    (∃ body gap', gap = body ++ '\n' :: gap' ∧ '\n' ∉ body ∧ IsTrivia gap' rest) ∨
      '\n' ∉ gap ∧ rest = []
  | .blockComment _, gap, rest =>
    ∃ body gap', gap = body ++ '*' :: '/' :: gap' ∧ ¬ ['*', '/'] <:+: body ∧ IsTrivia gap' rest

theorem Trivia.Passes.isTrivia_line {gap rest : List Char} (h : lineComment.Passes gap rest) :
    IsTrivia ('/' :: '/' :: gap) rest := by
  rcases h with ⟨body, gap', rfl, hbody, hgap⟩ | ⟨hgap, rfl⟩
  · exact .line hbody hgap
  · exact .lastLine hgap

theorem Trivia.Passes.isTrivia_block {opened : Position} {gap rest : List Char}
    (h : (blockComment opened).Passes gap rest) : IsTrivia ('/' :: '*' :: gap) rest := by
  obtain ⟨body, gap', rfl, hbody, hgap⟩ := h
  exact .block hbody hgap

theorem Trivia.Passes.line_cons {a : Char} {gap rest : List Char} (ha : a ≠ '\n')
    (h : lineComment.Passes gap rest) : lineComment.Passes (a :: gap) rest := by
  rcases h with ⟨body, gap', rfl, hbody, hgap⟩ | ⟨hgap, rfl⟩
  · exact .inl ⟨a :: body, gap', rfl, List.not_mem_cons_of_ne_of_not_mem ha.symm hbody, hgap⟩
  · exact .inr ⟨List.not_mem_cons_of_ne_of_not_mem ha.symm hgap, rfl⟩

/-- No closing mark comes from a character in front, unless that is a star and a slash follows. -/
theorem not_closed_cons {a : Char} {cs : List Char} (hclose : a = '*' → cs.head? ≠ some '/')
    (h : ¬ ['*', '/'] <:+: cs) : ¬ ['*', '/'] <:+: a :: cs := by
  intro hpart
  rcases List.infix_cons_iff.mp hpart with hprefix | hpart
  · obtain ⟨rfl, others, rfl⟩ := List.cons_prefix_cons.mp hprefix
    exact hclose rfl rfl
  · exact h hpart

theorem Trivia.Passes.block_cons {opened : Position} {a : Char} {gap rest : List Char}
    (hclose : a = '*' → gap.head? ≠ some '/') (h : (blockComment opened).Passes gap rest) :
    (blockComment opened).Passes (a :: gap) rest := by
  obtain ⟨body, gap', rfl, hbody, hgap⟩ := h
  refine ⟨a :: body, gap', rfl, not_closed_cons (fun ha hhead => hclose ha ?_) hbody, hgap⟩
  obtain ⟨others, rfl⟩ := List.head?_eq_some_iff.mp hhead
  rfl

/-- The lexer passes over blanks and comments only. -/
theorem Trivia.exists_passes_of_skip {t : Trivia} {cs : List Char} {p : Position} {next : Cursor}
    (h : t.skip cs p = .ok next) :
    ∃ gap, Cursor.Reads ⟨cs, p⟩ gap next ∧ t.Passes gap next.rest := by
  fun_induction Trivia.skip t cs p with
  | case1 cs p ih =>
    obtain ⟨gap, hgap, hpasses⟩ := ih h
    exact ⟨_, Cursor.reads_cons (Cursor.reads_cons hgap), hpasses.isTrivia_line⟩
  | case2 cs p ih =>
    obtain ⟨gap, hgap, hpasses⟩ := ih h
    exact ⟨_, Cursor.reads_cons (Cursor.reads_cons hgap), hpasses.isTrivia_block⟩
  | case3 a cs p _ _ hblank ih =>
    obtain ⟨gap, hgap, hpasses⟩ := ih h
    exact ⟨_, Cursor.reads_cons hgap, .blank hblank hpasses⟩
  | case4 a cs p =>
    obtain rfl := Except.ok.inj h
    exact ⟨[], Cursor.reads_refl _, .nil _⟩
  | case5 cs p ih =>
    obtain ⟨gap, hgap, hpasses⟩ := ih h
    exact ⟨_, Cursor.reads_cons hgap, .inl ⟨[], gap, rfl, List.not_mem_nil, hpasses⟩⟩
  | case6 a cs p hfeed ih =>
    obtain ⟨gap, hgap, hpasses⟩ := ih h
    exact ⟨_, Cursor.reads_cons hgap, hpasses.line_cons hfeed⟩
  | case7 opened cs p ih =>
    obtain ⟨gap, hgap, hpasses⟩ := ih h
    exact ⟨_, Cursor.reads_cons (Cursor.reads_cons hgap), [], gap, rfl, by simp, hpasses⟩
  | case8 opened a cs p hclose ih =>
    obtain ⟨gap, hgap, hpasses⟩ := ih h
    refine ⟨_, Cursor.reads_cons hgap, hpasses.block_cons fun ha hhead => ?_⟩
    obtain ⟨others, rfl⟩ := List.head?_eq_some_iff.mp hhead
    exact hclose _ ha hgap.rest
  | case9 => exact absurd h (by simp)
  | case10 t p hblock =>
    obtain rfl := Except.ok.inj h
    refine ⟨[], Cursor.reads_refl _, ?_⟩
    cases t with
    | blanks => exact .nil _
    | lineComment => exact .inr ⟨List.not_mem_nil, rfl⟩
    | blockComment opened => exact absurd rfl (hblock opened)

theorem Cursor.isTrivia_of_skipTrivia {c next : Cursor} {gap : List Char}
    (h : c.skipTrivia = .ok next) (hgap : c.Reads gap next) : IsTrivia gap next.rest := by
  obtain ⟨gap', hgap', htrivia⟩ := Trivia.exists_passes_of_skip h
  rwa [hgap.text_unique hgap']

/-- A comment opens at the cursor and is not closed in the text. -/
def Cursor.OpensComment (c : Cursor) : Prop :=
  ∃ body, c.rest = '/' :: '*' :: body ∧ ¬ ['*', '/'] <:+: body

/-- What the lexer cannot pass over is a comment that is not closed: the one that it is in, or one
that opens behind blanks and comments. All of the text is read then. -/
theorem Trivia.opensComment_of_skip {t : Trivia} {cs : List Char} {p : Position} {e : LexicalError}
    {next : Cursor} (h : t.skip cs p = .error (e, next)) :
    e.cause = .unterminatedComment ∧ next = ⟨[], p.advanceBy cs⟩ ∧
      (t = .blockComment e.position ∧ ¬ ['*', '/'] <:+: cs ∨
        ∃ gap start, Cursor.Reads ⟨cs, p⟩ gap start ∧ t.Passes gap start.rest ∧
          start.OpensComment ∧ start.position = e.position) := by
  fun_induction Trivia.skip t cs p with
  | case1 cs p ih =>
    obtain ⟨hcause, hnext, ⟨⟨⟩, -⟩ | ⟨gap, start, hgap, hpasses, hopens⟩⟩ := ih h
    exact ⟨hcause, hnext, .inr ⟨_, start, Cursor.reads_cons (Cursor.reads_cons hgap),
      hpasses.isTrivia_line, hopens⟩⟩
  | case2 cs p ih =>
    obtain ⟨hcause, hnext, ⟨hopened, hclose⟩ | ⟨gap, start, hgap, hpasses, hopens⟩⟩ := ih h
    · -- The comment that is not closed is the one that opens here.
      injection hopened with hposition
      exact ⟨hcause, hnext, .inr ⟨[], _, Cursor.reads_refl _, .nil _, ⟨cs, rfl, hclose⟩, hposition⟩⟩
    · exact ⟨hcause, hnext, .inr ⟨_, start, Cursor.reads_cons (Cursor.reads_cons hgap),
        hpasses.isTrivia_block, hopens⟩⟩
  | case3 a cs p _ _ hblank ih =>
    obtain ⟨hcause, hnext, ⟨⟨⟩, -⟩ | ⟨gap, start, hgap, hpasses, hopens⟩⟩ := ih h
    exact ⟨hcause, hnext, .inr ⟨_, start, Cursor.reads_cons hgap, .blank hblank hpasses, hopens⟩⟩
  | case5 cs p ih =>
    obtain ⟨hcause, hnext, ⟨⟨⟩, -⟩ | ⟨gap, start, hgap, hpasses, hopens⟩⟩ := ih h
    exact ⟨hcause, hnext, .inr ⟨_, start, Cursor.reads_cons hgap,
      .inl ⟨[], gap, rfl, List.not_mem_nil, hpasses⟩, hopens⟩⟩
  | case6 a cs p hfeed ih =>
    obtain ⟨hcause, hnext, ⟨⟨⟩, -⟩ | ⟨gap, start, hgap, hpasses, hopens⟩⟩ := ih h
    exact ⟨hcause, hnext, .inr ⟨_, start, Cursor.reads_cons hgap, hpasses.line_cons hfeed, hopens⟩⟩
  | case7 opened cs p ih =>
    obtain ⟨hcause, hnext, ⟨⟨⟩, -⟩ | ⟨gap, start, hgap, hpasses, hopens⟩⟩ := ih h
    exact ⟨hcause, hnext, .inr ⟨_, start, Cursor.reads_cons (Cursor.reads_cons hgap),
      ⟨[], gap, rfl, by simp, hpasses⟩, hopens⟩⟩
  | case8 opened a cs p hclose ih =>
    obtain ⟨hcause, hnext, ⟨hopened, hbody⟩ | ⟨gap, start, hgap, hpasses, hopens⟩⟩ := ih h
    · refine ⟨hcause, hnext, .inl ⟨hopened, not_closed_cons (fun ha hhead => ?_) hbody⟩⟩
      obtain ⟨others, rfl⟩ := List.head?_eq_some_iff.mp hhead
      exact hclose _ ha rfl
    · refine ⟨hcause, hnext, .inr ⟨_, start, Cursor.reads_cons hgap,
        hpasses.block_cons fun ha hhead => ?_, hopens⟩⟩
      obtain ⟨others, rfl⟩ := List.head?_eq_some_iff.mp hhead
      exact hclose _ ha hgap.rest
  | case9 opened p =>
    obtain ⟨rfl, rfl⟩ := Prod.mk.inj (Except.error.inj h)
    exact ⟨rfl, rfl, .inl ⟨rfl, by simp⟩⟩
  | case4 | case10 => exact absurd h (by simp)

/-! ## All of it is passed over -/

theorem Trivia.skip_line_append {body : List Char} (hbody : '\n' ∉ body) (rest : List Char)
    (p : Position) : lineComment.skip (body ++ rest) p = lineComment.skip rest (p.advanceBy body) := by
  induction body generalizing p with
  | nil => rfl
  | cons a body ih =>
    replace hbody := List.ne_and_not_mem_of_not_mem_cons hbody
    rw [List.cons_append, Trivia.skip, ih hbody.2, Position.advanceBy_cons]
    exact fun ha => hbody.1 ha.symm

theorem Trivia.skip_block_append {body : List Char} (hbody : ¬ ['*', '/'] <:+: body)
    (opened : Position) (rest : List Char) (p : Position) :
    (blockComment opened).skip (body ++ '*' :: '/' :: rest) p =
      blanks.skip rest (p.advanceBy (body ++ ['*', '/'])) := by
  induction body generalizing p with
  | nil => rfl
  | cons a body ih =>
    have hothers : ¬ ['*', '/'] <:+: body := fun h => hbody (List.infix_cons_iff.mpr (.inr h))
    rw [List.cons_append, Trivia.skip, ih hothers, List.cons_append, Position.advanceBy_cons]
    -- The star of a closing mark is not the last character of the body.
    intro others ha hrest
    subst ha
    cases body with
    | nil => exact absurd (List.cons.inj hrest).1 (by decide)
    | cons b body =>
      obtain rfl := (List.cons.inj hrest).1
      exact hbody ⟨[], body, rfl⟩

/-- A comment that is not closed takes the whole text with it. -/
theorem Trivia.skip_block_of_not_closed {cs : List Char} (h : ¬ ['*', '/'] <:+: cs)
    (opened p : Position) : (blockComment opened).skip cs p =
      .error (⟨.unterminatedComment, opened⟩, ⟨[], p.advanceBy cs⟩) := by
  induction cs generalizing p with
  | nil => rfl
  | cons a cs ih =>
    have hothers : ¬ ['*', '/'] <:+: cs := fun hpart => h (List.infix_cons_iff.mpr (.inr hpart))
    rw [Trivia.skip, ih hothers, Position.advanceBy_cons]
    intro others ha hcs
    subst ha hcs
    exact h ⟨[], others, rfl⟩

/-- Blanks and comments are passed over, up to what follows them. -/
theorem IsTrivia.skip_append {gap rest : List Char} (h : IsTrivia gap rest) (p : Position) :
    Trivia.blanks.skip (gap ++ rest) p = Trivia.blanks.skip rest (p.advanceBy gap) := by
  induction h generalizing p with
  | nil => rfl
  | blank hblank _ ih =>
    have hskip := Cursor.skipTrivia_blank hblank
    unfold Cursor.skipTrivia at hskip
    rw [List.cons_append, hskip, ih, Position.advanceBy_cons]
  | @line body gap rest noFeed _ ih =>
    rw [List.cons_append, List.cons_append, List.append_assoc, Trivia.skip,
      Trivia.skip_line_append noFeed, List.cons_append, Trivia.skip, ih]
    simp [Position.advanceBy_append]
  | @lastLine body noFeed =>
    rw [List.append_nil, Trivia.skip]
    have hskip := Trivia.skip_line_append noFeed [] ((p.advance '/').advance '/')
    rw [List.append_nil] at hskip
    rw [hskip]
    rfl
  | @block body gap rest notClosed _ ih =>
    rw [List.cons_append, List.cons_append, List.append_assoc, Trivia.skip, List.cons_append,
      List.cons_append, Trivia.skip_block_append notClosed, ih]
    simp [Position.advanceBy_append]

theorem IsTrivia.skipTrivia_append {gap rest : List Char} (h : IsTrivia gap rest) (p : Position) :
    Cursor.skipTrivia ⟨gap ++ rest, p⟩ = Cursor.skipTrivia ⟨rest, p.advanceBy gap⟩ :=
  h.skip_append p

end ObjectTransfer
