import ObjectTransfer.Proofs.Token.Joining

/-!
# Tokens with separators between them

Any tokens that a text can have are the tokens of the text that spells them one after the other with
something between any two of them (`tokenize_spacedText`). What stands between two tokens is a list of
separators: blanks, comments that end with their line, and comments that end with their closing mark,
whatever else is written in the comments.
-/

namespace ObjectTransfer

open Cursor

/-! ## Separators -/

/-- What can stand between two tokens. -/
inductive Separator where
  /-- A blank. -/
  | blank (c : Char) (blank : isBlank c)
  /-- A comment to the end of its line, with the line feed. -/
  | line (body : List Char) (noFeed : '\n' ∉ body)
  /-- A comment up to its closing mark. -/
  | block (body : List Char) (notClosed : ¬ ['*', '/'] <:+: body)

/-- The characters of a separator. -/
def Separator.text : Separator → List Char
  | .blank c _ => [c]
  | .line body _ => '/' :: '/' :: (body ++ ['\n'])
  | .block body _ => '/' :: '*' :: (body ++ ['*', '/'])

/-- The characters of separators. -/
def gapText (gap : List Separator) : List Char := gap.flatMap Separator.text

/-- A separator ends the token in front of it. -/
theorem Separator.apart_text_append (s : Separator) (rest : List Char) :
    Apart (s.text ++ rest) := by
  cases s with
  | blank c hblank => exact apart_blank hblank rest
  | line => exact apart_cons (by decide) (by decide) _
  | block => exact apart_cons (by decide) (by decide) _

/-- Each separator has its own end, so separators may stand in front of anything. -/
theorem isTrivia_gapText (gap : List Separator) (rest : List Char) :
    IsTrivia (gapText gap) rest := by
  induction gap with
  | nil => exact .nil rest
  | cons s gap ih =>
    show IsTrivia (s.text ++ gapText gap) rest
    cases s with
    | blank c hblank => exact .blank hblank ih
    | line body noFeed =>
      have hline := IsTrivia.line noFeed ih
      rwa [List.append_cons] at hline
    | block body notClosed =>
      have hblock := IsTrivia.block notClosed ih
      rwa [List.append_cons, List.append_cons, List.append_assoc body] at hblock

/-! ## Texts -/

/-- A token and the separators behind it. -/
structure SpacedToken where
  kind : Token.Kind
  gap : List Separator

/-- The characters of a token and of the separators behind it. -/
def SpacedToken.text (t : SpacedToken) : List Char := t.kind.text.toList ++ gapText t.gap

/-- Tokens with separators before, between and behind them. Only in front of the first token and
behind the last one there may be none. -/
structure SpacedText where
  lead : List Separator
  tokens : List SpacedToken
  spaced : ∀ t ∈ tokens.dropLast, t.gap ≠ []

namespace SpacedText

/-- The characters of the text. -/
def text (s : SpacedText) : List Char := gapText s.lead ++ s.tokens.flatMap SpacedToken.text

/-- The tokens that the text spells. -/
def kinds (s : SpacedText) : List Token.Kind := s.tokens.map (·.kind)

end SpacedText

/-! ## Reading them back -/

variable {d : Dialect}

/-- A token with separators behind it ends anywhere, a token without any where nothing prolongs it. -/
theorem SpacedToken.readsAs_text (t : SpacedToken) (h : t.kind.IsLexical d) :
    ReadsAs d (fun rest => t.gap = [] → Apart rest) t.text [t.kind] := by
  have hgap : ReadsAs d (fun rest => t.gap = [] → Apart rest) (gapText t.gap) [] :=
    readsAs_trivia fun rest _ => isTrivia_gapText t.gap rest
  have hall := (ObjectTransfer.readsAs_text t.kind h).append hgap fun rest hrest => ?_
  · rwa [List.append_nil] at hall
  · apply t.kind.endsBefore
    cases hseparators : t.gap with
    | nil => exact hrest hseparators
    | cons s gap =>
      show Apart (s.text ++ gapText gap ++ rest)
      rw [List.append_assoc]
      exact s.apart_text_append _

theorem readsAs_spacedTokens {ts : List SpacedToken} (h : ∀ t ∈ ts, t.kind.IsLexical d)
    (hspaced : ∀ t ∈ ts.dropLast, t.gap ≠ []) :
    ReadsAs d Apart (ts.flatMap SpacedToken.text) (ts.map (·.kind)) := by
  induction ts with
  | nil => exact readsAs_trivia fun rest _ => .nil rest
  | cons t ts ih =>
    have hothers := ih (fun u hu => h u (List.mem_cons_of_mem t hu)) ?_
    · apply (t.readsAs_text (h t List.mem_cons_self)).append hothers
      intro rest hrest hgap
      -- Only behind the last token there may be no separator.
      cases ts with
      | nil => exact hrest
      | cons u us => exact absurd hgap (hspaced t List.mem_cons_self)
    · intro u hu
      cases ts with
      | nil => exact absurd hu List.not_mem_nil
      | cons v us => exact hspaced u (List.mem_cons_of_mem t hu)

/-- A text is read up to its last character. -/
theorem finish_eq_of_tokenize {source : String} {tokens : Tokens}
    (h : tokenize d source = .ok tokens) :
    tokens.finish = Position.start.advanceBy source.toList := by
  obtain ⟨last, finish, hpasses, hended, hfinish⟩ := passes_of_tokenize h
  obtain ⟨hskip, hrest⟩ := nextToken_eq_ended.mp hended
  obtain ⟨text, htext⟩ := hpasses.exists_reads
  obtain ⟨gap, hgap⟩ := exists_reads_of_skip hskip
  have hall := htext.trans hgap
  have hsource : source.toList = text ++ gap ++ finish.rest := hall.rest
  rw [hrest, List.append_nil] at hsource
  rw [hfinish, hall.position, hsource]
  rfl

/-- The tokens of a spaced text are the ones it spells, in their order, and then the text ends. -/
theorem tokenize_spacedText (d : Dialect) (s : SpacedText) (h : Lexical d s.kinds) :
    ∃ tokens, tokenize d (String.ofList s.text) = .ok tokens ∧
      tokens.list.map (·.kind) = s.kinds ∧ tokens.finish = Position.start.advanceBy s.text := by
  have hlead : ReadsAs d (fun _ => True) (gapText s.lead) [] :=
    readsAs_trivia fun rest _ => isTrivia_gapText s.lead rest
  have htokens := readsAs_spacedTokens (List.forall_mem_map.mp h) s.spaced
  have hall := hlead.append htokens fun _ _ => trivial
  obtain ⟨tokens, hread, hkinds⟩ := hall.exists_tokenize apart_nil
  have hfinish := finish_eq_of_tokenize hread
  rw [String.toList_ofList] at hfinish
  exact ⟨tokens, hread, hkinds, hfinish⟩

/-- A negative number in front of a comment that starts with a star, a string that ends in a
backslash, a comment with quotes, a reserved word, and a mark at the end. -/
def commentedText : SpacedText where
  lead := [.line "*/".toList (by decide)]
  tokens :=
    [⟨.literal (.number (Numeral.read "-0.5".toList).value), [.block "*'\"".toList (by decide)]⟩,
      ⟨.literal (.string "a\\"), [.line " \"/*".toList (by decide), .blank '\t' (by decide)]⟩,
      ⟨.keyword .modelWord, [.block "/".toList (by decide)]⟩, ⟨.mark .dot, []⟩]
  spaced := by decide

theorem tokenize_commentedText :
    ∃ tokens, tokenize .schema "//*/\n-0.5/**'\"*/\"a\\\\\"// \"/*\n\tModel/*/*/." = .ok tokens ∧
      tokens.list.map (·.kind) = commentedText.kinds ∧ tokens.finish = ⟨40, 3, 13⟩ := by
  have hfinite : (Numeral.read "-0.5".toList).value.isFinite := by decide +kernel
  have hreserved : Keyword.modelWord ∈ Dialect.schema.keywords := by decide
  have hlexical : Lexical .schema commentedText.kinds :=
    List.forall_mem_cons.mpr ⟨hfinite, List.forall_mem_cons.mpr ⟨trivial,
      List.forall_mem_cons.mpr ⟨hreserved, List.forall_mem_singleton.mpr trivial⟩⟩⟩
  obtain ⟨tokens, hread, hkinds, hfinish⟩ := tokenize_spacedText .schema commentedText hlexical
  have htext : String.ofList commentedText.text =
      "//*/\n-0.5/**'\"*/\"a\\\\\"// \"/*\n\tModel/*/*/." := by decide +kernel
  rw [htext] at hread
  refine ⟨tokens, hread, hkinds, ?_⟩
  rw [hfinish]
  decide +kernel

end ObjectTransfer
