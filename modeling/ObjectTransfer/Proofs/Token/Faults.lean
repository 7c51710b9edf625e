import ObjectTransfer.Proofs.Token.Joining
import ObjectTransfer.Proofs.Token.Numerals
import ObjectTransfer.Proofs.Token.Resuming

/-!
# Why a text has no tokens

A text has no tokens if the lexer comes, behind tokens and what stands between them, to a fault: a
string or a comment that is not closed, a sign without digits, a number that a word goes on from or
that is too large, or a character that starts nothing (`Fault`). The error tells which one it is and
where it starts, and there is no other reason for an error (`lexical_errors`).
-/

namespace ObjectTransfer

open Cursor

/-! ## What is wrong -/

/-- `body` is content of a string in front of `rest`: characters that stand for themselves, escapes,
and backslashes that escape nothing. A quote is content only as a part of an escape. -/
inductive IsContent : List Char → List Char → Prop
  | nil (rest : List Char) : IsContent [] rest
  | plain {c : Char} {body rest : List Char} (notQuote : c ≠ '"') (notBackslash : c ≠ '\\')
      (others : IsContent body rest) : IsContent (c :: body) rest
  | escape {letter meant : Char} {body rest : List Char}
      (escapes : Literal.unescape? letter = some meant) (others : IsContent body rest) :
      IsContent ('\\' :: letter :: body) rest
  | backslash {body rest : List Char}
      (escapesNothing : ∀ c ∈ (body ++ rest).head?, Literal.unescape? c = none)
      (others : IsContent body rest) : IsContent ('\\' :: body) rest

/-- A quote closes the string whose content starts with `cs`. -/
def HasClosingQuote (cs : List Char) : Prop :=
  ∃ body rest, cs = body ++ '"' :: rest ∧ IsContent body ('"' :: rest)

/-- What stands at the front of the text has no token, for the given cause. -/
inductive Fault (d : Dialect) : List Char → LexicalError.Cause → Prop
  | string {others : List Char} (notClosed : ¬ HasClosingQuote others) :
      Fault d ('"' :: others) .unterminatedString
  | comment {body : List Char} (notClosed : ¬ ['*', '/'] <:+: body) :
      Fault d ('/' :: '*' :: body) .unterminatedComment
  | sign {others : List Char} (noDigit : ∀ c ∈ others.head?, isDigit c = false) :
      Fault d ('-' :: others) (.invalidNumber "-")
  | word {n : Numeral} {tail rest : List Char} (longest : n.IsLongest (n.text ++ (tail ++ rest)))
      (goesOn : tail ≠ []) (parts : ∀ c ∈ tail, isWordPart c) (ends : WordEnds rest) :
      Fault d (n.text ++ (tail ++ rest)) (.invalidNumber (String.ofList (n.text ++ tail)))
  | tooLarge {n : Numeral} {rest : List Char} (longest : n.IsLongest (n.text ++ rest))
      (ends : WordEnds rest) (infinite : ¬ n.value.isFinite) :
      Fault d (n.text ++ rest) (.invalidNumber (String.ofList n.text))
  | character {c : Char} {others : List Char} (notBlank : ¬ isBlank c)
      (noComment : c = '/' → ∀ next ∈ others.head?, next ≠ '/' ∧ next ≠ '*')
      (noToken : ∀ kind text, Token.Kind.TakenFrom d text kind → text.toList.head? ≠ some c) :
      Fault d (c :: others) (.unexpectedCharacter c)

/-- The lexer comes to `here`: it passes tokens, and then blanks and comments that are closed. -/
def Reaches (d : Dialect) (source : String) (here : Cursor) : Prop :=
  ∃ ts last gap, (ofString source).Passes d ts last ∧ last.Reads gap here ∧ IsTrivia gap here.rest

/-! ## Strings -/

/-- A string that is read has content up to a closing quote. -/
theorem exists_isContent_of_readString {seen cs found : List Char} {p : Position} {next : Cursor}
    (h : readString seen cs p = (some found, next)) :
    ∃ body, cs = body ++ '"' :: next.rest ∧ IsContent body ('"' :: next.rest) := by
  fun_induction readString seen cs p with
  | case1 => exact absurd h (by simp)
  | case2 seen cs p =>
    obtain ⟨-, rfl⟩ := Prod.mk.inj h
    exact ⟨[], rfl, .nil _⟩
  | case3 seen letter cs p meant hmeant ih =>
    obtain ⟨body, hcs, hbody⟩ := ih h
    exact ⟨_, by rw [hcs, List.cons_append, List.cons_append], .escape hmeant hbody⟩
  | case4 seen a cs p hnothing ih =>
    obtain ⟨body, hcs, hbody⟩ := ih h
    refine ⟨_, by rw [hcs, List.cons_append], .backslash ?_ hbody⟩
    rw [← hcs]
    intro c hc
    rwa [← Option.some.inj hc]
  | case5 seen a cs p hquote hescape ih =>
    obtain ⟨body, hcs, hbody⟩ := ih h
    -- A backslash here would be the last character of the text.
    have hbackslash : a ≠ '\\' := by
      rintro rfl
      cases cs with
      | nil => exact absurd hcs (by simp)
      | cons second others => exact hescape second others rfl rfl
    exact ⟨_, by rw [hcs, List.cons_append], .plain hquote hbackslash hbody⟩

/-- Content in front of a quote is read as a string. -/
theorem IsContent.exists_readString {body rest : List Char} (h : IsContent body rest)
    (hquote : rest.head? = some '"') (seen : List Char) (p : Position) :
    ∃ found next, readString seen (body ++ rest) p = (some found, next) := by
  induction h generalizing seen p with
  | nil rest =>
    obtain ⟨others, rfl⟩ := List.head?_eq_some_iff.mp hquote
    exact ⟨_, _, rfl⟩
  | plain notQuote notBackslash _ ih =>
    rw [List.cons_append, readString]
    · exact ih hquote _ _
    · exact notQuote
    · exact fun _ _ hc => absurd hc notBackslash
  | escape escapes _ ih =>
    rw [List.cons_append, List.cons_append, readString, escapes]
    exact ih hquote _ _
  | @backslash body rest escapesNothing _ ih =>
    obtain ⟨a, cs, hcs⟩ : ∃ a cs, body ++ rest = a :: cs := by
      apply List.exists_cons_of_ne_nil
      intro hnil
      rw [(List.append_eq_nil_iff.mp hnil).2] at hquote
      exact absurd hquote (by simp)
    rw [hcs] at escapesNothing
    rw [List.cons_append, hcs, readString, escapesNothing a rfl, ← hcs]
    exact ih hquote _ _

/-- A string without a closing quote is not read, and only such a string is not. -/
theorem readString_eq_none_iff {seen cs : List Char} {p : Position} :
    (readString seen cs p).1 = none ↔ ¬ HasClosingQuote cs := by
  constructor
  · rintro hnone ⟨body, rest, rfl, hbody⟩
    obtain ⟨found, next, hread⟩ := hbody.exists_readString rfl seen p
    rw [hread] at hnone
    exact absurd hnone (by simp)
  · intro hopen
    by_contra hsome
    obtain ⟨found, hfound⟩ := Option.ne_none_iff_exists'.mp hsome
    obtain ⟨body, hcs, hbody⟩ := exists_isContent_of_readString (Prod.ext hfound rfl)
    exact hopen ⟨body, _, hcs, hbody⟩

/-! ## First characters -/

/-- A character that the lexer starts a token with. -/
def OpensToken (c : Char) : Prop :=
  (∃ m, Mark.ofChar? c = some m) ∨ c = '"' ∨ (c = '-' ∨ isDigit c) ∨ isWordStart c

/-- Some token starts with any character that opens one. -/
theorem OpensToken.exists_takenFrom {c : Char} (h : OpensToken c) (d : Dialect) :
    ∃ kind text, Token.Kind.TakenFrom d text kind ∧ text.toList.head? = some c := by
  rcases h with ⟨m, hmark⟩ | rfl | (rfl | hdigit) | hstart
  · refine ⟨_, _, .mark m, ?_⟩
    rw [String.toList_singleton, Mark.char_of_ofChar? hmark]
    rfl
  · have hclosed : readString [] ['"'] .start = (some [], ⟨[], Position.start.advance '"'⟩) := rfl
    exact ⟨_, _, .string hclosed rfl, rfl⟩
  · have hzero : ∀ c ∈ ['0'], isDigit c := List.forall_mem_singleton.mpr rfl
    exact ⟨_, _, .number (n := ⟨true, ['0'], []⟩) ⟨by simp, hzero, by simp⟩, rfl⟩
  · refine ⟨_, _, .number (n := ⟨false, [c], []⟩) ⟨by simp, by simpa, by simp⟩, ?_⟩
    rw [String.toList_ofList]
    rfl
  · have hword : IsWord (String.ofList [c]) := by
      refine ⟨?_, ?_⟩
      · rw [String.toList_ofList]
        exact hstart
      · simp [isWordPart, hstart]
    refine ⟨_, _, .word hword, ?_⟩
    rw [String.toList_ofList]
    rfl

theorem opensToken_of_takenFrom {d : Dialect} {text : String} {kind : Token.Kind} {c : Char}
    (h : kind.TakenFrom d text) (hhead : text.toList.head? = some c) : OpensToken c := by
  cases h with
  | mark m =>
    rw [String.toList_singleton] at hhead
    obtain rfl : m.char = c := Option.some.inj hhead
    exact .inl ⟨m, Mark.ofChar?_char m⟩
  | string =>
    rw [String.toList_ofList] at hhead
    exact .inr (.inl (Option.some.inj hhead).symm)
  | number wellFormed =>
    obtain ⟨first, others, htext, hfirst⟩ := Numeral.exists_text_eq_cons wellFormed
    rw [String.toList_ofList, htext] at hhead
    obtain rfl : first = c := Option.some.inj hhead
    exact .inr (.inr (.inl hfirst))
  | word isWord =>
    obtain ⟨hstart, -⟩ := isWord
    rw [hhead] at hstart
    exact .inr (.inr (.inr hstart))

/-- A character that starts no token is none that the lexer starts a token with, and conversely. -/
theorem starts_no_token_iff {d : Dialect} {c : Char} :
    (∀ kind text, Token.Kind.TakenFrom d text kind → text.toList.head? ≠ some c) ↔
      Mark.ofChar? c = none ∧ c ≠ '"' ∧ ¬ (c = '-' ∨ isDigit c) ∧ ¬ isWordStart c := by
  have hopens : Mark.ofChar? c = none ∧ c ≠ '"' ∧ ¬ (c = '-' ∨ isDigit c) ∧ ¬ isWordStart c ↔
      ¬ OpensToken c := by
    simp only [OpensToken, not_or, not_exists, Option.eq_none_iff_forall_ne_some, ne_eq]
  rw [hopens]
  constructor
  · intro h hc
    obtain ⟨kind, text, htext, hhead⟩ := hc.exists_takenFrom d
    exact h kind text htext hhead
  · intro h kind text htext hhead
    exact h (opensToken_of_takenFrom htext hhead)

/-- What is passed over leaves less of the text. -/
theorem Trivia.skip_ne_ok {trivia : Trivia} {cs others : List Char} {p q : Position}
    (h : others.length < cs.length) : trivia.skip others p ≠ .ok ⟨cs, q⟩ := by
  intro hskip
  have hle := Trivia.skip_length_le hskip
  exact absurd h (Nat.not_lt.mpr hle)

/-- The lexer passes over nothing in front of what is no blank and opens no comment. -/
theorem skipTrivia_eq_self_iff {a : Char} {cs : List Char} {p : Position} :
    skipTrivia ⟨a :: cs, p⟩ = .ok ⟨a :: cs, p⟩ ↔
      ¬ isBlank a ∧ (a = '/' → ∀ next ∈ cs.head?, next ≠ '/' ∧ next ≠ '*') := by
  constructor
  · intro h
    refine ⟨fun hblank => ?_, ?_⟩
    · rw [skipTrivia_blank hblank] at h
      exact Trivia.skip_ne_ok (by simp) h
    · rintro rfl next hnext
      obtain ⟨others, rfl⟩ := List.head?_eq_some_iff.mp hnext
      unfold skipTrivia at h
      constructor
      · rintro rfl
        rw [Trivia.skip] at h
        exact Trivia.skip_ne_ok (by simp only [List.length_cons]; omega) h
      · rintro rfl
        rw [Trivia.skip] at h
        exact Trivia.skip_ne_ok (by simp only [List.length_cons]; omega) h
  · rintro ⟨hblank, hcomment⟩
    rw [skipTrivia, Trivia.skip, if_neg hblank]
    · rintro others ha rfl
      exact (hcomment ha _ rfl).1 rfl
    · rintro others ha rfl
      exact (hcomment ha _ rfl).2 rfl

/-! ## An error is at a fault -/

namespace Cursor

variable {d : Dialect} {source : String} {c here next : Cursor} {e : LexicalError}

theorem fault_of_scanString (hstarts : c.rest.head? = some '"')
    (h : c.scanString = .failed e next) : Fault d c.rest e.cause := by
  obtain ⟨others, hrest⟩ := List.head?_eq_some_iff.mp hstarts
  unfold scanString at h
  split at h
  · exact absurd h (by simp [tokenUpTo])
  · rename_i next' hread
    injection h with he hnext
    subst he
    have hnone := readString_eq_none_iff.mp (congrArg Prod.fst hread)
    rw [hrest] at hnone ⊢
    exact .string hnone

/-- Where a number has no digits there is only a sign. -/
theorem sign_of_whole_eq_nil {first : Char} {others : List Char}
    (hfirst : first = '-' ∨ isDigit first) (h : (Numeral.read (first :: others)).whole = []) :
    first = '-' ∧ (∀ a ∈ others.head?, isDigit a = false) ∧
      (Numeral.read (first :: others)).text = ['-'] := by
  by_cases hminus : first = '-'
  · subst hminus
    have hwhole : others.takeWhile isDigit = [] := h
    have hread : Numeral.read ('-' :: others) = ⟨true, others.takeWhile isDigit,
        if others.takeWhile isDigit = [] then [] else
          Numeral.readFraction (others.dropWhile isDigit)⟩ := rfl
    refine ⟨rfl, fun a ha => ?_, ?_⟩
    · obtain ⟨more, rfl⟩ := List.head?_eq_some_iff.mp ha
      simpa [List.takeWhile_cons] using hwhole
    · rw [hread, hwhole]
      rfl
  · have hdigit := hfirst.resolve_left hminus
    simp [Numeral.read, hminus, hdigit] at h

theorem fault_of_scanNumber {first : Char} (hstarts : c.rest.head? = some first)
    (hfirst : first = '-' ∨ isDigit first) (h : c.scanNumber = .failed e next) :
    Fault d c.rest e.cause := by
  obtain ⟨others, hrest⟩ := List.head?_eq_some_iff.mp hstarts
  have hfront := (reads_after (Numeral.text_read_prefix c.rest)).rest
  have hends := wordEnds_dropWhile (c.after (Numeral.read c.rest).text).rest
  dsimp only [scanNumber] at h
  split_ifs at h with hwhole hwrong
  · injection h with he hnext
    subst he
    rw [hrest] at hwhole ⊢
    obtain ⟨rfl, hdigit, htext⟩ := sign_of_whole_eq_nil hfirst hwhole
    rw [htext]
    exact .sign hdigit
  · injection h with he hnext
    subst he
    have hlongest := Numeral.isLongest_read hwhole
    set n := Numeral.read c.rest
    set after := (c.after n.text).rest
    -- Either a word goes on behind the number or the number itself is wrong.
    by_cases htail : after.takeWhile isWordPart = []
    · have hrest : WordEnds after := takeWhile_eq_nil_iff_wordEnds.mp htail
      rw [hfront] at hlongest ⊢
      rw [htail, List.append_nil]
      refine .tooLarge hlongest hrest fun hfinite => ?_
      simp [htail, hfinite] at hwrong
    · have hsplit : after = after.takeWhile isWordPart ++ after.dropWhile isWordPart :=
        List.takeWhile_append_dropWhile.symm
      rw [hsplit] at hfront
      rw [hfront] at hlongest ⊢
      exact .word hlongest htail (fun _ hc => List.mem_takeWhile_imp hc) hends
  · exact absurd h (by simp [tokenUpTo])

theorem fault_of_scan (hstart : c.skipTrivia = .ok c) (h : c.scan d = .failed e next) :
    Fault d c.rest e.cause := by
  unfold scan at h
  split at h
  · exact absurd h (by simp)
  · rename_i first others hrest
    have hstarts : c.rest.head? = some first := by rw [hrest, List.head?_cons]
    split at h
    · exact absurd h (by simp [tokenUpTo])
    · rename_i hmark
      split_ifs at h with hquote hnumber hword
      · rw [hquote] at hstarts
        exact fault_of_scanString hstarts h
      · exact fault_of_scanNumber hstarts (by simpa using hnumber) h
      · exact absurd h (by simp [scanWord, tokenUpTo])
      · injection h with he hnext
        subst he
        obtain ⟨rest, p⟩ := c
        obtain rfl : rest = first :: others := hrest
        obtain ⟨hblank, hcomment⟩ := skipTrivia_eq_self_iff.mp hstart
        refine .character hblank hcomment (starts_no_token_iff.mpr ⟨hmark, hquote, ?_, hword⟩)
        simpa using hnumber

/-- Where there is no next token, there is a fault behind blanks and comments. -/
theorem exists_fault_of_nextToken (h : c.nextToken d = .failed e next) :
    ∃ gap here, c.Reads gap here ∧ IsTrivia gap here.rest ∧ here.position = e.position ∧
      Fault d here.rest e.cause := by
  obtain ⟨gap, here, hgap, hrefuses⟩ := exists_refuses_of_nextToken h
  unfold nextToken at h
  split at h
  · rename_i start hskip
    obtain ⟨gap, hgap⟩ := exists_reads_of_skip hskip
    exact ⟨gap, start, hgap, isTrivia_of_skipTrivia hskip hgap,
      (refuses_of_scan h).position.symm, fault_of_scan (skipTrivia_of_skip hskip) h⟩
  · rename_i e' finish hskip
    injection h with he
    subst he
    obtain ⟨hcause, -, ⟨⟨⟩, -⟩ | ⟨gap, start, hgap, hpasses, ⟨body, hrest, hclose⟩, hposition⟩⟩ :=
      Trivia.opensComment_of_skip hskip
    refine ⟨gap, start, hgap, hpasses, hposition, ?_⟩
    rw [hrest, hcause]
    exact .comment hclose

/-! ## A fault is an error -/

/-- What is neither blank nor comment is scanned. -/
theorem nextToken_eq_scan {a : Char} {cs : List Char} {p : Position} (hblank : ¬ isBlank a)
    (hcomment : a = '/' → ∀ next ∈ cs.head?, next ≠ '/' ∧ next ≠ '*') :
    nextToken d ⟨a :: cs, p⟩ = scan d ⟨a :: cs, p⟩ := by
  unfold nextToken
  rw [skipTrivia_eq_self_iff.mpr ⟨hblank, hcomment⟩]

theorem nextToken_eq_scanNumber {first : Char} (hstarts : c.rest.head? = some first)
    (hfirst : first = '-' ∨ isDigit first) : c.nextToken d = c.scanNumber := by
  obtain ⟨others, hrest⟩ := List.head?_eq_some_iff.mp hstarts
  have hblank : ¬ isBlank first := by
    intro hblank
    simp only [isBlank, Bool.or_eq_true, decide_eq_true_eq] at hblank
    rcases hblank with ((rfl | rfl) | rfl) | rfl <;> exact absurd hfirst (by decide)
  have hslash : first ≠ '/' := by
    rintro rfl
    exact absurd hfirst (by decide)
  rw [← scan_eq_scanNumber hstarts hfirst (d := d)]
  obtain ⟨rest, p⟩ := c
  obtain rfl : rest = first :: others := hrest
  exact nextToken_eq_scan hblank fun h => absurd h hslash

/-- A number is refused if a word goes on from it, and if it is too large. -/
theorem exists_nextToken_of_isLongest {n : Numeral} {rest : List Char}
    (hlongest : n.IsLongest (n.text ++ rest))
    (hwrong : rest.takeWhile isWordPart ≠ [] ∨ ¬ n.value.isFinite) (p : Position) :
    ∃ next, nextToken d ⟨n.text ++ rest, p⟩ = .failed ⟨.invalidNumber
      (String.ofList (n.text ++ rest.takeWhile isWordPart)), p⟩ next := by
  obtain ⟨first, others, htext, hfirst⟩ := Numeral.exists_text_eq_cons hlongest.wellFormed
  have hstarts : (n.text ++ rest).head? = some first := by
    rw [htext]
    rfl
  rw [nextToken_eq_scanNumber hstarts hfirst]
  simp only [scanNumber, hlongest.read_eq, after_append, if_neg hlongest.wellFormed.whole_ne_nil]
  rw [if_pos (by simpa using hwrong)]
  exact ⟨_, rfl⟩

/-- At a fault there is no token, for the cause that the fault is. -/
theorem exists_nextToken_of_fault {cs : List Char} {cause : LexicalError.Cause}
    (h : Fault d cs cause) (p : Position) :
    ∃ next, nextToken d ⟨cs, p⟩ = .failed ⟨cause, p⟩ next := by
  cases h with
  | @string others notClosed =>
    have hnone : (readString [] others (p.advance '"')).1 = none :=
      readString_eq_none_iff.mpr notClosed
    have hread : readString [] others (p.advance '"') =
        (none, (readString [] others (p.advance '"')).2) := Prod.ext hnone rfl
    have hopen : Mark.ofChar? '"' = none := Mark.ofChar?_eq_none (.inr (.inr rfl))
    rw [nextToken_eq_scan (by decide) fun hslash => absurd hslash (by decide)]
    simp only [scan, hopen, if_pos, scanString, List.tail_cons]
    rw [hread]
    exact ⟨_, rfl⟩
  | @comment body notClosed =>
    unfold nextToken skipTrivia
    rw [Trivia.skip, Trivia.skip_block_of_not_closed notClosed]
    exact ⟨_, rfl⟩
  | @sign others noDigit =>
    have hnone : others.takeWhile isDigit = [] := by
      cases others with
      | nil => rfl
      | cons a cs => simp [noDigit a rfl]
    rw [nextToken_eq_scanNumber rfl (.inl rfl)]
    simp [scanNumber, Numeral.read, Numeral.text, hnone]
  | @word n tail rest longest goesOn parts ends =>
    have htail : (tail ++ rest).takeWhile isWordPart = tail := takeWhile_append_of_head parts ends
    have hfailed := exists_nextToken_of_isLongest longest (.inl (by rwa [htail])) p (d := d)
    rwa [htail] at hfailed
  | @tooLarge n rest longest ends infinite =>
    have htail : rest.takeWhile isWordPart = [] := takeWhile_eq_nil_iff_wordEnds.mpr ends
    have hfailed := exists_nextToken_of_isLongest longest (.inr infinite) p (d := d)
    rwa [htail, List.append_nil] at hfailed
  | @character a others notBlank noComment noToken =>
    obtain ⟨hmark, hquote, hnumber, hword⟩ := starts_no_token_iff.mp noToken
    have hopens : ¬ (a = '-' || isDigit a) := by simpa using hnumber
    rw [nextToken_eq_scan notBlank noComment]
    simp only [scan, hmark, if_neg hquote, if_neg hopens, if_neg hword]
    exact ⟨_, rfl⟩

end Cursor

/-! ## Texts -/

variable {d : Dialect} {source : String} {here : Cursor}

/-- Going on from the cursor is going on behind the tokens that it passes. -/
theorem Cursor.Passes.tokensAfter_eq {c last : Cursor} {ts : List Token}
    (h : c.Passes d ts last) (seen : List Token) :
    c.tokensAfter d seen = last.tokensAfter d (ts.reverse ++ seen) := by
  induction h generalizing seen with
  | refl => rfl
  | cons first _ ih =>
    rw [tokensAfter_of_token seen first, ih, List.reverse_cons, List.append_assoc]
    rfl

/-- What the lexer has come over, in front of some character, is a text of its own. -/
theorem Reaches.exists_before (h : Reaches d source here) (hrest : here.rest ≠ []) :
    ∃ before tokens, byteSlice? source 0 here.position.offset = some before ∧
      tokenize d before = .ok tokens ∧
      byteSlice? source here.position.offset source.utf8ByteSize =
        some (String.ofList here.rest) := by
  obtain ⟨ts, last, gap, hpasses, hgap, htrivia⟩ := h
  obtain ⟨passed, hpassed⟩ := hpasses.exists_reads
  have hall := hpassed.trans hgap
  have hbefore : ReadsAs d (· = []) gap [] := by
    refine readsAs_trivia fun rest hend => ?_
    exact htrivia.reframe hrest rest
  have hread := (hpasses.readsAs hpassed).append hbefore fun rest hend => ?_
  · obtain ⟨tokens, htokens, -⟩ := hread.exists_tokenize rfl
    exact ⟨_, tokens, byteSlice?_of_reads (reads_refl _) hall, htokens, (isIn_of_reads hall).rest⟩
  · rw [hend]
    exact (htrivia.reframe hrest []).apart_append apart_nil

theorem Fault.ne_nil {cs : List Char} {cause : LexicalError.Cause} (h : Fault d cs cause) :
    cs ≠ [] := by
  rintro rfl
  obtain ⟨next, hfailed⟩ := exists_nextToken_of_fault h .start
  have hended : nextToken d ⟨[], .start⟩ = .ended ⟨[], .start⟩ := rfl
  rw [hended] at hfailed
  exact absurd hfailed (by simp)

/-- The lexer fails where it has come to a fault. -/
theorem Reaches.tokenize_eq_error (h : Reaches d source here) {cause : LexicalError.Cause}
    (hfault : Fault d here.rest cause) : tokenize d source = .error ⟨cause, here.position⟩ := by
  obtain ⟨ts, last, gap, hpasses, hgap, htrivia⟩ := h
  obtain ⟨next, hnext⟩ := exists_nextToken_of_fault hfault here.position
  have hfailed : last.nextToken d = .failed ⟨cause, here.position⟩ next := by
    have hover := nextToken_isTrivia_append (d := d) htrivia last.position
    rwa [← hgap.rest, ← hgap.position, hnext] at hover
  unfold tokenize Cursor.tokens
  rw [hpasses.tokensAfter_eq, tokensAfter_of_failed _ hfailed]

/-- A text has no tokens if the lexer comes to a fault in it, and only then. The error has the cause
and the place of the fault, and the text in front of it has tokens. -/
theorem lexical_errors (d : Dialect) (source : String) :
    (∀ e, tokenize d source = .error e → ∃ before after,
      byteSlice? source 0 e.position.offset = some before ∧
      byteSlice? source e.position.offset source.utf8ByteSize = some (String.ofList after) ∧
      (∃ tokens, tokenize d before = .ok tokens) ∧
      Fault d after e.cause ∧ Reaches d source ⟨after, e.position⟩) ∧
    ∀ here cause, Reaches d source here → Fault d here.rest cause →
      tokenize d source = .error ⟨cause, here.position⟩ := by
  constructor
  · intro e he
    obtain ⟨ts, last, hpasses, hlast⟩ := tokensAfter_cases d [] (ofString source)
    unfold tokenize Cursor.tokens at he
    rcases hlast with ⟨finish, -, hrun⟩ | ⟨e', next, hfailed, hrun⟩
    · rw [hrun] at he
      exact absurd he (by simp)
    · rw [hrun] at he
      obtain rfl := Except.error.inj he
      obtain ⟨gap, here, hgap, htrivia, hposition, hfault⟩ := exists_fault_of_nextToken hfailed
      have hreaches : Reaches d source here := ⟨ts, last, gap, hpasses, hgap, htrivia⟩
      obtain ⟨before, tokens, hbefore, htokens, hafter⟩ := hreaches.exists_before hfault.ne_nil
      rw [hposition] at hbefore hafter
      refine ⟨before, here.rest, hbefore, hafter, ⟨tokens, htokens⟩, hfault, ?_⟩
      rwa [← hposition]
  · intro here cause hreaches hfault
    exact hreaches.tokenize_eq_error hfault

/-- The slash behind the star that opens a comment does not close it. -/
theorem slashedComment_fault :
    tokenize .request "x /*/" = .error ⟨.unterminatedComment, ⟨2, 1, 3⟩⟩ ∧
      Fault .request ['/', '*', '/'] .unterminatedComment := by
  have herror : tokenize .request "x /*/" = .error ⟨.unterminatedComment, ⟨2, 1, 3⟩⟩ := by
    decide +kernel
  obtain ⟨before, after, -, hafter, -, hfault, -⟩ := (lexical_errors .request "x /*/").1 _ herror
  have hslice : byteSlice? "x /*/" 2 5 = some (String.ofList ['/', '*', '/']) := by decide +kernel
  have hsame : after = ['/', '*', '/'] :=
    String.ofList_injective (Option.some.inj (hafter.symm.trans hslice))
  rw [hsame] at hfault
  exact ⟨herror, hfault⟩

end ObjectTransfer
