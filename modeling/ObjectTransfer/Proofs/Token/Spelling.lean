import ObjectTransfer.Proofs.Number.Written
import ObjectTransfer.Proofs.Token.Lexical
import Mathlib.Tactic.SplitIfs
import Mathlib.Tactic.ByContra

/-!
# Spelled tokens are read back

Each kind of token has a source form, `Token.Kind.text`. `Spells` says that a text consists of such
forms with blanks between them, where what follows a word or a number may not prolong it. The main
statement is `exists_tokenize_of_spells`: such a text has exactly the spelled tokens.
-/

namespace ObjectTransfer

/-- The source form of a token. -/
def Token.Kind.text : Token.Kind → String
  | .keyword word => word.text
  | .identifier name => name
  | .literal value => value.text
  | .mark m => String.singleton m.char

/-- No word goes on into `rest`. -/
def WordEnds (rest : List Char) : Prop := ∀ c ∈ rest.head?, isWordPart c = false

/-- The source form of a token has ended where `rest` starts: a string and a mark show their end, a
word and a number end where nothing prolongs them. -/
def Token.Kind.EndsBefore (rest : List Char) : Token.Kind → Prop
  | .mark _ => True
  | .literal (.string _) => True
  | .literal (.number _) => Numeral.Ends rest ∧ WordEnds rest
  | _ => WordEnds rest

theorem wordEnds_cons {c : Char} (h : isWordPart c = false) (rest : List Char) :
    WordEnds (c :: rest) := by
  intro x hx
  rwa [← Option.some.inj hx]

theorem takeWhile_eq_nil_iff_wordEnds {rest : List Char} :
    rest.takeWhile isWordPart = [] ↔ WordEnds rest := by
  cases rest with
  | nil => simp [WordEnds]
  | cons a cs => simp [WordEnds, List.takeWhile_cons]

/-- Neither a word nor a number goes on into `rest`. -/
def Apart (rest : List Char) : Prop := ∀ c ∈ rest.head?, isWordPart c = false ∧ c ≠ '.'

theorem Apart.wordEnds {rest : List Char} (h : Apart rest) : WordEnds rest :=
  fun c hc => (h c hc).1

theorem Apart.numeralEnds {rest : List Char} (h : Apart rest) : Numeral.Ends rest := by
  intro c hc
  obtain ⟨hword, hpoint⟩ := h c hc
  simp only [isWordPart, Bool.or_eq_false_iff] at hword
  exact ⟨hword.2, hpoint⟩

theorem apart_cons {c : Char} (hword : isWordPart c = false) (hpoint : c ≠ '.')
    (rest : List Char) : Apart (c :: rest) := by
  intro x hx
  rw [← Option.some.inj hx]
  exact ⟨hword, hpoint⟩

/-- What goes on neither in a word nor in a number ends any token. -/
theorem Token.Kind.endsBefore {rest : List Char} (kind : Token.Kind) (h : Apart rest) :
    kind.EndsBefore rest := by
  match kind with
  | .mark _ => trivial
  | .literal (.string _) => trivial
  | .literal (.number _) => exact ⟨h.numeralEnds, h.wordEnds⟩
  | .literal (.boolean _) => exact h.wordEnds
  | .literal .null => exact h.wordEnds
  | .keyword _ => exact h.wordEnds
  | .identifier _ => exact h.wordEnds

/-! ## First characters -/

namespace Mark

theorem ofChar?_char (m : Mark) : ofChar? m.char = some m := by
  cases m <;> decide

theorem char_of_ofChar? {c : Char} {m : Mark} (h : ofChar? c = some m) : m.char = c := by
  simpa using List.find?_some h

/-- A character that is written in words or numbers is no mark. -/
theorem ofChar?_eq_none {c : Char} (h : isWordPart c ∨ c = '-' ∨ c = '"') : ofChar? c = none := by
  cases hmark : ofChar? c with
  | none => rfl
  | some m =>
    rw [← char_of_ofChar? hmark] at h
    cases m <;> exact absurd h (by decide)

end Mark

theorem isWordPart_of_isDigit {c : Char} (h : isDigit c) : isWordPart c := by
  simp [isWordPart, h]

/-- A word starts neither with a digit nor with a character that opens something else. -/
theorem not_opening_of_isWordStart {c : Char} (h : isWordStart c) :
    c ≠ '"' ∧ ¬ (c = '-' || isDigit c) := by
  have hquote : c ≠ '"' := by
    rintro rfl
    exact absurd h (by decide)
  have hminus : c ≠ '-' := by
    rintro rfl
    exact absurd h (by decide)
  have hdigit : isDigit c = false := by
    by_contra hdigit
    simp only [isDigit, Bool.not_eq_false, Bool.and_eq_true, decide_eq_true_eq] at hdigit
    simp only [isWordStart, Bool.or_eq_true, Bool.and_eq_true, decide_eq_true_eq] at h
    -- Letters and the underscore come after all digits in the order of characters.
    rcases h with (h | h) | rfl
    · exact absurd (Char.le_trans h.1 hdigit.2) (by decide)
    · exact absurd (Char.le_trans h.1 hdigit.2) (by decide)
    · exact absurd hdigit.2 (by decide)
  simp [hquote, hminus, hdigit]

/-! ## Strings -/

/-- An escaped character is read as the character. -/
theorem readString_escapedChar_append (c : Char) (seen rest : List Char) (p : Position) :
    readString seen (Literal.escapedChar c ++ rest) p =
      readString (c :: seen) rest (p.advanceBy (Literal.escapedChar c)) := by
  unfold Literal.escapedChar
  split_ifs with hbackslash hquote hfeed htab hreturn
  · subst hbackslash
    rfl
  · subst hquote
    rfl
  · subst hfeed
    rfl
  · subst htab
    rfl
  · subst hreturn
    rfl
  · -- Any other character stands for itself.
    simp only [List.singleton_append, Position.advanceBy_cons, Position.advanceBy_nil]
    rw [readString]
    · exact hquote
    · exact fun _ _ h => absurd h hbackslash

/-- The escaped content of a string is read back up to its closing quote. -/
theorem readString_flatMap_escapedChar (content seen rest : List Char) (p : Position) :
    readString seen (content.flatMap Literal.escapedChar ++ '"' :: rest) p =
      (some (seen.reverse ++ content),
        ⟨rest, p.advanceBy (content.flatMap Literal.escapedChar ++ ['"'])⟩) := by
  induction content generalizing seen p with
  | nil => simp [readString]
  | cons c cs ih =>
    rw [List.flatMap_cons, List.append_assoc, readString_escapedChar_append, ih]
    simp [Position.advanceBy_append]

/-! ## One token -/

namespace Cursor

theorem after_append (text rest : List Char) (p : Position) :
    after ⟨text ++ rest, p⟩ text = ⟨rest, p.advanceBy text⟩ := by
  simp [after]

theorem scan_eq_scanNumber {d : Dialect} {c : Cursor} {first : Char}
    (hstarts : c.rest.head? = some first) (hopens : first = '-' ∨ isDigit first) :
    c.scan d = c.scanNumber := by
  obtain ⟨others, hrest⟩ := List.head?_eq_some_iff.mp hstarts
  have hmark : Mark.ofChar? first = none := by
    apply Mark.ofChar?_eq_none
    rcases hopens with rfl | hdigit
    · exact .inr (.inl rfl)
    · exact .inl (isWordPart_of_isDigit hdigit)
  have hquote : first ≠ '"' := by
    rintro rfl
    exact absurd hopens (by decide)
  simp only [scan, hrest, hmark, if_neg hquote]
  rw [if_pos (by simpa using hopens)]

theorem scan_eq_scanWord {d : Dialect} {c : Cursor} {first : Char}
    (hstarts : c.rest.head? = some first) (hopens : isWordStart first) :
    c.scan d = c.scanWord d := by
  obtain ⟨others, hrest⟩ := List.head?_eq_some_iff.mp hstarts
  obtain ⟨hquote, hnumber⟩ := not_opening_of_isWordStart hopens
  have hmark : Mark.ofChar? first = none :=
    Mark.ofChar?_eq_none (.inl (by simp [isWordPart, hopens]))
  simp only [scan, hrest, hmark, if_neg hquote, if_neg hnumber, if_pos hopens]

theorem scan_mark (d : Dialect) (m : Mark) (rest : List Char) (p : Position) :
    scan d ⟨m.char :: rest, p⟩ = .token ⟨.mark m, p, p.advance m.char⟩ ⟨rest, p.advance m.char⟩ := by
  simp only [scan, Mark.ofChar?_char]
  rfl

theorem scan_quote (d : Dialect) (s : String) (rest : List Char) (p : Position) :
    scan d ⟨(Literal.quote s).toList ++ rest, p⟩ =
      .token ⟨.literal (.string s), p, p.advanceBy (Literal.quote s).toList⟩
        ⟨rest, p.advanceBy (Literal.quote s).toList⟩ := by
  have hquote : (Literal.quote s).toList =
      '"' :: (s.toList.flatMap Literal.escapedChar ++ ['"']) := by
    simp [Literal.quote]
  have hopen : Mark.ofChar? '"' = none := Mark.ofChar?_eq_none (.inr (.inr rfl))
  have hread := readString_flatMap_escapedChar s.toList [] rest (p.advance '"')
  rw [hquote]
  simp only [scan, List.cons_append, List.append_assoc, hopen, if_pos, scanString, List.tail_cons,
    List.nil_append, hread, tokenUpTo, List.reverse_nil, String.ofList_toList,
    Position.advanceBy_cons]

theorem scan_number (d : Dialect) {x : Double} (hx : x.isFinite) {rest : List Char}
    (hends : Numeral.Ends rest) (hword : WordEnds rest) (p : Position) :
    scan d ⟨x.chars .source ++ rest, p⟩ =
      .token ⟨.literal (.number x), p, p.advanceBy (x.chars .source)⟩
        ⟨rest, p.advanceBy (x.chars .source)⟩ := by
  obtain ⟨n, hn, htext, hvalue⟩ := Double.exists_numeral hx
  rw [← htext]
  obtain ⟨first, others, hcons, hfirst⟩ := Numeral.exists_text_eq_cons hn
  have hread := Numeral.read_append hn (hends.endsBefore n)
  -- A number that a word goes on from would be invalid.
  have htail := takeWhile_eq_nil_iff_wordEnds.mpr hword
  have hstarts : (n.text ++ rest).head? = some first := by rw [hcons]; rfl
  rw [scan_eq_scanNumber hstarts hfirst]
  simp only [scanNumber, hread, after_append, htail, hn.whole_ne_nil, hvalue, hx, if_false]
  simp [tokenUpTo]

theorem scan_word {d : Dialect} {kind : Token.Kind} {word : String} (hword : IsWord word)
    (hkind : .ofWord d word = kind) {rest : List Char} (hends : WordEnds rest) (p : Position) :
    scan d ⟨word.toList ++ rest, p⟩ = .token ⟨kind, p, p.advanceBy word.toList⟩
      ⟨rest, p.advanceBy word.toList⟩ := by
  obtain ⟨hstart, hpart⟩ := hword
  have hrun : (word.toList ++ rest).takeWhile isWordPart = word.toList :=
    takeWhile_append_of_head (List.all_eq_true.mp hpart) hends
  obtain ⟨first, hhead, hfirst⟩ := (Option.any_eq_true ..).mp hstart
  obtain ⟨others, hcons⟩ := List.head?_eq_some_iff.mp hhead
  have hstarts : (word.toList ++ rest).head? = some first := by rw [hcons]; rfl
  rw [scan_eq_scanWord hstarts hfirst]
  simp only [scanWord, hrun, after_append, String.ofList_toList, hkind, tokenUpTo]

/-- The source form of a token is read as that token, up to its end. -/
theorem scan_text {d : Dialect} {kind : Token.Kind} (hkind : kind.IsLexical d) {rest : List Char}
    (hends : kind.EndsBefore rest) (p : Position) :
    scan d ⟨kind.text.toList ++ rest, p⟩ = .token ⟨kind, p, p.advanceBy kind.text.toList⟩
      ⟨rest, p.advanceBy kind.text.toList⟩ := by
  -- One case for each form a token can start with; a name is the general case of a word.
  match kind with
  | .mark m =>
    have hchar : (String.singleton m.char).toList = [m.char] := by simp
    show scan d ⟨(String.singleton m.char).toList ++ rest, p⟩ = .token ⟨.mark m, p,
      p.advanceBy (String.singleton m.char).toList⟩
      ⟨rest, p.advanceBy (String.singleton m.char).toList⟩
    rw [hchar]
    exact scan_mark d m rest p
  | .literal (.string s) => exact scan_quote d s rest p
  | .literal (.number x) =>
    have hchars : (x.text .source).toList = x.chars .source := String.toList_ofList
    show scan d ⟨(x.text .source).toList ++ rest, p⟩ = .token ⟨.literal (.number x), p,
      p.advanceBy (x.text .source).toList⟩ ⟨rest, p.advanceBy (x.text .source).toList⟩
    rw [hchars]
    exact scan_number d hkind hends.1 hends.2 p
  | .literal (.boolean true) => exact scan_word (by decide) rfl hends p
  | .literal (.boolean false) => exact scan_word (by decide) rfl hends p
  | .literal .null => exact scan_word (by decide) rfl hends p
  | .keyword word =>
    have hname := word.isName_text
    refine scan_word hname.1 ?_ hends p
    rw [Token.Kind.ofWord_of_isName hname, Dialect.keyword?_text hkind, Option.elim_some]
  | .identifier name =>
    obtain ⟨hname, hfree⟩ := hkind
    refine scan_word hname.1 ?_ hends p
    rw [Token.Kind.ofWord_of_isName hname, hfree, Option.elim_none]

/-! ## Blanks -/

/-- Blanks and slashes start no token. -/
theorem scan_of_trivia (d : Dialect) {first : Char} (h : isBlank first ∨ first = '/')
    (others : List Char) (p : Position) :
    scan d ⟨first :: others, p⟩ =
      .failed ⟨.unexpectedCharacter first, p⟩ ⟨first :: others, p⟩ := by
  simp only [isBlank, Bool.or_eq_true, decide_eq_true_eq] at h
  rcases h with (((rfl | rfl) | rfl) | rfl) | rfl <;> rfl

/-- A cursor at a token is at no blank and at no comment. -/
theorem skipTrivia_of_scan {d : Dialect} {c next : Cursor} {t : Token}
    (h : c.scan d = .token t next) : c.skipTrivia = .ok c := by
  obtain ⟨rest, p⟩ := c
  cases rest with
  | nil => exact absurd h (by simp [scan])
  | cons first others =>
    -- Trivia would start with a blank or a slash, and neither starts a token.
    have htrivia : ¬ (isBlank first ∨ first = '/') := by
      intro hfirst
      rw [scan_of_trivia d hfirst others p] at h
      exact absurd h (by simp)
    rw [not_or] at htrivia
    unfold skipTrivia
    rw [Trivia.skip]
    · exact if_neg htrivia.1
    · exact fun _ hslash => absurd hslash htrivia.2
    · exact fun _ hslash => absurd hslash htrivia.2

theorem skipTrivia_blank {c : Char} (h : isBlank c) (rest : List Char) (p : Position) :
    skipTrivia ⟨c :: rest, p⟩ = skipTrivia ⟨rest, p.advance c⟩ := by
  have hslash : c ≠ '/' := by
    rintro rfl
    exact absurd h (by decide)
  unfold skipTrivia
  rw [Trivia.skip]
  · exact if_pos h
  · exact fun _ h => absurd h hslash
  · exact fun _ h => absurd h hslash

/-! ## All tokens -/

theorem nextToken_of_scan {d : Dialect} {c next : Cursor} {t : Token}
    (h : c.scan d = .token t next) : c.nextToken d = .token t next := by
  unfold nextToken
  rw [skipTrivia_of_scan h]
  exact h

theorem tokensAfter_of_token {d : Dialect} {c next : Cursor} {t : Token} (seen : List Token)
    (h : c.nextToken d = .token t next) :
    c.tokensAfter d seen = next.tokensAfter d (t :: seen) := by
  rw [tokensAfter.eq_def, h]

theorem tokensAfter_of_ended {d : Dialect} {c finish : Cursor} (seen : List Token)
    (h : c.nextToken d = .ended finish) :
    c.tokensAfter d seen = (.ok ⟨seen.reverse, finish.position⟩, finish) := by
  rw [tokensAfter.eq_def, h]

/-- Cursors that agree after trivia have the same tokens after them. -/
theorem tokensAfter_congr {d : Dialect} {c c' : Cursor} (seen : List Token)
    (h : c.nextToken d = c'.nextToken d) : c.tokensAfter d seen = c'.tokensAfter d seen := by
  rw [tokensAfter.eq_def d seen c, tokensAfter.eq_def d seen c', h]

end Cursor

/-- A text that spells tokens: their source forms in order, with blanks between them, no form being
prolonged by what follows it. -/
inductive Spells (d : Dialect) : List Char → List Token.Kind → Prop where
  | ended : Spells d [] []
  | blank {c : Char} {rest : List Char} {kinds : List Token.Kind} :
      isBlank c → Spells d rest kinds → Spells d (c :: rest) kinds
  | token {kind : Token.Kind} {rest : List Char} {kinds : List Token.Kind} :
      kind.IsLexical d → kind.EndsBefore rest → Spells d rest kinds →
        Spells d (kind.text.toList ++ rest) (kind :: kinds)

/-- Reading on through a text that spells tokens gives those tokens after the ones seen before. -/
theorem Spells.exists_tokensAfter {d : Dialect} {text : List Char} {kinds : List Token.Kind}
    (h : Spells d text kinds) (p : Position) (seen : List Token) :
    ∃ tokens : Tokens, (Cursor.tokensAfter d seen ⟨text, p⟩).1 = .ok tokens ∧
      tokens.list.map (·.kind) = seen.reverse.map (·.kind) ++ kinds := by
  -- By induction on how the text spells its tokens, from any position and after any tokens.
  induction h generalizing p seen with
  | ended =>
    have hended : Cursor.nextToken d ⟨[], p⟩ = .ended ⟨[], p⟩ := rfl
    refine ⟨⟨seen.reverse, p⟩, ?_, by simp⟩
    rw [Cursor.tokensAfter_of_ended seen hended]
  | @blank c rest kinds hc _ ih =>
    obtain ⟨tokens, hread, hkinds⟩ := ih (p.advance c) seen
    refine ⟨tokens, ?_, hkinds⟩
    rw [← hread]
    congr 1
    apply Cursor.tokensAfter_congr
    unfold Cursor.nextToken
    rw [Cursor.skipTrivia_blank hc]
  | @token kind rest kinds hkind hends _ ih =>
    have hnext := Cursor.nextToken_of_scan (Cursor.scan_text hkind hends p)
    obtain ⟨tokens, hread, hkinds⟩ := ih (p.advanceBy kind.text.toList)
      (⟨kind, p, p.advanceBy kind.text.toList⟩ :: seen)
    refine ⟨tokens, ?_, ?_⟩
    · rw [Cursor.tokensAfter_of_token seen hnext, hread]
    · rw [hkinds]
      simp

/-- A text that spells tokens has exactly those tokens. -/
theorem exists_tokenize_of_spells {d : Dialect} {text : String} {kinds : List Token.Kind}
    (h : Spells d text.toList kinds) :
    ∃ tokens, tokenize d text = .ok tokens ∧ tokens.list.map (·.kind) = kinds := by
  obtain ⟨tokens, hread, hkinds⟩ := h.exists_tokensAfter .start []
  exact ⟨tokens, hread, hkinds⟩

end ObjectTransfer
