import ObjectTransfer.Token.Cursor
import ObjectTransfer.Token.Numeral

/-!
# From text to tokens

`Cursor.nextToken` reads one token, after the blanks and comments before it, and `Cursor.tokens` all
of them. Both leave the cursor where the reading stopped, so that reading can go on after an error:
what is unterminated takes the whole text with it, a wrong number takes its characters, and an
unexpected character stays where it is.
-/

namespace ObjectTransfer

/-- What a word starts with. -/
def isWordStart (c : Char) : Bool :=
  ('a' ≤ c && c ≤ 'z') || ('A' ≤ c && c ≤ 'Z') || c = '_'

/-- What a word consists of. -/
def isWordPart (c : Char) : Bool := isWordStart c || isDigit c

/-- The token that a word is in a notation. -/
def Token.Kind.ofWord (d : Dialect) (word : String) : Token.Kind :=
  if word = "true" then .literal (.boolean true)
  else if word = "false" then .literal (.boolean false)
  else if word = "null" then .literal .null
  else match d.keyword? word with
    | some reserved => .keyword reserved
    | none => .identifier word

/-- The content of a string from after its opening quote, and the cursor after its closing quote;
`content` is what has been read of it, latest first. A backslash before a character that it does not
escape is content. There is no content if the text ends first. -/
def readString (content : List Char) : List Char → Position → Option (List Char) × Cursor
  | [], p => (none, ⟨[], p⟩)
  | '"' :: cs, p => (some content.reverse, ⟨cs, p.advance '"'⟩)
  | '\\' :: c :: cs, p =>
    match Literal.unescape? c with
    | some meant => readString (meant :: content) cs ((p.advance '\\').advance c)
    | none => readString ('\\' :: content) (c :: cs) (p.advance '\\')
  | c :: cs, p => readString (c :: content) cs (p.advance c)

/-- What the next token of a text is. -/
inductive Scan where
  /-- A token, and the cursor after it. -/
  | token (token : Token) (next : Cursor)
  /-- No token: the text ends here. -/
  | ended (finish : Cursor)
  /-- An error, and the cursor where the reading stopped. -/
  | failed (error : LexicalError) (next : Cursor)

namespace Cursor

/-- The token of the given kind from `c` up to `next`. -/
def tokenUpTo (c next : Cursor) (kind : Token.Kind) : Scan :=
  .token ⟨kind, c.position, next.position⟩ next

/-- The string that opens at the cursor. -/
def scanString (c : Cursor) : Scan :=
  match readString [] c.rest.tail (c.position.advance '"') with
  | (some content, next) => c.tokenUpTo next (.literal (.string (String.ofList content)))
  | (none, next) => .failed ⟨.unterminatedString, c.position⟩ next

/-- The number that starts at the cursor. A sign without digits, a word that goes on after the
digits, and what is too large for a finite number are wrong numbers. -/
def scanNumber (c : Cursor) : Scan :=
  let numeral := Numeral.read c.rest
  let next := c.after numeral.text
  let tail := next.rest.takeWhile isWordPart
  if numeral.whole = [] then
    .failed ⟨.invalidNumber (String.ofList numeral.text), c.position⟩ next
  else if tail ≠ [] || !numeral.value.isFinite then
    .failed ⟨.invalidNumber (String.ofList (numeral.text ++ tail)), c.position⟩ (next.after tail)
  else c.tokenUpTo next (.literal (.number numeral.value))

/-- The word that starts at the cursor. -/
def scanWord (d : Dialect) (c : Cursor) : Scan :=
  let word := c.rest.takeWhile isWordPart
  c.tokenUpTo (c.after word) (.ofWord d (String.ofList word))

/-- The token that starts at the cursor, at which there is no blank and no comment. -/
def scan (d : Dialect) (c : Cursor) : Scan :=
  match c.rest with
  | [] => .ended c
  | first :: _ =>
    match Mark.ofChar? first with
    | some mark => c.tokenUpTo (c.after [first]) (.mark mark)
    | none =>
      if first = '"' then c.scanString
      else if first = '-' || isDigit first then c.scanNumber
      else if isWordStart first then c.scanWord d
      else .failed ⟨.unexpectedCharacter first, c.position⟩ c

/-- The next token at or after the cursor. -/
def nextToken (d : Dialect) (c : Cursor) : Scan :=
  match c.skipTrivia with
  | .ok start => start.scan d
  | .error (e, finish) => .failed e finish

end Cursor

/-! ## Each token takes something from the text -/

theorem Trivia.skip_length_le {t : Trivia} {cs : List Char} {p : Position} {next : Cursor}
    (h : t.skip cs p = .ok next) : next.rest.length ≤ cs.length := by
  fun_induction Trivia.skip t cs p with
  | case1 _ _ ih | case2 _ _ ih | case3 _ _ _ _ _ _ ih | case5 _ _ ih | case6 _ _ _ _ ih
  | case7 _ _ _ ih | case8 _ _ _ _ _ ih =>
    have := ih h
    simp only [List.length_cons]
    omega
  | case9 => simp at h
  | case4 | case10 =>
    obtain rfl := Except.ok.inj h
    exact Nat.le_refl _

theorem readString_length_le (content cs : List Char) (p : Position) :
    (readString content cs p).2.rest.length ≤ cs.length := by
  fun_induction readString content cs p <;> simp_all <;> omega

theorem Numeral.text_read_ne_nil {c : Char} {cs : List Char} (h : c = '-' ∨ isDigit c) :
    (Numeral.read (c :: cs)).text ≠ [] := by
  by_cases hc : c = '-'
  · simp [Numeral.read, Numeral.text, hc]
  · have hd : isDigit c := h.resolve_left hc
    simp [Numeral.read, Numeral.text, hc, hd]

namespace Cursor

theorem length_after_lt {c : Cursor} {text : List Char} (hc : c.rest ≠ []) (ht : text ≠ []) :
    (c.after text).rest.length < c.rest.length := by
  have := List.length_pos_iff.2 hc
  have := List.length_pos_iff.2 ht
  simp only [after, List.length_drop]
  omega

theorem scan_length_lt {d : Dialect} {c next : Cursor} {t : Token}
    (h : c.scan d = .token t next) : next.rest.length < c.rest.length := by
  unfold scan at h
  split at h
  · simp at h
  · rename_i first cs hrest
    have hne : c.rest ≠ [] := by simp [hrest]
    split at h
    · simp only [tokenUpTo, Scan.token.injEq] at h
      rw [← h.2]
      exact length_after_lt hne (by simp)
    · split at h
      · unfold scanString at h
        have hle := readString_length_le [] c.rest.tail (c.position.advance '"')
        have hpos := List.length_pos_iff.2 hne
        split at h
        · rename_i content after hread
          simp only [tokenUpTo, Scan.token.injEq] at h
          rw [hread, List.length_tail] at hle
          rw [← h.2]
          exact Nat.lt_of_le_of_lt hle (Nat.sub_lt hpos Nat.one_pos)
        · simp at h
      · split at h
        · rename_i hfirst
          dsimp only [scanNumber] at h
          split at h
          · simp at h
          · split at h
            · simp at h
            · simp only [tokenUpTo, Scan.token.injEq] at h
              rw [← h.2]
              exact length_after_lt hne (hrest ▸ Numeral.text_read_ne_nil (by simpa using hfirst))
        · split at h
          · rename_i hfirst
            simp only [scanWord, tokenUpTo, Scan.token.injEq] at h
            rw [← h.2]
            exact length_after_lt hne (by simp [hrest, isWordPart, hfirst])
          · simp at h

theorem nextToken_length_lt {d : Dialect} {c next : Cursor} {t : Token}
    (h : c.nextToken d = .token t next) : next.rest.length < c.rest.length := by
  unfold nextToken at h
  split at h
  · rename_i start hstart
    exact Nat.lt_of_lt_of_le (scan_length_lt h) (Trivia.skip_length_le hstart)
  · simp at h

/-- The tokens from the cursor to the end of the text, and the cursor where the reading stopped;
`seen` holds the tokens before them, latest first. -/
def tokensAfter (d : Dialect) (seen : List Token) (c : Cursor) :
    Except LexicalError Tokens × Cursor :=
  match _h : c.nextToken d with
  | .token t next => tokensAfter d (t :: seen) next
  | .ended finish => (.ok ⟨seen.reverse, finish.position⟩, finish)
  | .failed e next => (.error e, next)
termination_by c.rest.length
decreasing_by exact nextToken_length_lt _h

/-- The tokens from the cursor to the end of the text, and the cursor where the reading stopped. -/
def tokens (d : Dialect) (c : Cursor) : Except LexicalError Tokens × Cursor := c.tokensAfter d []

end Cursor

/-- The tokens of a text. -/
def tokenize (d : Dialect) (text : String) : Except LexicalError Tokens :=
  ((Cursor.ofString text).tokens d).1

end ObjectTransfer
