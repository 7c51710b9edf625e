import ObjectTransfer.Token.Lexer

/-!
# Which tokens a text can have

A name is a word that starts with no digit and is not one of the three words that are literals. The
tokens of a text are lexical: its identifiers are names that the notation does not reserve, its
reserved words are those of the notation, and its numbers are finite (`lexical_of_tokenize`).
-/

namespace ObjectTransfer

/-- A word: letters, digits and underscores, no digit first. -/
def IsWord (word : String) : Prop :=
  word.toList.head?.any isWordStart ∧ word.toList.all isWordPart

instance : DecidablePred IsWord := fun _ => inferInstanceAs (Decidable (_ ∧ _))

/-- A word that can name something: not one of the words that are literals. -/
def IsName (word : String) : Prop :=
  IsWord word ∧ word ≠ "true" ∧ word ≠ "false" ∧ word ≠ "null"

instance : DecidablePred IsName := fun _ => inferInstanceAs (Decidable (_ ∧ _ ∧ _ ∧ _))

/-- A literal that can be written: a number has to be finite. -/
def Literal.IsFinite : Literal → Prop
  | .number x => x.isFinite
  | _ => True

/-- A kind of token that a text of the notation can have. -/
def Token.Kind.IsLexical (d : Dialect) : Token.Kind → Prop
  | .keyword word => word ∈ d.keywords
  | .identifier name => IsName name ∧ d.keyword? name = none
  | .literal value => value.IsFinite
  | .mark _ => True

/-- All the tokens are tokens that a text of the notation can have. -/
def Lexical (d : Dialect) (kinds : List Token.Kind) : Prop := ∀ kind ∈ kinds, kind.IsLexical d

section

variable {d : Dialect}

@[simp] theorem lexical_cons {kind : Token.Kind} {kinds : List Token.Kind} :
    Lexical d (kind :: kinds) ↔ kind.IsLexical d ∧ Lexical d kinds := List.forall_mem_cons

@[simp] theorem lexical_append {kinds kinds' : List Token.Kind} :
    Lexical d (kinds ++ kinds') ↔ Lexical d kinds ∧ Lexical d kinds' := List.forall_mem_append

theorem lexical_flatMap {τ : Type} {kinds : τ → List Token.Kind} {ts : List τ} :
    Lexical d (ts.flatMap kinds) ↔ ∀ t ∈ ts, Lexical d (kinds t) := List.forall_mem_flatMap

end

/-! ## Words -/

/-- The word at the front of a text that starts as one. -/
theorem isWord_takeWhile {cs : List Char} {first : Char} (hstarts : cs.head? = some first)
    (hfirst : isWordStart first) : IsWord (String.ofList (cs.takeWhile isWordPart)) := by
  obtain ⟨others, rfl⟩ := List.head?_eq_some_iff.mp hstarts
  have hpart : isWordPart first := by simp [isWordPart, hfirst]
  refine ⟨?_, ?_⟩
  · simp [hpart, hfirst]
  · rw [String.toList_ofList]
    exact List.all_takeWhile

theorem Dialect.keyword?_eq_some {d : Dialect} {word : String} {reserved : Keyword}
    (h : d.keyword? word = some reserved) : reserved ∈ d.keywords ∧ reserved.text = word :=
  ⟨List.mem_of_find?_eq_some h, by simpa using List.find?_some h⟩

theorem Dialect.keyword?_text {d : Dialect} {word : Keyword} (h : word ∈ d.keywords) :
    d.keyword? word.text = some word := by
  cases d with
  | schema => cases word <;> decide
  | request => exact absurd h List.not_mem_nil
  | response => exact absurd h List.not_mem_nil

theorem Keyword.isName_text (word : Keyword) : IsName word.text := by
  cases word <;> decide

/-- A name stands for a reserved word or for itself. -/
theorem Token.Kind.ofWord_of_isName {d : Dialect} {word : String} (h : IsName word) :
    ofWord d word = (d.keyword? word).elim (.identifier word) .keyword := by
  obtain ⟨-, htrue, hfalse, hnull⟩ := h
  unfold ofWord
  rw [if_neg htrue, if_neg hfalse, if_neg hnull]
  cases d.keyword? word <;> rfl

/-- A word is a token that a text can have. -/
theorem Token.Kind.isLexical_ofWord {d : Dialect} {word : String} (hword : IsWord word) :
    (ofWord d word).IsLexical d := by
  by_cases htrue : word = "true"
  · rw [htrue]
    trivial
  by_cases hfalse : word = "false"
  · rw [hfalse]
    trivial
  by_cases hnull : word = "null"
  · rw [hnull]
    trivial
  have hname : IsName word := ⟨hword, htrue, hfalse, hnull⟩
  rw [ofWord_of_isName hname]
  cases hkeyword : d.keyword? word with
  | some reserved => exact (Dialect.keyword?_eq_some hkeyword).1
  | none => exact ⟨hname, hkeyword⟩

/-! ## Scanning -/

namespace Cursor

theorem isLexical_of_scanNumber {d : Dialect} {c next : Cursor} {t : Token}
    (h : c.scanNumber = .token t next) : t.kind.IsLexical d := by
  dsimp only [scanNumber] at h
  split at h
  · exact absurd h (by simp)
  · split at h
    · exact absurd h (by simp)
    · -- A number that is too large for a double has been refused before.
      rename_i hvalid
      simp only [tokenUpTo, Scan.token.injEq] at h
      rw [← h.1]
      show (Numeral.read c.rest).value.isFinite = true
      simp only [Bool.or_eq_true, not_or, Bool.not_eq_true', Bool.not_eq_false] at hvalid
      exact hvalid.2

theorem isLexical_of_scanWord {d : Dialect} {c next : Cursor} {t : Token} {first : Char}
    (hstarts : c.rest.head? = some first) (hfirst : isWordStart first)
    (h : c.scanWord d = .token t next) : t.kind.IsLexical d := by
  simp only [scanWord, tokenUpTo, Scan.token.injEq] at h
  rw [← h.1]
  exact Token.Kind.isLexical_ofWord (isWord_takeWhile hstarts hfirst)

theorem isLexical_of_scan {d : Dialect} {c next : Cursor} {t : Token}
    (h : c.scan d = .token t next) : t.kind.IsLexical d := by
  unfold scan at h
  split at h
  · exact absurd h (by simp)
  · rename_i first others hrest
    split at h
    · simp only [tokenUpTo, Scan.token.injEq] at h
      rw [← h.1]
      trivial
    · split at h
      · unfold scanString at h
        split at h
        · simp only [tokenUpTo, Scan.token.injEq] at h
          rw [← h.1]
          trivial
        · exact absurd h (by simp)
      · split at h
        · exact isLexical_of_scanNumber h
        · split at h
          · rename_i hfirst
            exact isLexical_of_scanWord (by rw [hrest]; rfl) hfirst h
          · exact absurd h (by simp)

theorem isLexical_of_nextToken {d : Dialect} {c next : Cursor} {t : Token}
    (h : c.nextToken d = .token t next) : t.kind.IsLexical d := by
  unfold nextToken at h
  split at h
  · exact isLexical_of_scan h
  · exact absurd h (by simp)

/-- Reading on from the cursor only adds lexical tokens to those seen before. -/
theorem isLexical_of_tokensAfter {d : Dialect} {seen : List Token} {c : Cursor} {tokens : Tokens}
    (hseen : ∀ t ∈ seen, t.kind.IsLexical d) (h : (c.tokensAfter d seen).1 = .ok tokens) :
    ∀ t ∈ tokens.list, t.kind.IsLexical d := by
  -- By induction on the run: a turn only adds the token that it has scanned.
  fun_induction tokensAfter d seen c with
  | case1 seen c t next hnext ih =>
    apply ih _ h
    intro u hu
    rcases List.mem_cons.mp hu with rfl | hu
    · exact isLexical_of_nextToken hnext
    · exact hseen u hu
  | case2 seen c finish _ =>
    obtain rfl := Except.ok.inj h
    intro t ht
    exact hseen t (List.mem_reverse.mp ht)
  | case3 => exact absurd h (by simp)

end Cursor

/-- The tokens of a text are tokens that a text can have. -/
theorem lexical_of_tokenize {d : Dialect} {text : String} {tokens : Tokens}
    (h : tokenize d text = .ok tokens) : Lexical d (tokens.list.map (·.kind)) := by
  intro kind hkind
  obtain ⟨t, ht, rfl⟩ := List.mem_map.mp hkind
  exact Cursor.isLexical_of_tokensAfter (fun _ ht => absurd ht List.not_mem_nil) h t ht

end ObjectTransfer
