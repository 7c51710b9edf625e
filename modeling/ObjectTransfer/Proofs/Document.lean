import ObjectTransfer.Document
import ObjectTransfer.Proofs.Phrase.Steps
import ObjectTransfer.Proofs.Token.Spelling

/-!
# What reading a text comes down to

A document is read from a text if the text is not too large, has tokens, and the tokens are those of
a document. Both steps between text and document are seen from here: `Dialect.parse_eq_ok` takes a
reading apart, `Dialect.exists_parse_of_spells` puts one together from a text that spells tokens.
-/

namespace ObjectTransfer

/-- What comes of reading a text can be compared. -/
instance decidableEqExcept {ε α : Type} [DecidableEq ε] [DecidableEq α] :
    DecidableEq (Except ε α)
  | .ok a, .ok b => decidable_of_iff (a = b) ⟨congrArg _, Except.ok.inj⟩
  | .error e, .error f => decidable_of_iff (e = f) ⟨congrArg _, Except.error.inj⟩
  | .ok _, .error _ => .isFalse nofun
  | .error _, .ok _ => .isFalse nofun

namespace Dialect

variable {d : Dialect} {options : Options} {text : String} {document : d.Document}

/-- A text that is not too large fails by its tokens, or is read as its tokens are. -/
theorem parse_of_size_le (hsize : text.utf8ByteSize ≤ options.maxInputBytes) :
    d.parse options text =
      match tokenize d text with
      | .error e => .error (.lexical e)
      | .ok tokens =>
        (d.read options tokens.stream).result.mapError (Stop.toError options.maxDepth) := by
  unfold parse run
  rw [if_neg (Nat.not_lt.mpr hsize)]
  cases tokenize d text <;> rfl

/-- A text without tokens fails by its size, which comes first, or because it has none. -/
theorem parse_of_tokenize_error {e : LexicalError} (h : tokenize d text = .error e) :
    d.parse options text = .error
      (if options.maxInputBytes < text.utf8ByteSize then
        .inputTooLarge options.maxInputBytes text.utf8ByteSize
      else .lexical e) := by
  unfold parse run
  by_cases hsize : options.maxInputBytes < text.utf8ByteSize
  · rw [if_pos hsize, if_pos hsize]
  · rw [if_neg hsize, if_neg hsize, h]

theorem parse_eq_ok :
    d.parse options text = .ok document ↔
      text.utf8ByteSize ≤ options.maxInputBytes ∧
        ∃ tokens, tokenize d text = .ok tokens ∧
          (d.read options tokens.stream).result = .ok document := by
  -- The size comes first: the text of a failure by size is never scanned.
  by_cases hsize : text.utf8ByteSize ≤ options.maxInputBytes
  · rw [parse_of_size_le hsize]
    cases htokens : tokenize d text with
    | error e => simp
    | ok tokens => cases hresult : (d.read options tokens.stream).result <;>
        simp [Except.mapError, hresult, hsize]
  · unfold parse run
    rw [if_pos (Nat.not_le.mp hsize)]
    simp [hsize]

/-- A text is refused by its size, by its tokens, or where the reading of these stops. -/
theorem parse_error_cases {e : ParseError} (h : d.parse options text = .error e) :
    (options.maxInputBytes < text.utf8ByteSize ∧
      e = .inputTooLarge options.maxInputBytes text.utf8ByteSize) ∨
    (∃ error, tokenize d text = .error error ∧ e = .lexical error) ∨
    ∃ tokens stop, tokenize d text = .ok tokens ∧
      (d.read options tokens.stream).result = .error stop ∧ e = stop.toError options.maxDepth := by
  by_cases hsize : text.utf8ByteSize ≤ options.maxInputBytes
  · rw [parse_of_size_le hsize] at h
    cases htokens : tokenize d text with
    | error error =>
      rw [htokens] at h
      exact .inr (.inl ⟨error, rfl, (Except.error.inj h).symm⟩)
    | ok tokens =>
      rw [htokens] at h
      cases hread : (d.read options tokens.stream).result with
      | ok document => simp [hread, Except.mapError] at h
      | error stop =>
        simp only [hread, Except.mapError, Except.error.injEq] at h
        exact .inr (.inr ⟨tokens, stop, rfl, hread, h.symm⟩)
  · unfold parse run at h
    rw [if_pos (Nat.not_le.mp hsize)] at h
    exact .inl ⟨Nat.not_le.mp hsize, (Except.error.inj h).symm⟩

/-- The tokens of a text that was read are tokens that a text can have. -/
theorem lexical_of_parse (h : d.parse options text = .ok document) :
    ∃ s : TokenStream, Lexical d s.kinds ∧ (d.read options s).result = .ok document := by
  obtain ⟨-, tokens, htokens, hread⟩ := parse_eq_ok.mp h
  exact ⟨tokens.stream, lexical_of_tokenize htokens, hread⟩

/-- A text that has tokens of these kinds is read as such tokens are. -/
theorem exists_parse_of_tokenize {Good : d.Document → Prop} {kinds : List Token.Kind}
    (hsize : text.utf8ByteSize ≤ options.maxInputBytes)
    (htokens : ∃ tokens, tokenize d text = .ok tokens ∧ tokens.list.map (·.kind) = kinds)
    (hread : ∀ s : TokenStream, s.kinds = kinds →
      ∃ document, (d.read options s).result = .ok document ∧ Good document) :
    ∃ document, d.parse options text = .ok document ∧ Good document := by
  obtain ⟨tokens, htokens, hkinds⟩ := htokens
  obtain ⟨document, hresult, hgood⟩ := hread tokens.stream hkinds
  exact ⟨document, parse_eq_ok.mpr ⟨hsize, tokens, htokens, hresult⟩, hgood⟩

/-- A text that spells tokens is read as the tokens are. -/
theorem exists_parse_of_spells {Good : d.Document → Prop} {kinds : List Token.Kind}
    (hsize : text.utf8ByteSize ≤ options.maxInputBytes) (hspells : Spells d text.toList kinds)
    (hread : ∀ s : TokenStream, s.kinds = kinds →
      ∃ document, (d.read options s).result = .ok document ∧ Good document) :
    ∃ document, d.parse options text = .ok document ∧ Good document :=
  exists_parse_of_tokenize hsize (exists_tokenize_of_spells hspells) hread

/-- A document is read from its own text, locations aside, exactly if it is well formed, if all that
is read is well formed and all that is well formed is read from its text. -/
theorem survives_iff_wellFormed {erase : d.Document → d.Document} {WellFormed : d.Document → Prop}
    (hread : ∀ {before : Options} {text : String} {document : d.Document},
      d.parse before text = .ok document → WellFormed document)
    (herase : ∀ {document : d.Document}, WellFormed (erase document) ↔ WellFormed document)
    (hprint : WellFormed document →
      ∃ found, d.parse options (d.print document) = .ok found ∧ erase found = erase document) :
    ((∃ found, d.parse options (d.print document) = .ok found ∧ erase found = erase document) ↔
      WellFormed document) ∧
    ∀ (before : Options) (text : String), d.parse before text = .ok document →
      ∃ found, d.parse options (d.print document) = .ok found ∧
        erase found = erase document := by
  refine ⟨⟨?_, hprint⟩, fun before text hparse => hprint (hread hparse)⟩
  rintro ⟨found, hparse, hsame⟩
  -- What is read back may have other locations, which no condition looks at.
  rw [← herase, ← hsame, herase]
  exact hread hparse

end Dialect
end ObjectTransfer
