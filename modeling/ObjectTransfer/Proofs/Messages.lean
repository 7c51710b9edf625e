import ObjectTransfer.Proofs.Procedure.Reading
import ObjectTransfer.Proofs.Token.Faults

/-!
# Messages of errors

An error is told on one line (`Dialect.oneLine_of_parse`). Whatever a message quotes from a text has no
line feed: words and numbers cannot have one, and strings and characters are inspected.
-/

namespace ObjectTransfer

/-- A text on one line. -/
def OneLine (s : String) : Prop := '\n' ∉ s.toList

instance : DecidablePred OneLine := fun _ => inferInstanceAs (Decidable (_ ∉ _))

theorem oneLine_append {s t : String} : OneLine (s ++ t) ↔ OneLine s ∧ OneLine t := by
  rw [OneLine, String.toList_append, List.mem_append, not_or]
  rfl

theorem oneLine_ofList {cs : List Char} : OneLine (String.ofList cs) ↔ '\n' ∉ cs := by
  rw [OneLine, String.toList_ofList]

/-! ## What messages quote -/

theorem oneLine_repr (n : Nat) : OneLine n.repr := by
  intro h
  rw [Nat.toList_repr] at h
  exact absurd (Nat.isDigit_of_mem_toDigits (by decide) (by decide) h) (by decide)

theorem oneLine_position (p : Position) : OneLine p.text := by
  simp only [Position.text, toString, oneLine_append, oneLine_repr, and_true]
  decide

theorem feed_not_mem_hexDigits (n : Nat) : '\n' ∉ Nat.toDigits 16 n := by
  induction n using Nat.strongRecOn with
  | _ n ih =>
    have hdigit : ∀ m, '\n' ≠ Nat.digitChar m := fun m => (Nat.digitChar_ne '\n' (by decide)).symm
    rw [Nat.toDigits_eq_if (by decide)]
    split
    · exact fun h => hdigit n (List.mem_singleton.mp h)
    · rw [List.mem_append, not_or]
      exact ⟨ih (n / 16) (by omega), fun h => hdigit _ (List.mem_singleton.mp h)⟩

/-- An inspected character is on one line. -/
theorem feed_not_mem_inspectedChar {quote c : Char} (hquote : quote ≠ '\n') :
    '\n' ∉ inspectedChar quote c := by
  unfold inspectedChar
  split_ifs with hescaped hfeed hreturn htab hzero hprintable
  · have hc : c ≠ '\n' := by
      rintro rfl
      simp [hquote.symm] at hescaped
    simp [hc.symm]
  · decide
  · decide
  · decide
  · decide
  · exact fun hc => hfeed (List.mem_singleton.mp hc).symm
  · simp [feed_not_mem_hexDigits]

theorem oneLine_inspectString (s : String) : OneLine (inspectString s) := by
  have hcontent : '\n' ∉ s.toList.flatMap (inspectedChar '"') := by
    intro h
    obtain ⟨c, -, hc⟩ := List.mem_flatMap.mp h
    exact feed_not_mem_inspectedChar (by decide) hc
  rw [inspectString, oneLine_ofList]
  simp [hcontent]

theorem oneLine_inspectChar (c : Char) : OneLine (inspectChar c) := by
  have hcontent : '\n' ∉ inspectedChar '\'' c := feed_not_mem_inspectedChar (by decide)
  rw [inspectChar, oneLine_ofList]
  simp [hcontent]

theorem IsName.oneLine {name : String} (h : IsName name) : OneLine name := by
  intro hfeed
  exact absurd (List.all_eq_true.mp h.1.2 _ hfeed) (by decide)

theorem Numeral.WellFormed.oneLine {n : Numeral} (h : n.WellFormed) : '\n' ∉ n.text := by
  have hsign : '\n' ∉ signText n.negative := by cases n.negative <;> decide
  have hwhole : '\n' ∉ n.whole := fun hfeed => absurd (h.whole_digits _ hfeed) (by decide)
  have hfraction : '\n' ∉ n.fraction := fun hfeed => absurd (h.fraction_digits _ hfeed) (by decide)
  rw [text_eq, fractionText]
  split <;> simp [hsign, hwhole, hfraction]

/-! ## Tokens and expectations -/

/-- A token that a text can have is told on one line. -/
theorem Token.Kind.oneLine_describe {d : Dialect} {kind : Token.Kind} (h : kind.IsLexical d) :
    OneLine kind.describe := by
  unfold describe
  split
  · rename_i word
    cases word <;> decide
  · rename_i name
    have hname : OneLine name := h.1.oneLine
    simp only [oneLine_append, hname, and_true]
    decide
  · rename_i s
    simp only [oneLine_append, oneLine_inspectString, and_true]
    decide
  · rename_i x
    obtain ⟨n, hn, htext, -⟩ := Double.exists_numeral (x := x) h
    have hnumber : OneLine (x.text .source) := by
      rw [Double.text, ← htext, oneLine_ofList]
      exact hn.oneLine
    simp only [oneLine_append, hnumber, and_true]
    decide
  · rename_i b
    cases b <;> decide
  · decide
  · rename_i m
    cases m <;> decide

theorem Expectation.oneLine_text (expected : Expectation) : OneLine expected.text := by
  cases expected with
  | mark m => cases m <;> decide
  | _ => decide

/-! ## Errors -/

/-- A fault is told on one line. Only two causes quote the text: a character is inspected, and a wrong
number has no characters but those of numbers and words. -/
theorem Fault.oneLine {d : Dialect} {cs : List Char} {cause : LexicalError.Cause}
    (h : Fault d cs cause) : OneLine cause.message := by
  have hquoted : ∀ {text : String}, OneLine text →
      OneLine (LexicalError.Cause.invalidNumber text).message := by
    intro text htext
    unfold LexicalError.Cause.message
    simp only [oneLine_append, htext, and_true]
    decide
  cases h with
  | string | comment | sign => decide
  | @word n tail rest longest goesOn parts =>
    have hnumber : '\n' ∉ n.text := longest.wellFormed.oneLine
    have htail : '\n' ∉ tail := fun hfeed => absurd (parts _ hfeed) (by decide)
    have hspelled : OneLine (String.ofList (n.text ++ tail)) := by
      rw [oneLine_ofList, List.mem_append, not_or]
      exact ⟨hnumber, htail⟩
    exact hquoted hspelled
  | @tooLarge n rest longest =>
    exact hquoted (oneLine_ofList.mpr longest.wellFormed.oneLine)
  | @character c =>
    have hopen : OneLine "unexpected character " := by decide
    exact oneLine_append.mpr ⟨hopen, oneLine_inspectChar c⟩

namespace Dialect

variable {d : Dialect} {options : Options} {source : String}

/-- A text without tokens has a fault, which the error tells. -/
theorem exists_fault_of_tokenize {error : LexicalError} (h : tokenize d source = .error error) :
    ∃ before here, (Cursor.ofString source).Reads before here ∧ here.position = error.position ∧
      Fault d here.rest error.cause := by
  obtain ⟨ts, last, hpasses, hlast⟩ := Cursor.tokensAfter_cases d [] (Cursor.ofString source)
  unfold tokenize Cursor.tokens at h
  rcases hlast with ⟨finish, -, hrun⟩ | ⟨error', next, hfailed, hrun⟩
  · rw [hrun] at h
    exact absurd h (by simp)
  · rw [hrun] at h
    obtain rfl := Except.error.inj h
    obtain ⟨passed, hpassed⟩ := hpasses.exists_reads
    obtain ⟨gap, here, hgap, -, hposition, hfault⟩ := Cursor.exists_fault_of_nextToken hfailed
    exact ⟨_, here, hpassed.trans hgap, hposition, hfault⟩

/-- Why a text has no tokens is told on one line. -/
theorem oneLine_of_tokenize {error : LexicalError} (h : tokenize d source = .error error) :
    OneLine error.message := by
  obtain ⟨before, here, -, -, hfault⟩ := exists_fault_of_tokenize h
  unfold LexicalError.message
  simp only [oneLine_append, hfault.oneLine, oneLine_position, and_true]
  decide

/-- What is found where reading stops is a token of the text, or its end. -/
theorem oneLine_found {tokens : Tokens} {stop : Stop} (htokens : tokenize d source = .ok tokens)
    (hread : (d.read options tokens.stream).result = .error stop) :
    OneLine (Token.describeNext stop.failure.place.next?) := by
  obtain ⟨⟨before, hbefore⟩, -⟩ := exists_after_stop hread
  have hlexical : Lexical d (before ++ stop.failure.place.kinds) := by
    rw [← hbefore.kinds]
    exact lexical_of_tokenize htokens
  rw [TokenStream.next?_eq_head?]
  cases hkinds : stop.failure.place.kinds with
  | nil => decide
  | cons kind kinds =>
    rw [hkinds, lexical_append, lexical_cons] at hlexical
    exact Token.Kind.oneLine_describe hlexical.2.1

/-- The error of a text is told on one line. -/
theorem oneLine_of_parse {e : ParseError} (h : d.parse options source = .error e) :
    OneLine e.message := by
  rcases parse_error_cases h with ⟨-, rfl⟩ | ⟨error, htokens, rfl⟩ |
    ⟨tokens, stop, htokens, hread, rfl⟩
  · unfold ParseError.message
    simp only [toString, oneLine_append, oneLine_repr, and_true]
    decide
  · have herror := oneLine_of_tokenize htokens
    unfold ParseError.message
    simp only [oneLine_append, herror, and_true]
    decide
  · have hfound := oneLine_found htokens hread
    obtain ⟨failure, reached⟩ := stop
    cases failure with
    | unexpected expected place =>
      have hplace : OneLine (Token.describeNext place.next?) := hfound
      unfold Stop.toError Failure.toError ParseError.message Mismatch.message
      simp only [oneLine_append, expected.oneLine_text, hplace, oneLine_position, and_true]
      decide
    | tooDeep place =>
      unfold Stop.toError Failure.toError ParseError.message
      simp only [toString, oneLine_append, oneLine_repr, oneLine_position, and_true]
      decide

end Dialect
end ObjectTransfer
