import ObjectTransfer.Proofs.Token.Scanning

/-!
# String literals

A string in source text can be told in two ways. Character by character, each that needs it is escaped;
or the whole string is gone over five times, once for each character that is escaped, the backslash
first so that no later backslash is doubled (`escapedInTurn_eq`). The literal is one line, and the
scanner reads the string back from it and stops right behind its closing quote, whatever follows
(`string_literal_scanned`). So no string literal is the start of another one.
-/

namespace ObjectTransfer

/-! ## Escaping in turn -/

/-- The text with every `c` replaced by `text`. -/
def replaceChar (c : Char) (text cs : List Char) : List Char :=
  cs.flatMap fun a => if a = c then text else [a]

/-- The text escaped by five replacements, each of which goes over all that the ones before it have
left. -/
def escapedInTurn (cs : List Char) : List Char :=
  replaceChar '\r' ['\\', 'r'] <| replaceChar '\t' ['\\', 't'] <| replaceChar '\n' ['\\', 'n'] <|
    replaceChar '"' ['\\', '"'] <| replaceChar '\\' ['\\', '\\'] cs

/-- Going over a text put together of pieces is going over the pieces. -/
theorem replaceChar_flatMap (c : Char) (text cs : List Char) (piece : Char → List Char) :
    replaceChar c text (cs.flatMap piece) = cs.flatMap fun a => replaceChar c text (piece a) :=
  List.flatMap_assoc

/-- One character, escaped in turn. -/
theorem escapedInTurn_singleton (a : Char) : escapedInTurn [a] = Literal.escapedChar a := by
  unfold Literal.escapedChar
  split_ifs with hbackslash hquote hfeed htab hreturn
  · subst hbackslash
    rfl
  · subst hquote
    rfl
  · subst hfeed
    rfl
  · subst htab
    rfl
  · subst hreturn
    rfl
  · simp [escapedInTurn, replaceChar, hbackslash, hquote, hfeed, htab, hreturn]

/-- Escaping in turn is escaping character by character. -/
theorem escapedInTurn_eq (cs : List Char) :
    escapedInTurn cs = cs.flatMap Literal.escapedChar := by
  have hpieces : escapedInTurn (cs.flatMap fun a => [a]) = cs.flatMap fun a => escapedInTurn [a] := by
    simp only [escapedInTurn, replaceChar_flatMap]
  rw [List.flatMap_singleton'] at hpieces
  rw [hpieces]
  exact congrArg cs.flatMap (funext escapedInTurn_singleton)

/-! ## One line -/

/-- What breaks a line or moves to a tab stop is not in an escaped text. -/
theorem not_mem_escapedChar {a : Char} :
    ∀ c ∈ Literal.escapedChar a, c ≠ '\n' ∧ c ≠ '\r' ∧ c ≠ '\t' := by
  unfold Literal.escapedChar
  split_ifs with hbackslash hquote hfeed htab hreturn
  · simp
  · simp
  · simp
  · simp
  · simp
  · exact List.forall_mem_singleton.mpr ⟨hfeed, hreturn, htab⟩

theorem toList_quote (s : String) :
    (Literal.quote s).toList = '"' :: (s.toList.flatMap Literal.escapedChar ++ ['"']) := by
  simp [Literal.quote]

theorem not_mem_quote (s : String) :
    ∀ c ∈ (Literal.quote s).toList, c ≠ '\n' ∧ c ≠ '\r' ∧ c ≠ '\t' := by
  have hbare : '"' ≠ '\n' ∧ '"' ≠ '\r' ∧ '"' ≠ '\t' := by decide
  rw [toList_quote]
  refine List.forall_mem_cons.mpr ⟨hbare, List.forall_mem_append.mpr ⟨?_, ?_⟩⟩
  · intro c hc
    obtain ⟨a, -, ha⟩ := List.mem_flatMap.mp hc
    exact not_mem_escapedChar c ha
  · exact List.forall_mem_singleton.mpr hbare

/-! ## Read back -/

theorem nextToken_quote (d : Dialect) (s r : String) (p : Position) :
    Cursor.nextToken d ⟨(Literal.quote s ++ r).toList, p⟩ =
      .token ⟨.literal (.string s), p, p.advanceBy (Literal.quote s).toList⟩
        ⟨r.toList, p.advanceBy (Literal.quote s).toList⟩ := by
  rw [String.toList_append]
  exact Cursor.nextToken_of_scan (Cursor.scan_quote d s r.toList p)

/-- What follows a string literal does not belong to it: the literal and the rest are told apart. -/
theorem quote_append_inj {s s' r r' : String}
    (h : Literal.quote s ++ r = Literal.quote s' ++ r') : s = s' ∧ r = r' := by
  have hscan := nextToken_quote .schema s r .start
  rw [h, nextToken_quote .schema s' r' .start] at hscan
  injection hscan with htoken hnext
  constructor
  · have hkind := congrArg Token.kind htoken
    simpa using hkind.symm
  · exact String.toList_injective (congrArg Cursor.rest hnext).symm

/-- The literal of any string is one line, escaped by five replacements. In front of anything it is
scanned as the string, up to its closing quote, so no literal is the start of another one. -/
theorem string_literal_scanned (s : String) :
    escapedInTurn s.toList = s.toList.flatMap Literal.escapedChar ∧
    (Literal.string s).text = String.ofList ('"' :: escapedInTurn s.toList ++ ['"']) ∧
    (∀ c ∈ (Literal.string s).text.toList, c ≠ '\n' ∧ c ≠ '\r' ∧ c ≠ '\t') ∧
    (∀ d p r, Cursor.nextToken d ⟨((Literal.string s).text ++ r).toList, p⟩ =
      .token ⟨.literal (.string s), p, p.advanceBy (Literal.string s).text.toList⟩
        ⟨r.toList, p.advanceBy (Literal.string s).text.toList⟩) ∧
    ∀ s' r r', (Literal.string s).text ++ r = (Literal.string s').text ++ r' → s = s' ∧ r = r' := by
  have hescaped := escapedInTurn_eq s.toList
  refine ⟨hescaped, ?_, not_mem_quote s, fun d p r => nextToken_quote d s r p,
    fun s' r r' => quote_append_inj⟩
  rw [hescaped]
  rfl

/-- A backslash in front of the letter of an escape is not read as the escape. -/
example : Literal.quote "\\n\"" = "\"\\\\n\\\"\"" ∧ escapedInTurn "\\n".toList = "\\\\n".toList := by
  decide

end ObjectTransfer
