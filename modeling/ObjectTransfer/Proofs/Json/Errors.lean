import ObjectTransfer.Json.Error
import ObjectTransfer.Proofs.Json.Documents

/-!
# Errors read back from JSON

Errors hold no numbers but counts, so every error whose counts fit into words is read back from what
it is written as (`ParseError.decode?_encode`).
-/

namespace ObjectTransfer

open Json (FitsWord fields?_object members?_object natural?_ofNat)

theorem LexicalError.Cause.decode?_encode (cause : Cause) : decode? cause.encode = some cause := by
  cases cause with
  | unterminatedString => rfl
  | unterminatedComment => rfl
  | unexpectedCharacter c =>
    have hsingle : singleChar? (String.ofList [c]) = some c := by
      unfold singleChar?
      rw [String.toList_ofList]
    show unexpectedCharacter <$> singleChar? (String.ofList [c]) = some (.unexpectedCharacter c)
    rw [hsingle]
    rfl
  | invalidNumber text => rfl

theorem LexicalError.decode?_of_fields {json cause position : Json}
    (h : json.fields? ["kind", "position"] = some [some cause, some position]) :
    decode? json = do return ⟨← Cause.decode? cause, ← Position.decode? position⟩ := by
  unfold decode?
  rw [h]
  rfl

theorem LexicalError.decode?_encode {e : LexicalError} (h : e.position.FitsWords) :
    decode? e.encode = some e := by
  have hfields : e.encode.fields? ["kind", "position"] =
      some [some e.cause.encode, some e.position.encode] := fields?_object [] _ rfl (by decide)
  rw [decode?_of_fields hfields, e.cause.decode?_encode, Position.decode?_encode h]
  rfl

theorem Mismatch.decode?_of_fields {json position : Json} {expected found : String}
    (h : json.fields? ["expected", "found", "position"] =
      some [some (.string expected), some (.string found), some position]) :
    decode? json = do return ⟨expected, found, ← Position.decode? position⟩ := by
  unfold decode?
  rw [h]
  rfl

theorem Mismatch.decode?_encode {m : Mismatch} (h : m.position.FitsWords) :
    decode? m.encode = some m := by
  have hfields : m.encode.fields? ["expected", "found", "position"] =
      some [some (.string m.expected), some (.string m.found), some m.position.encode] :=
    fields?_object [] _ rfl (by decide)
  rw [decode?_of_fields hfields, Position.decode?_encode h]
  rfl

namespace ParseError

/-- The counts in an error, apart from its position. -/
def counts : ParseError → List Nat
  | .lexical _ => []
  | .mismatch _ => []
  | .nestingTooDeep limit _ => [limit]
  | .inputTooLarge limit actual => [limit, actual]

/-- An error whose counts fit into words. -/
structure FitsWords (e : ParseError) : Prop where
  position : ∀ p ∈ e.position?, p.FitsWords
  counts : ∀ n ∈ e.counts, FitsWord n

theorem decode?_lexical (parts : Json) :
    decode? (.object [("Lex", parts)]) = lexical <$> LexicalError.decode? parts := rfl

theorem decode?_mismatch (parts : Json) :
    decode? (.object [("Syntax", parts)]) = mismatch <$> Mismatch.decode? parts := rfl

theorem decode?_nestingTooDeep {parts limit position : Json}
    (h : parts.members? ["limit", "position"] = some [some limit, some position]) :
    decode? (.object [("NestingTooDeep", parts)]) = do
      return .nestingTooDeep (← limit.natural?) (← Position.decode? position) := by
  unfold decode?
  dsimp only [Json.variant?, Option.bind_eq_bind, Option.bind_some]
  rw [h]
  rfl

theorem decode?_inputTooLarge {parts limit actual : Json}
    (h : parts.members? ["limit", "actual"] = some [some limit, some actual]) :
    decode? (.object [("InputTooLarge", parts)]) = do
      return .inputTooLarge (← limit.natural?) (← actual.natural?) := by
  unfold decode?
  dsimp only [Json.variant?, Option.bind_eq_bind, Option.bind_some]
  rw [h]
  rfl

theorem decode?_encode {e : ParseError} (h : e.FitsWords) : decode? e.encode = some e := by
  cases e with
  | lexical e =>
    rw [encode, kindName, parts, decode?_lexical, LexicalError.decode?_encode (h.position _ rfl)]
    rfl
  | mismatch m =>
    rw [encode, kindName, parts, decode?_mismatch, Mismatch.decode?_encode (h.position _ rfl)]
    rfl
  | nestingTooDeep limit position =>
    have hparts : (parts (.nestingTooDeep limit position)).members? ["limit", "position"] =
        some [some (.ofNat limit), some position.encode] := members?_object [] _ rfl (by decide)
    have hlimit := natural?_ofNat (h.counts limit List.mem_cons_self)
    rw [encode, kindName, decode?_nestingTooDeep hparts, hlimit,
      Position.decode?_encode (h.position position rfl)]
    rfl
  | inputTooLarge limit actual =>
    have hparts : (parts (.inputTooLarge limit actual)).members? ["limit", "actual"] =
        some [some (.ofNat limit), some (.ofNat actual)] := members?_object [] _ rfl (by decide)
    have hlimit := natural?_ofNat (h.counts limit List.mem_cons_self)
    have hactual := natural?_ofNat (h.counts actual (List.mem_cons_of_mem _ List.mem_cons_self))
    rw [encode, kindName, decode?_inputTooLarge hparts, hlimit, hactual]
    rfl

end ParseError
end ObjectTransfer
