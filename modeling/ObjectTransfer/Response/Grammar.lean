import ObjectTransfer.Phrase.Reading
import ObjectTransfer.Response.Basic

/-!
# Reading responses

The phrases of the response notation. A field may end in a semicolon or a comma.
-/

namespace ObjectTransfer.Response

/-- The name of a field that a token opens. -/
def fieldName? : Token.Kind → Option String
  | .identifier key => some key
  | _ => none

/-- Reads the fields of a record, each with the mark that may end it. -/
def fieldsPhrase (source : String) : Phrase (List Entry) := do
  let seen ← Phrase.repeatWhile fieldName?
    (fun seen key opening => do
      let entry ← Entry.afterKey source key opening.position
      Phrase.optionalTerminator
      return entry :: seen) []
  return seen.reverse

/-- Reads a record in the text `source`. -/
def phrase (source : String) : Phrase Response := do
  let start := (← Phrase.place).position
  let type ← Phrase.identifier .responseTypeName
  Phrase.mark .openBrace
  let entries ← fieldsPhrase source
  Phrase.closeBrace .fieldName
  Phrase.endOfInput
  return ⟨type, entries, ← Phrase.locationFrom source start⟩

/-- Reads a record to the end of the text `source`; it has no items of its own. -/
def read (source : String) (s : TokenStream) : Reading Empty Response :=
  ⟨[], (·.1) <$> (phrase source).run s⟩

end ObjectTransfer.Response
