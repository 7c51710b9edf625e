import ObjectTransfer.Phrase.Words

/-!
# Entries

An entry is a name with a literal value. Requests narrow down objects by entries, and the fields of
a response are entries.
-/

namespace ObjectTransfer

/-- A name with a literal value, and where both stand: a filter of a request or a field of a
response. -/
structure Entry where
  key : String
  value : Literal
  location : Location
deriving DecidableEq

/-- The value of the first entry with that key. -/
def Entry.lookup? (entries : List Entry) (key : String) : Option Literal :=
  (entries.find? (·.key = key)).map (·.value)

/-- An entry: its name and its value. -/
def Entry.text (e : Entry) : String := e.key ++ ": " ++ e.value.text

/-- Equal entries, with numbers compared as numbers. -/
def Entry.equals (a b : Entry) : Bool :=
  a.key = b.key && a.value.equals b.value && a.location = b.location

/-- Reads what follows the name of an entry, which stands at `start` in the text `source`. -/
def Entry.afterKey (source key : String) (start : Position) : Phrase Entry := do
  Phrase.mark .colon
  let value ← Phrase.literal
  return ⟨key, value, ← Phrase.locationFrom source start⟩

/-- Reads an entry in the text `source`; `expected` says what its name is the name of. -/
def Entry.phrase (source : String) (expected : Expectation) : Phrase Entry := do
  let start := (← Phrase.place).position
  let key ← Phrase.identifier expected
  Entry.afterKey source key start

end ObjectTransfer
