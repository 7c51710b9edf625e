import ObjectTransfer.Phrase.Reading
import ObjectTransfer.Request.Basic

/-!
# Reading requests

The phrases of the request notation. The filters of one step may end in a comma.
-/

namespace ObjectTransfer.Request

/-- Reads filters in parentheses. -/
def filtersPhrase (source : String) : Phrase (List Entry) := do
  Phrase.mark .openParen
  if ← Phrase.optionalMark .closeParen then return []
  let first ← Entry.phrase source .filterName
  let all ← Phrase.repeatWhile (fun kind => if kind = .mark .comma then some () else none)
    (fun seen () _ => do
      if (← Phrase.next?) = some (.mark .closeParen) then return seen
      else return (← Entry.phrase source .filterName) :: seen) [first]
  Phrase.mark .closeParen
  return all.reverse

/-- Reads filters in parentheses, if an opening parenthesis comes next. -/
def optionalFiltersPhrase (source : String) : Phrase (List Entry) := do
  if (← Phrase.next?) = some (.mark .openParen) then filtersPhrase source else return []

/-- Reads a step after its dot, which stands at `start`. -/
def Step.phrase (source : String) (start : Position) : Phrase Step := do
  let relation ← Phrase.identifier .relationName
  let narrowed ← optionalFiltersPhrase source
  return ⟨relation, narrowed, none, ← Phrase.locationFrom source start⟩

/-- Reads the model that a request starts from, and the filters on it. -/
def rootPhrase (source : String) : Phrase (String × List Entry) := do
  return (← Phrase.identifier .modelName, ← optionalFiltersPhrase source)

/-- Reads a request to the end of the text `source`. -/
def read (source : String) (s : TokenStream) : Reading Step Request :=
  match (rootPhrase source).run s with
  | .error stop => ⟨[], .error stop⟩
  | .ok ((model, narrowed), afterRoot) =>
    let (seen, ended) := Phrase.turns (fun kind => if kind = .mark .dot then some () else none)
      (fun seen () opening => do return (← Step.phrase source opening.position) :: seen)
      [] afterRoot
    { completed := seen.reverse
      result := do
        let place ← ended
        if place.rest = [] then
          return ⟨model, narrowed, seen.reverse, ⟨source, s.position, place.behind⟩⟩
        else throw ⟨.unexpected .endOfInput place, place⟩ }

end ObjectTransfer.Request
