import ObjectTransfer.Proofs.Phrase.Frames
import ObjectTransfer.Proofs.Request.Reading

/-!
# Steps that are completed

A request that is not read may have been read in part. If its model is named, the tokens in front of
the place where reading stops are a request by themselves, whose steps are those completed, at the
same places (`completedBefore`). No phrase of a request but the optional filters looks at a token
that it does not take, and these only look for a parenthesis.
-/

namespace ObjectTransfer

open Phrase

variable {Follow : Option Token.Kind → Prop} (source : String)

namespace Entry

end Entry

namespace Request

/-! ## Phrases that read the same -/

/-- The steps were completed when the reading of the tokens stopped. Without a model there are none.
Behind the model the filters on it stop, or behind the steps one more is begun and stops, or the text
goes on with something else. -/
inductive CompletedBefore (source : String) (tokens : Tokens) : List Step → Stop → Prop
  | model (first : ∀ name, tokens.stream.next? ≠ some (.identifier name)) :
    CompletedBefore source tokens [] ⟨.unexpected .modelName tokens.stream, tokens.stream⟩
  | filters {place : TokenStream} {stop : Stop}
    (before : tokens.ReadBefore place (fun s => (read source s).result) (·.steps = []))
    (next : place.next? = some (.mark .openParen))
    (fails : (filtersPhrase source).run place = .error stop) :
    CompletedBefore source tokens [] stop
  | step {steps : List Step} {place : TokenStream} {stop : Stop}
    (before : tokens.ReadBefore place (fun s => (read source s).result) (·.steps = steps))
    (next : place.next? = some (.mark .dot))
    (fails : (Step.phrase source place.position).run place.drop = .error stop) :
    CompletedBefore source tokens steps stop
  | endOfInput {steps : List Step} {place : TokenStream}
    (before : tokens.ReadBefore place (fun s => (read source s).result) (·.steps = steps))
    (next : place.next? ≠ some (.mark .dot)) (more : place.rest ≠ []) :
    CompletedBefore source tokens steps ⟨.unexpected .endOfInput place, place⟩

variable {source} {tokens : Tokens}

end Request
end ObjectTransfer
