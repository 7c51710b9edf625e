import ObjectTransfer.Proofs.Entry
import ObjectTransfer.Request.Basic

/-!
# Derivations of requests

The grammar of requests, as trees. `kinds` are the tokens that a derivation spells, `toRequest` is
the request that it stands for, without locations.

    Request := identifier Filters? Step*
    Step    := '.' identifier Filters?
    Filters := '(' (Pair (',' Pair)* ','?)? ')'
    Pair    := identifier ':' literal
-/

namespace ObjectTransfer.Request

/-! ## Requests without locations -/

/-- The step without its locations. -/
def Step.erase (s : Step) : Step := ⟨s.relation, s.filters.map Entry.erase, s.method?, .erased⟩

/-- The request without its locations. -/
def erase (r : Request) : Request :=
  ⟨r.model, r.filters.map Entry.erase, r.steps.map Step.erase, .erased⟩

/-! ## Trees -/

open Phrase (separated optionalKinds optionalMarkKinds)

/-- Filters in parentheses. -/
inductive Derivation.Filters where
  | empty
  /-- The first filter, the others, and whether a comma follows the last. -/
  | filled (first : Pair) (others : List Pair) (trailing : Bool)

namespace Derivation.Filters

def pairs : Filters → List Pair
  | empty => []
  | filled first others _ => first :: others

def kinds : Filters → List Token.Kind
  | empty => [.mark .openParen, .mark .closeParen]
  | filled first others trailing =>
    .mark .openParen :: (separated .comma Pair.kinds first others ++
      (optionalMarkKinds .comma trailing ++ [.mark .closeParen]))

end Derivation.Filters

/-- The filters that may be left out. -/
def Derivation.pairs : Option Derivation.Filters → List Pair
  | none => []
  | some filters => filters.pairs

/-- One relation that a request walks along. -/
structure Derivation.Step where
  relation : String
  filters? : Option Derivation.Filters

namespace Derivation.Step

def kinds (t : Derivation.Step) : List Token.Kind :=
  .mark .dot :: .identifier t.relation :: optionalKinds Filters.kinds t.filters?

/-- No step has a verb. -/
def toStep (t : Derivation.Step) : Request.Step :=
  ⟨t.relation, (pairs t.filters?).map Pair.toEntry, none, .erased⟩

end Derivation.Step

/-- A request: the model and its filters, and the steps. -/
structure Derivation where
  model : String
  filters? : Option Derivation.Filters
  steps : List Derivation.Step

namespace Derivation

def kinds (t : Derivation) : List Token.Kind :=
  .identifier t.model :: (optionalKinds Filters.kinds t.filters? ++ t.steps.flatMap Step.kinds)

def toRequest (t : Derivation) : Request :=
  ⟨t.model, (pairs t.filters?).map Pair.toEntry, t.steps.map Step.toStep, .erased⟩

end Derivation
end ObjectTransfer.Request
