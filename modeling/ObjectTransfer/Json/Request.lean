import ObjectTransfer.Json.Literal
import ObjectTransfer.Request.Basic

/-!
# Requests as JSON

Requests and their steps are records of their parts.
-/

namespace ObjectTransfer.Request

/-- A step as a record. -/
def Step.encode (s : Step) : Json :=
  .object [("relation", .string s.relation), ("filters", .ofList Entry.encode s.filters),
    ("method", .ofString? s.method?), ("location", s.location.encode)]

/-- The step that a record holds. -/
def Step.decode? (json : Json) : Option Step := do
  match ← json.fields? ["relation", "filters", "method", "location"] with
  | [some relation, some filters, method?, some location] =>
    return ⟨← relation.string?, ← filters.list? Entry.decode?,
      ← Json.optional? Json.string? method?, ← Location.decode? location⟩
  | _ => none

/-- A request as a record. -/
def encode (r : Request) : Json :=
  .object [("model", .string r.model), ("filters", .ofList Entry.encode r.filters),
    ("chain", .ofList Step.encode r.steps), ("location", r.location.encode)]

/-- The request that a record holds. -/
def decode? (json : Json) : Option Request := do
  match ← json.fields? ["model", "filters", "chain", "location"] with
  | [some model, some filters, some steps, some location] =>
    return ⟨← model.string?, ← filters.list? Entry.decode?, ← steps.list? Step.decode?,
      ← Location.decode? location⟩
  | _ => none

end ObjectTransfer.Request
