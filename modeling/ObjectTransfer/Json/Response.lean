import ObjectTransfer.Json.Literal
import ObjectTransfer.Response.Basic

/-!
# Responses as JSON

A response is a record of its parts.
-/

namespace ObjectTransfer.Response

/-- A response as a record. -/
def encode (r : Response) : Json :=
  .object [("type", .string r.type), ("fields", .ofList Entry.encode r.fields),
    ("location", r.location.encode)]

/-- The response that a record holds. -/
def decode? (json : Json) : Option Response := do
  match ← json.fields? ["type", "fields", "location"] with
  | [some type, some fields, some location] =>
    return ⟨← type.string?, ← fields.list? Entry.decode?, ← Location.decode? location⟩
  | _ => none

end ObjectTransfer.Response
