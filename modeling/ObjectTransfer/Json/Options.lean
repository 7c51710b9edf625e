import ObjectTransfer.Json.Basic
import ObjectTransfer.Options.Basic

/-!
# Options as JSON

Options are a record. Read back, a member that is missing has its standard value, and a member of
any other name makes the record wrong.
-/

namespace ObjectTransfer.Options

/-- The members of options. -/
def memberNames : List String := ["source_name", "max_depth", "max_input_bytes"]

/-- Options as a record. -/
def encode (options : Options) : Json :=
  .object [("source_name", .string options.sourceName), ("max_depth", .ofNat options.maxDepth),
    ("max_input_bytes", .ofNat options.maxInputBytes)]

/-- The values of the members of options. A list may stop early. -/
def fields? : Json → Option (List (Option Json))
  | .object members =>
    if members.all fun member => memberNames.contains member.1 then
      (Json.object members).fields? memberNames
    else none
  | .array items =>
    if items.length ≤ memberNames.length then
      some (items.map some ++ List.replicate (memberNames.length - items.length) none)
    else none
  | _ => none

/-- A value that is standard if missing. -/
def orStandard? {α : Type} (decode : Json → Option α) (standard : α) (json? : Option Json) :
    Option α :=
  json?.elim (some standard) decode

/-- The options that a record holds. -/
def decode? (json : Json) : Option Options := do
  match ← fields? json with
  | [sourceName, maxDepth, maxInputBytes] =>
    return ⟨← orStandard? Json.string? standard.sourceName sourceName,
      ← orStandard? Json.natural? standard.maxDepth maxDepth,
      ← orStandard? Json.natural? standard.maxInputBytes maxInputBytes⟩
  | _ => none

end ObjectTransfer.Options
