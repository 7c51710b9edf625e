import ObjectTransfer.Json.Literal
import ObjectTransfer.Schema.Basic

/-!
# Schemas as JSON

A schema is a list of records. What a definition defines is told by the member `type`, beside the
parts of the definition itself. The default of an attribute is read leniently.
-/

namespace ObjectTransfer.Schema

/-- An attribute as a record. -/
def Attribute.encode (a : Attribute) : Json :=
  .object [("name", .string a.name), ("type", .string a.type), ("required", .boolean a.required),
    ("default", a.default?.elim .null Literal.encode)]

/-- The attribute that a record holds. -/
def Attribute.decode? (json : Json) : Option Attribute := do
  match ← json.fields? ["name", "type", "required", "default"] with
  | [some name, some type, some required, default?] =>
    return ⟨← name.string?, ← type.string?, ← required.boolean?,
      ← Json.optional? (Literal.decodeAs? .lenient) default?⟩
  | _ => none

/-- A parameter as a record. -/
def Parameter.encode (p : Parameter) : Json :=
  .object [("name", .string p.name), ("type", .string p.type), ("optional", .boolean p.optional)]

/-- The parameter that a record holds. -/
def Parameter.decode? (json : Json) : Option Parameter := do
  match ← json.fields? ["name", "type", "optional"] with
  | [some name, some type, some optional] =>
    return ⟨← name.string?, ← type.string?, ← optional.boolean?⟩
  | _ => none

/-- An action as a record. -/
def Action.encode (a : Action) : Json :=
  .object [("name", .string a.name), ("params", .ofList Parameter.encode a.parameters),
    ("returnType", .string a.returnType)]

/-- The action that a record holds. -/
def Action.decode? (json : Json) : Option Action := do
  match ← json.fields? ["name", "params", "returnType"] with
  | [some name, some parameters, some returnType] =>
    return ⟨← name.string?, ← parameters.list? Parameter.decode?, ← returnType.string?⟩
  | _ => none

/-- The parts of a model. -/
def Model.members (m : Model) : List (String × Json) :=
  [("name", .string m.name), ("extends", .ofString? m.parent?),
    ("attributes", .ofList Attribute.encode m.attributes),
    ("actions", .ofList Action.encode m.actions)]

/-- The model that a record holds. -/
def Model.decode? (json : Json) : Option Model := do
  match ← json.fields? ["name", "extends", "attributes", "actions"] with
  | [some name, parent?, some attributes, some actions] =>
    return ⟨← name.string?, ← Json.optional? Json.string? parent?,
      ← attributes.list? Attribute.decode?, ← actions.list? Action.decode?⟩
  | _ => none

/-- The parts of a union. -/
def Union.members (u : Union) : List (String × Json) :=
  [("name", .string u.name), ("values", .ofList .string u.values)]

/-- The union that a record holds. -/
def Union.decode? (json : Json) : Option Union := do
  match ← json.fields? ["name", "values"] with
  | [some name, some values] => return ⟨← name.string?, ← values.list? Json.string?⟩
  | _ => none

/-- A definition as a record. -/
def Definition.encode : Definition → Json
  | .model m => .object (("type", .string "ModelDefinition") :: m.members)
  | .union u => .object (("type", .string "UnionTypeDefinition") :: u.members)

/-- The definition of the given kind that a record holds. -/
def Definition.decodeAs? (kind : String) (json : Json) : Option Definition :=
  if kind = "ModelDefinition" then .model <$> Model.decode? json
  else if kind = "UnionTypeDefinition" then .union <$> Union.decode? json
  else none

/-- The definition that a record holds. A list starts with the kind. -/
def Definition.decode? : Json → Option Definition
  | .object members => do
    decodeAs? (← (← Json.lookup? members "type").string?) (.object members)
  | .array (kind :: items) => do decodeAs? (← kind.string?) (.array items)
  | _ => none

/-- A schema as a list of records. -/
def Document.encode (doc : Document) : Json := .ofList Definition.encode doc

/-- The schema that a list of records holds. -/
def Document.decode? (json : Json) : Option Document := json.list? Definition.decode?

end ObjectTransfer.Schema
