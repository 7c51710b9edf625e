import ObjectTransfer.Outline.Basic
import ObjectTransfer.Request.Basic
import ObjectTransfer.Response.Basic
import ObjectTransfer.Schema.Basic

/-!
# Outlines of documents

How literals, locations and the documents of the three notations are shown for inspection.
-/

namespace ObjectTransfer

/-- A text as a part. -/
def Outline.ofString (s : String) : Outline := .leaf (inspectString s)

/-- The outline of a position. -/
def Position.outline (p : Position) : Outline :=
  .record "Position"
    [("offset", .ofNat p.offset), ("line", .ofNat p.line), ("column", .ofNat p.column)]

/-- The outline of a location. -/
def Location.outline (l : Location) : Outline :=
  .record "Location"
    [("source", .ofString l.source), ("start", l.start.outline), ("end", l.finish.outline)]

/-- The outline of a literal. -/
def Literal.outline : Literal → Outline
  | .string s => .tuple "String" [.ofString s]
  | .number x => .tuple "Number" [.leaf (x.text .inspection)]
  | .boolean b => .tuple "Boolean" [.ofBool b]
  | .null => .leaf "Null"

/-- The outline of an entry that is called `name`. -/
def Entry.outline (name : String) (e : Entry) : Outline :=
  .record name
    [("key", .ofString e.key), ("value", e.value.outline), ("location", e.location.outline)]

namespace Schema

/-- The outline of an attribute. -/
def Attribute.outline (a : Attribute) : Outline :=
  .record "AttributeNode"
    [("name", .ofString a.name), ("type_name", .ofString a.type),
      ("required", .ofBool a.required), ("default", .ofOption Literal.outline a.default?)]

/-- The outline of a parameter. -/
def Parameter.outline (p : Parameter) : Outline :=
  .record "ParamNode"
    [("name", .ofString p.name), ("type_name", .ofString p.type),
      ("optional", .ofBool p.optional)]

/-- The outline of an action. -/
def Action.outline (a : Action) : Outline :=
  .record "ActionNode"
    [("name", .ofString a.name), ("params", .list (a.parameters.map (·.outline))),
      ("return_type", .ofString a.returnType)]

/-- The outline of a model. -/
def Model.outline (m : Model) : Outline :=
  .record "ModelDefinition"
    [("name", .ofString m.name), ("extends", .ofOption Outline.ofString m.parent?),
      ("attributes", .list (m.attributes.map (·.outline))),
      ("actions", .list (m.actions.map (·.outline)))]

/-- The outline of a union. -/
def Union.outline (u : Union) : Outline :=
  .record "UnionTypeDefinition"
    [("name", .ofString u.name), ("values", .list (u.values.map Outline.ofString))]

/-- The outline of a definition. -/
def Definition.outline : Definition → Outline
  | .model m => .tuple "ModelDefinition" [m.outline]
  | .union u => .tuple "UnionTypeDefinition" [u.outline]

/-- The outline of a schema. -/
def Document.outline (doc : Document) : Outline := .list (doc.map (·.outline))

end Schema

/-- The outline of a step of a request. -/
def Request.Step.outline (s : Step) : Outline :=
  .record "RequestChain"
    [("relation", .ofString s.relation),
      ("filters", .list (s.filters.map (Entry.outline "RequestFilter"))),
      ("method", .ofOption Outline.ofString s.method?), ("location", s.location.outline)]

/-- The outline of a request. -/
def Request.outline (r : Request) : Outline :=
  .record "RequestAst"
    [("model", .ofString r.model),
      ("filters", .list (r.filters.map (Entry.outline "RequestFilter"))),
      ("chain", .list (r.steps.map (·.outline))), ("location", r.location.outline)]

/-- The outline of a response. -/
def Response.outline (r : Response) : Outline :=
  .record "ResponseAst"
    [("type_name", .ofString r.type),
      ("fields", .list (r.fields.map (Entry.outline "ResponseField"))),
      ("location", r.location.outline)]

end ObjectTransfer
