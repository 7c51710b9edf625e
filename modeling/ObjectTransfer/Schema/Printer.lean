import ObjectTransfer.Schema.Basic

/-!
# Writing schemas

The canonical text of a schema: one member a line, definitions separated by empty lines, and no mark
that reading would not need. A default shows that its attribute is not required, so no question mark
stands beside it.
-/

namespace ObjectTransfer.Schema

/-- An attribute on its line. -/
def Attribute.text (a : Attribute) : String :=
  a.name ++ ": " ++ a.type ++
    match a.default? with
    | some value => " = " ++ value.text
    | none => if a.required then "" else "?"

/-- A parameter in its list. -/
def Parameter.text (p : Parameter) : String :=
  p.name ++ ": " ++ p.type ++ if p.optional then "?" else ""

/-- An action on its line. -/
def Action.text (a : Action) : String :=
  a.name ++ "(" ++ ", ".intercalate (a.parameters.map (·.text)) ++ "): " ++ a.returnType

/-- The line of a member. -/
def memberLine (text : String) : String := "    " ++ text ++ "\n"

/-- A model with a line for each member. -/
def Model.text (m : Model) : String :=
  let members := m.attributes.map (·.text) ++ m.actions.map (·.text)
  let body := if members = [] then "" else "\n" ++ String.join (members.map memberLine)
  let parent := match m.parent? with
    | some parent => " extends " ++ parent
    | none => ""
  "Model " ++ m.name ++ parent ++ " \x7b" ++ body ++ "\x7d\n"

/-- A union on its line. -/
def Union.text (u : Union) : String :=
  "type " ++ u.name ++ " = " ++ " | ".intercalate (u.values.map Literal.quote) ++ "\n"

/-- A definition on lines of its own. -/
def Definition.text : Definition → String
  | .model m => m.text
  | .union u => u.text

/-- The canonical text of a schema. -/
def Document.text (doc : Document) : String := "\n".intercalate (doc.map (·.text))

end ObjectTransfer.Schema
