import ObjectTransfer.Phrase.Reading
import ObjectTransfer.Schema.Basic
import ObjectTransfer.Schema.TypeRef

/-!
# Reading schemas

The phrases of the schema notation. In a model all attributes come before all actions; an attribute
with a default is not required.
-/

namespace ObjectTransfer.Schema

/-- Reads the type of an attribute and what follows it, from the colon on. -/
def Attribute.phrase (depth : Nat) (name : String) : Phrase Attribute := do
  Phrase.mark .colon
  let type ← TypeRef.phrase depth
  let optional ← Phrase.optionalMark .question
  if ← Phrase.optionalMark .equals then
    return ⟨name, type.text, false, some (← Phrase.literalOrWord)⟩
  else return ⟨name, type.text, !optional, none⟩

/-- Reads a parameter. -/
def Parameter.phrase (depth : Nat) : Phrase Parameter := do
  let name ← Phrase.name .parameterName
  Phrase.mark .colon
  let type ← TypeRef.phrase depth
  return ⟨name, type.text, ← Phrase.optionalMark .question⟩

/-- Reads the parameters and the type of an action, from the opening parenthesis on. -/
def Action.phrase (depth : Nat) (name : String) : Phrase Action := do
  Phrase.mark .openParen
  let parameters ←
    if (← Phrase.next?) = some (.mark .closeParen) then pure []
    else Phrase.separatedBy .comma (Parameter.phrase depth)
  Phrase.mark .closeParen
  Phrase.mark .colon
  return ⟨name, parameters, (← TypeRef.phrase depth).text⟩

/-- The members of a model read so far, latest first. -/
structure Members where
  attributes : List Attribute
  actions : List Action

/-- Reads a member after its name, which `opening` starts with. -/
def Members.phrase (depth : Nat) (seen : Members) (name : String) (opening : TokenStream) :
    Phrase Members := do
  let next ← Phrase.next?
  if next = some (.mark .colon) then
    if seen.actions ≠ [] then Phrase.fail (.unexpected .action opening)
    else
      let field ← Attribute.phrase depth name
      Phrase.optionalTerminator
      return ⟨field :: seen.attributes, seen.actions⟩
  else if next = some (.mark .openParen) then
    let action ← Action.phrase depth name
    Phrase.optionalTerminator
    return ⟨seen.attributes, action :: seen.actions⟩
  else Phrase.expecting .memberShape

/-- Reads a model after its opening word. -/
def Model.phrase (depth : Nat) : Phrase Model := do
  let name ← Phrase.name .modelName
  let parent? ←
    if (← Phrase.next?) = some (.keyword .extendsWord) then
      Phrase.skip
      some <$> Phrase.name .parentName
    else pure none
  Phrase.mark .openBrace
  let members ← Phrase.repeatWhile Phrase.nameOf? (Members.phrase depth) ⟨[], []⟩
  Phrase.closeBrace .memberName
  return ⟨name, parent?, members.attributes.reverse, members.actions.reverse⟩

/-- Reads a union after its opening word. -/
def Union.phrase : Phrase Union := do
  let name ← Phrase.name .typeName
  Phrase.mark .equals
  let values ← Phrase.separatedBy .bar (Phrase.token .unionValue fun kind => match kind with
    | .literal (.string value) => some value
    | .identifier value => some value
    | _ => none)
  let _ ← Phrase.optionalMark .semicolon
  return ⟨name, values⟩

/-- What a definition can be. -/
inductive Definition.Kind where
  | model
  | union
deriving DecidableEq

/-- The kind of definition that a token opens. -/
def Definition.Kind.ofToken? : Token.Kind → Option Definition.Kind
  | .keyword .modelWord => some .model
  | .keyword .typeWord => some .union
  | _ => none

/-- Reads a definition after its opening word. -/
def Definition.phrase (depth : Nat) : Definition.Kind → Phrase Definition
  | .model => .model <$> Model.phrase depth
  | .union => .union <$> Union.phrase

/-- Reads the definitions of a schema to the end of the text. -/
def Document.read (depth : Nat) (s : TokenStream) : Reading Definition Document :=
  let (seen, ended) := Phrase.turns Definition.Kind.ofToken?
    (fun seen kind _ => do return (← Definition.phrase depth kind) :: seen) [] s
  { completed := seen.reverse
    result := do
      let place ← ended
      if place.rest = [] then return seen.reverse
      else throw ⟨.unexpected .declaration place, place⟩ }

end ObjectTransfer.Schema
