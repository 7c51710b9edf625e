import ObjectTransfer.Literal

/-!
# Schemas

A schema is a list of definitions in source order: models with typed attributes and actions, and
unions of string values. Types and parents are kept as written and not looked up.
-/

namespace ObjectTransfer.Schema

/-- A typed field of a model. -/
structure Attribute where
  name : String
  type : String
  /-- Neither marked as optional nor given a default. -/
  required : Bool
  default? : Option Literal
deriving DecidableEq

/-- A parameter of an action. -/
structure Parameter where
  name : String
  type : String
  optional : Bool
deriving DecidableEq

/-- An operation of a model. -/
structure Action where
  name : String
  parameters : List Parameter
  returnType : String
deriving DecidableEq

/-- A kind of object: its fields and its operations. -/
structure Model where
  name : String
  parent? : Option String
  attributes : List Attribute
  actions : List Action
deriving DecidableEq

/-- A closed set of string values, repetitions kept. -/
structure Union where
  name : String
  values : List String
deriving DecidableEq

/-- A definition of a schema. -/
inductive Definition where
  | model (model : Model)
  | union (union : Union)
deriving DecidableEq

/-- The definitions of a schema in source order. -/
abbrev Document := List Definition

/-- The attribute of that name, the first if there are several. -/
def Model.attribute? (m : Model) (name : String) : Option Attribute :=
  m.attributes.find? (·.name = name)

/-- The action of that name, the first if there are several. -/
def Model.action? (m : Model) (name : String) : Option Action :=
  m.actions.find? (·.name = name)

namespace Definition

/-- The name that is defined. -/
def name : Definition → String
  | .model m => m.name
  | .union u => u.name

/-- The model that is defined, if it is one. -/
def model? : Definition → Option Model
  | .model m => some m
  | .union _ => none

/-- The union that is defined, if it is one. -/
def union? : Definition → Option Union
  | .model _ => none
  | .union u => some u

end Definition

namespace Document

/-- The models of a schema. -/
def models (doc : Document) : List Model := doc.filterMap (·.model?)

/-- The unions of a schema. -/
def unions (doc : Document) : List Union := doc.filterMap (·.union?)

/-- The model of that name, the first if there are several. -/
def findModel? (doc : Document) (name : String) : Option Model :=
  (models doc).find? (·.name = name)

/-- The union of that name, the first if there are several. -/
def findUnion? (doc : Document) (name : String) : Option Union :=
  (unions doc).find? (·.name = name)

end Document

/-! ## Equality with numbers compared as numbers -/

/-- Equal attributes, with numbers compared as numbers. -/
def Attribute.equals (a b : Attribute) : Bool :=
  a.name = b.name && a.type = b.type && a.required = b.required &&
    match a.default?, b.default? with
    | some l, some m => l.equals m
    | none, none => true
    | _, _ => false

/-- Equal definitions, with numbers compared as numbers. -/
def Definition.equals : Definition → Definition → Bool
  | .model m, .model n =>
    m.name = n.name && m.parent? = n.parent? &&
      m.attributes.isEqv n.attributes Attribute.equals && m.actions = n.actions
  | .union u, .union v => u = v
  | _, _ => false

/-- Equal schemas, with numbers compared as numbers. -/
def Document.equals (doc other : Document) : Bool := doc.isEqv other Definition.equals

end ObjectTransfer.Schema
