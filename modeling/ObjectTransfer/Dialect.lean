/-!
# The three notations and their reserved words

A schema declares models and unions of values, a request walks from a model along its relations, and
a response is one record. Only the schema reserves words.
-/

namespace ObjectTransfer

/-- One of the three notations. -/
inductive Dialect where
  | schema
  | request
  | response
deriving DecidableEq

/-- A reserved word. -/
inductive Keyword where
  /-- Opens a model. -/
  | modelWord
  /-- Names the parent of a model. -/
  | extendsWord
  /-- Opens a union of values. -/
  | typeWord
deriving DecidableEq

namespace Keyword

/-- The word itself. -/
def text : Keyword → String
  | .modelWord => "Model"
  | .extendsWord => "extends"
  | .typeWord => "type"

/-- All reserved words. -/
def all : List Keyword := [.modelWord, .extendsWord, .typeWord]

end Keyword

namespace Dialect

/-- The name of the notation. -/
def name : Dialect → String
  | .schema => "schema"
  | .request => "request"
  | .response => "response"

/-- All notations. -/
def all : List Dialect := [.schema, .request, .response]

/-- The notation of that name. -/
def ofName? (name : String) : Option Dialect := all.find? (·.name = name)

/-- The words that the notation reserves. -/
def keywords : Dialect → List Keyword
  | .schema => Keyword.all
  | .request => []
  | .response => []

/-- The reserved word spelled `word`, if the notation has it. Case counts. -/
def keyword? (d : Dialect) (word : String) : Option Keyword := d.keywords.find? (·.text = word)

end Dialect
end ObjectTransfer
