import ObjectTransfer.Entry

/-!
# Requests

A request starts from a model and walks along relations step by step. The model and every step may
be narrowed down by filters.
-/

namespace ObjectTransfer

/-- One relation that a request walks along. -/
structure Request.Step where
  relation : String
  filters : List Entry
  /-- A verb for the step; the notation has no way to write one. -/
  method? : Option String
  location : Location
deriving DecidableEq

/-- A walk along relations from a model. -/
structure Request where
  model : String
  /-- The filters on the model itself. -/
  filters : List Entry
  steps : List Request.Step
  location : Location
deriving DecidableEq

namespace Request

/-- The value of the filter on the model with that name, the first if there are several. -/
def filter? (r : Request) (key : String) : Option Literal := Entry.lookup? r.filters key

/-- The step along that relation, the first if there are several. -/
def step? (r : Request) (relation : String) : Option Step :=
  r.steps.find? (·.relation = relation)

/-- The value of the filter on the step with that name, the first if there are several. -/
def Step.filter? (s : Step) (key : String) : Option Literal := Entry.lookup? s.filters key

/-- Equal steps, with numbers compared as numbers. -/
def Step.equals (s t : Step) : Bool :=
  s.relation = t.relation && s.filters.isEqv t.filters Entry.equals && s.method? = t.method? &&
    s.location = t.location

/-- Equal requests, with numbers compared as numbers. -/
def equals (r s : Request) : Bool :=
  r.model = s.model && r.filters.isEqv s.filters Entry.equals &&
    r.steps.isEqv s.steps Step.equals && r.location = s.location

end Request
end ObjectTransfer
