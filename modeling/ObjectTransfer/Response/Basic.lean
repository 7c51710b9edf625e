import ObjectTransfer.Entry

/-!
# Responses

A response is one record: the name of its type and its fields in source order.
-/

namespace ObjectTransfer

/-- A record of literal fields. -/
structure Response where
  type : String
  fields : List Entry
  location : Location
deriving DecidableEq

namespace Response

/-- The value of the field with that name, the first if there are several. -/
def field? (r : Response) (key : String) : Option Literal := Entry.lookup? r.fields key

/-- Equal responses, with numbers compared as numbers. -/
def equals (r s : Response) : Bool :=
  r.type = s.type && r.fields.isEqv s.fields Entry.equals && r.location = s.location

end Response
end ObjectTransfer
