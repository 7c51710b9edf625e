import ObjectTransfer.Response.Basic

/-!
# Writing responses

The canonical text of a response has one field a line and no mark after a field.
-/

namespace ObjectTransfer.Response

/-- The line of a field. -/
def fieldLine (field : Entry) : String := "    " ++ field.text ++ "\n"

/-- The canonical text of a response. -/
def text (r : Response) : String :=
  let body := if r.fields = [] then "" else "\n" ++ String.join (r.fields.map fieldLine)
  r.type ++ " \x7b" ++ body ++ "\x7d\n"

end ObjectTransfer.Response
