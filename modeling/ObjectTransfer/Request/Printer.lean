import ObjectTransfer.Request.Basic

/-!
# Writing requests

The canonical text of a request is one line. A step always shows its parentheses, the model only if
it has filters.
-/

namespace ObjectTransfer.Request

/-- Filters in parentheses. -/
def filtersText (filters : List Entry) : String :=
  "(" ++ ", ".intercalate (filters.map (·.text)) ++ ")"

/-- A step from its dot on. -/
def Step.text (s : Step) : String := "." ++ s.relation ++ filtersText s.filters

/-- The canonical text of a request. -/
def text (r : Request) : String :=
  r.model ++ (if r.filters = [] then "" else filtersText r.filters) ++
    String.join (r.steps.map (·.text))

end ObjectTransfer.Request
