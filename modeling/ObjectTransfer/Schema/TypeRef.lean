import ObjectTransfer.Phrase.Words

/-!
# References to types

A type reference is a name, possibly with arguments that are type references again. Its text has one
space after each comma and no other, so texts can be compared in place of references.
-/

namespace ObjectTransfer.Schema

/-- A type name and its arguments; a name that takes none has none. -/
inductive TypeRef where
  | mk (name : String) (arguments : List TypeRef)

namespace TypeRef

mutual

/-- The text of a reference. -/
def text : TypeRef → String
  | .mk name [] => name
  | .mk name (first :: others) =>
    name ++ "<" ++ ", ".intercalate (texts (first :: others)) ++ ">"

/-- The texts of several references. -/
def texts : List TypeRef → List String
  | [] => []
  | first :: others => first.text :: texts others

end

/-- Reads a reference that is nested at most `depth` deep. -/
def phrase : (depth : Nat) → Phrase TypeRef
  | 0 => do Phrase.fail (.tooDeep (← Phrase.place))
  | depth + 1 => do
    let name ← Phrase.name .typeName
    if ← Phrase.optionalMark .less then
      let arguments ← Phrase.separatedBy .comma (phrase depth)
      Phrase.mark .greater
      return .mk name arguments
    else return .mk name []

end TypeRef
end ObjectTransfer.Schema
