import ObjectTransfer.Json.Basic

/-!
# JSON text

A value is written either on one line without spaces, or with one item or member a line, each level
indented by two spaces.
-/

namespace ObjectTransfer.Json

/-- A character in a JSON string: quotes, backslashes and controls are escaped, all else stands for
itself. -/
def escapedChar (c : Char) : List Char :=
  if c = '"' || c = '\\' then ['\\', c]
  else if c = '\x08' then ['\\', 'b']
  else if c = '\x0c' then ['\\', 'f']
  else if c = '\n' then ['\\', 'n']
  else if c = '\r' then ['\\', 'r']
  else if c = '\t' then ['\\', 't']
  else if c.toNat < 0x20 then
    '\\' :: 'u' :: '0' :: '0' :: (c.toNat / 16).digitChar :: [(c.toNat % 16).digitChar]
  else [c]

/-- A string in JSON text. -/
def stringText (s : String) : String :=
  String.ofList ('"' :: s.toList.flatMap escapedChar ++ ['"'])

/-- A value without items or members in JSON text. -/
def leafText : Json → String
  | .boolean b => if b then "true" else "false"
  | .integer n => toString n
  | .number x => x.text .json
  | .string s => stringText s
  | _ => "null"

/-- The start of a line at the given depth. -/
def lineStart (depth : Nat) : String := String.ofList ('\n' :: List.replicate (2 * depth) ' ')

mutual

/-- A value on one line. -/
def compactText : Json → String
  | .array items => "[" ++ ",".intercalate (compactItems items) ++ "]"
  | .object members => "\x7b" ++ ",".intercalate (compactMembers members) ++ "\x7d"
  | leaf => leafText leaf

/-- The items of a list, each on one line. -/
def compactItems : List Json → List String
  | [] => []
  | item :: items => compactText item :: compactItems items

/-- The members of an object, each on one line. -/
def compactMembers : List (String × Json) → List String
  | [] => []
  | (name, value) :: members =>
    (stringText name ++ ":" ++ compactText value) :: compactMembers members

end

mutual

/-- A value that stands at the given depth, on several lines. -/
def indentedText (depth : Nat) : Json → String
  | .array [] => "[]"
  | .array (item :: items) =>
    "[" ++ ",".intercalate (indentedItems (depth + 1) (item :: items)) ++ lineStart depth ++ "]"
  | .object [] => "\x7b\x7d"
  | .object (member :: members) =>
    "\x7b" ++ ",".intercalate (indentedMembers (depth + 1) (member :: members)) ++
      lineStart depth ++ "\x7d"
  | leaf => leafText leaf

/-- Each item of a list on lines of its own. -/
def indentedItems (depth : Nat) : List Json → List String
  | [] => []
  | item :: items =>
    (lineStart depth ++ indentedText depth item) :: indentedItems depth items

/-- Each member of an object on lines of its own. -/
def indentedMembers (depth : Nat) : List (String × Json) → List String
  | [] => []
  | (name, value) :: members =>
    (lineStart depth ++ stringText name ++ ": " ++ indentedText depth value) ::
      indentedMembers depth members

end

end ObjectTransfer.Json
