/-!
# Outlines

An outline shows a value for inspection as a tree of named parts: on one line, or with one part a
line, each level indented by four spaces.
-/

namespace ObjectTransfer

/-- A tree of named parts. -/
inductive Outline where
  /-- A value without parts. -/
  | leaf (text : String)
  /-- A named value with parts in order. -/
  | tuple (name : String) (items : List Outline)
  /-- A named value with parts of their own names. -/
  | record (name : String) (fields : List (String × Outline))
  /-- A list. -/
  | list (items : List Outline)

namespace Outline

/-- An optional value. -/
def ofOption {α : Type} (outline : α → Outline) : Option α → Outline
  | none => .leaf "None"
  | some a => .tuple "Some" [outline a]

/-- A count. -/
def ofNat (n : Nat) : Outline := .leaf (toString n)

/-- A truth value. -/
def ofBool (b : Bool) : Outline := .leaf (if b then "true" else "false")

mutual

/-- An outline on one line. -/
def line : Outline → String
  | .leaf text => text
  | .tuple name items => name ++ "(" ++ ", ".intercalate (itemLines items) ++ ")"
  | .record name fields => name ++ " \x7b " ++ ", ".intercalate (fieldLines fields) ++ " \x7d"
  | .list items => "[" ++ ", ".intercalate (itemLines items) ++ "]"

/-- Parts in order, each on one line. -/
def itemLines : List Outline → List String
  | [] => []
  | item :: items => item.line :: itemLines items

/-- Named parts, each on one line. -/
def fieldLines : List (String × Outline) → List String
  | [] => []
  | (name, value) :: fields => (name ++ ": " ++ value.line) :: fieldLines fields

end

/-- The indentation at a depth. -/
def indent (depth : Nat) : String := String.ofList (List.replicate (4 * depth) ' ')

mutual

/-- An outline that starts at the given depth, with one part a line. -/
def block (depth : Nat) : Outline → String
  | .leaf text => text
  | .tuple name items =>
    name ++ "(\n" ++ String.join (itemBlocks (depth + 1) items) ++ indent depth ++ ")"
  | .record name fields =>
    name ++ " \x7b\n" ++ String.join (fieldBlocks (depth + 1) fields) ++ indent depth ++ "\x7d"
  | .list [] => "[]"
  | .list (item :: items) =>
    "[\n" ++ String.join (itemBlocks (depth + 1) (item :: items)) ++ indent depth ++ "]"

/-- Parts in order, each on lines of its own. -/
def itemBlocks (depth : Nat) : List Outline → List String
  | [] => []
  | item :: items => (indent depth ++ item.block depth ++ ",\n") :: itemBlocks depth items

/-- Named parts, each on lines of its own. -/
def fieldBlocks (depth : Nat) : List (String × Outline) → List String
  | [] => []
  | (name, value) :: fields =>
    (indent depth ++ name ++ ": " ++ value.block depth ++ ",\n") :: fieldBlocks depth fields

end

end Outline
end ObjectTransfer
