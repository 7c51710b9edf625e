import ObjectTransfer.Number.Layout

/-!
# JSON values

A JSON value is a tree. Whole numbers and others are kept apart, since counts are only read from
whole ones. The members of an object are kept in order.
-/

namespace ObjectTransfer

/-- A JSON value. -/
inductive Json where
  | null
  | boolean (value : Bool)
  | integer (value : Int)
  | number (value : Double)
  | string (value : String)
  | array (items : List Json)
  | object (members : List (String × Json))
deriving Inhabited

namespace Json

/-! ## Building values -/

/-- A count as a value. -/
def ofNat (n : Nat) : Json := .integer n

/-- A number as a value; JSON has none that is infinite or without a value. -/
def ofDouble (x : Double) : Json := if x.isFinite then .number x else .null

/-- A string that may be missing. -/
def ofString? (s : Option String) : Json := s.elim .null .string

/-- A list as a value. -/
def ofList {α : Type} (encode : α → Json) (items : List α) : Json := .array (items.map encode)

/-! ## Taking values apart -/

/-- The content of a string. -/
def string? : Json → Option String
  | .string s => some s
  | _ => none

/-- A truth value. -/
def boolean? : Json → Option Bool
  | .boolean b => some b
  | _ => none

/-- A count that fits into a word. -/
def natural? : Json → Option Nat
  | .integer n => if 0 ≤ n ∧ n < Nat.pow 2 64 then some n.toNat else none
  | _ => none

/-- The double nearest to a number. -/
def double? : Json → Option Double
  | .integer n => some (.ofRatio (n < 0) n.natAbs 1)
  | .number x => some x
  | _ => none

/-- The items of a list, each decoded. -/
def list? {α : Type} (decode : Json → Option α) : Json → Option (List α)
  | .array items => items.mapM decode
  | _ => none

/-- A value that may be missing or null. -/
def optional? {α : Type} (decode : Json → Option α) : Option Json → Option (Option α)
  | none => some none
  | some .null => some none
  | some value => some <$> decode value

/-- The value of the member with that name. -/
def lookup? (members : List (String × Json)) (name : String) : Option Json :=
  (members.find? (·.1 = name)).map (·.2)

/-- The values of the members of an object with the given names, those that are there. -/
def members? (names : List String) : Json → Option (List (Option Json))
  | .object members => some (names.map (lookup? members))
  | _ => none

/-- The values of a record with the given members, those that are there. A record may also be the
list of all its values. -/
def fields? (names : List String) : Json → Option (List (Option Json))
  | .array items => if items.length = names.length then some (items.map some) else none
  | json => json.members? names

/-- The only member of an object. A name alone stands for a member without a value. -/
def variant? : Json → Option (String × Json)
  | .string name => some (name, .null)
  | .object [member] => some member
  | _ => none

/-! ## Two ways of reading -/

/-- How freely names of kinds are read where they may be written in more than one way. -/
inductive Reading where
  | strict
  | lenient
deriving DecidableEq

/-- Whether a value stands for the absence of one: null does, and to a lenient reader also the
object without members. -/
def isAbsent (reading : Reading) : Json → Bool
  | .null => true
  | .object [] => reading = .lenient
  | _ => false

end Json
end ObjectTransfer
