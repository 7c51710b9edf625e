import ObjectTransfer.Entry
import ObjectTransfer.Json.Basic

/-!
# Literals, locations and entries as JSON

A literal is a record of its kind and its value; null has no value. A kind is read from its name or
from an object whose only member has that name and no value. Positions, locations and entries are
records of their parts.
-/

namespace ObjectTransfer

/-- A position as a record. -/
def Position.encode (p : Position) : Json :=
  .object [("offset", .ofNat p.offset), ("line", .ofNat p.line), ("column", .ofNat p.column)]

/-- The position that a record holds. -/
def Position.decode? (json : Json) : Option Position := do
  match ← json.fields? ["offset", "line", "column"] with
  | [some offset, some line, some column] =>
    return ⟨← offset.natural?, ← line.natural?, ← column.natural?⟩
  | _ => none

/-- A location as a record. -/
def Location.encode (l : Location) : Json :=
  .object [("source", .string l.source), ("start", l.start.encode), ("end", l.finish.encode)]

/-- The location that a record holds. -/
def Location.decode? (json : Json) : Option Location := do
  match ← json.fields? ["source", "start", "end"] with
  | [some source, some start, some finish] =>
    return ⟨← source.string?, ← Position.decode? start, ← Position.decode? finish⟩
  | _ => none

/-- The name of a kind of literal. -/
def Literal.Kind.name : Literal.Kind → String
  | .string => "String"
  | .number => "Number"
  | .boolean => "Boolean"
  | .null => "Null"

/-- The value of a literal, if it has one. -/
def Literal.value? : Literal → Option Json
  | .string s => some (.string s)
  | .number x => some (.ofDouble x)
  | .boolean b => some (.boolean b)
  | .null => none

/-- A literal as a record. -/
def Literal.encode (l : Literal) : Json :=
  .object (("kind", .string l.kind.name) :: (l.value?.map fun value => ("value", value)).toList)

/-- The kinds of literals, in the order of their numbers. -/
def Literal.Kind.all : List Literal.Kind := [.string, .number, .boolean, .null]

/-- The kind of that name. -/
def Literal.Kind.ofName? (name : String) : Option Literal.Kind := all.find? (·.name = name)

/-- The kind that the member of a record tells. -/
def Literal.Kind.ofMember? (reading : Json.Reading) (json : Json) : Option Literal.Kind := do
  let (name, content) ← json.variant?
  if content.isAbsent reading then ofName? name else none

/-- The kind that starts a list: its name, or to a lenient reader also its number. -/
def Literal.Kind.ofItem? (reading : Json.Reading) : Json → Option Literal.Kind
  | .string name => ofName? name
  | .integer n => if reading = .lenient ∧ 0 ≤ n then all[n.toNat]? else none
  | _ => none

/-- The literal of a kind with a value that may be missing. -/
def Literal.ofKind? : Literal.Kind → Option Json → Option Literal
  | .string, some value => .string <$> value.string?
  | .number, some value => .number <$> value.double?
  | .boolean, some value => .boolean <$> value.boolean?
  | .null, none => some .null
  | .null, some .null => some .null
  | _, _ => none

/-- The literal that a record holds, read in the given way. A list holds the kind and the value. -/
def Literal.decodeAs? (reading : Json.Reading) : Json → Option Literal
  | .object members => do
    let kind ← Kind.ofMember? reading (← Json.lookup? members "kind")
    ofKind? kind (Json.lookup? members "value")
  | .array [kind, value] => do ofKind? (← Kind.ofItem? reading kind) (some value)
  | _ => none

/-- The literal that a record holds. -/
def Literal.decode? (json : Json) : Option Literal := decodeAs? .strict json

/-- An entry as a record. -/
def Entry.encode (e : Entry) : Json :=
  .object [("key", .string e.key), ("value", e.value.encode), ("location", e.location.encode)]

/-- The entry that a record holds. -/
def Entry.decode? (json : Json) : Option Entry := do
  match ← json.fields? ["key", "value", "location"] with
  | [some key, some value, some location] =>
    return ⟨← key.string?, ← Literal.decode? value, ← Location.decode? location⟩
  | _ => none

end ObjectTransfer
