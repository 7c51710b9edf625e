import ObjectTransfer.Proofs.Phrase.Words
import ObjectTransfer.Schema.Grammar

/-!
# Derivations of schemas

The grammar of schemas, as trees. A derivation has a node for each rule that is used and a field for
each choice the rule leaves: which optional marks are written, which of two spellings a name, a
default or a value has. `kinds` are the tokens that a derivation spells, `toSchema` is the part of a
schema that it stands for.

    Document   := (Model | Union)*
    Model      := 'Model' Name ('extends' Name)? '{' Attribute* Action* '}'
    Attribute  := Name ':' TypeTree '?'? ('=' Default)? Terminator?
    Action     := Name '(' (Parameter (',' Parameter)*)? ')' ':' TypeTree Terminator?
    Parameter  := Name ':' TypeTree '?'?
    Union      := 'type' Name '=' Value ('|' Value)* ';'?
    TypeTree   := Name ('<' TypeTree (',' TypeTree)* '>')?
    Name       := identifier | reserved word
    Value      := string | identifier
    Default    := string | number | truth value | null | identifier
    Terminator := ';' | ','
-/

namespace ObjectTransfer.Schema.Derivation

open Phrase (separated optionalKinds optionalMarkKinds Terminator terminatorKinds)

/-- A name: an identifier, or a reserved word that names something here. -/
inductive Name where
  | identifier (name : String)
  | reserved (word : Keyword)

namespace Name

def kind : Name → Token.Kind
  | identifier name => .identifier name
  | reserved word => .keyword word

def text : Name → String
  | identifier name => name
  | reserved word => word.text

end Name

/-- A type: a name and its arguments in angle brackets, which are not written if there are none. -/
inductive TypeTree where
  | mk (name : Name) (arguments : List TypeTree)

/-- The arguments of a type in angle brackets, each given by its tokens. -/
def angled : List (List Token.Kind) → List Token.Kind
  | [] => []
  | first :: others =>
    .mark .less :: separated .comma id first others ++ [.mark .greater]

namespace TypeTree

mutual

def kinds : TypeTree → List Token.Kind
  | mk name arguments => name.kind :: angled (kindsOfEach arguments)

def kindsOfEach : List TypeTree → List (List Token.Kind)
  | [] => []
  | first :: others => first.kinds :: kindsOfEach others

end

mutual

/-- The reference that a type stands for. -/
def ref : TypeTree → TypeRef
  | mk name arguments => .mk name.text (refs arguments)

def refs : List TypeTree → List TypeRef
  | [] => []
  | first :: others => first.ref :: refs others

end

mutual

/-- How deep a type is nested: a name without arguments is one deep. -/
def depth : TypeTree → Nat
  | mk _ arguments => depthOfAll arguments + 1

def depthOfAll : List TypeTree → Nat
  | [] => 0
  | first :: others => max first.depth (depthOfAll others)

end

end TypeTree

/-- A default value: a literal, or a bare word that is read as a string. -/
inductive Default where
  | literal (value : Literal)
  | word (name : String)

namespace Default

def kind : Default → Token.Kind
  | literal value => .literal value
  | word name => .identifier name

def value : Default → Literal
  | literal value => value
  | word name => .string name

end Default

/-- The tokens of a default that may be left out. -/
abbrev defaultKinds : Option Default → List Token.Kind :=
  optionalKinds fun d => [.mark .equals, d.kind]

/-- A field of a model. -/
structure Attribute where
  name : Name
  type : TypeTree
  /-- Whether a question mark follows the type. -/
  marked : Bool
  default? : Option Default
  terminator? : Option Terminator

namespace Attribute

def kinds (a : Attribute) : List Token.Kind :=
  a.name.kind :: .mark .colon :: (a.type.kinds ++ (optionalMarkKinds .question a.marked ++
    (defaultKinds a.default? ++ terminatorKinds a.terminator?)))

/-- An attribute is required if it has neither a question mark nor a default. -/
def toSchema (a : Attribute) : Schema.Attribute :=
  ⟨a.name.text, a.type.ref.text, !a.marked && a.default?.isNone, a.default?.map Default.value⟩

end Attribute

/-- A parameter of an action. -/
structure Parameter where
  name : Name
  type : TypeTree
  marked : Bool

namespace Parameter

def kinds (p : Parameter) : List Token.Kind :=
  p.name.kind :: .mark .colon :: (p.type.kinds ++ optionalMarkKinds .question p.marked)

def toSchema (p : Parameter) : Schema.Parameter := ⟨p.name.text, p.type.ref.text, p.marked⟩

end Parameter

/-- The tokens of parameters, without their parentheses. -/
def parametersKinds : List Parameter → List Token.Kind
  | [] => []
  | first :: others => separated .comma Parameter.kinds first others

/-- An operation of a model. -/
structure Action where
  name : Name
  parameters : List Parameter
  returnType : TypeTree
  terminator? : Option Terminator

namespace Action

def kinds (a : Action) : List Token.Kind :=
  a.name.kind :: .mark .openParen :: (parametersKinds a.parameters ++ .mark .closeParen ::
    .mark .colon :: (a.returnType.kinds ++ terminatorKinds a.terminator?))

def toSchema (a : Action) : Schema.Action :=
  ⟨a.name.text, a.parameters.map Parameter.toSchema, a.returnType.ref.text⟩

end Action

/-- The tokens of a parent that may be left out. -/
abbrev parentKinds : Option Name → List Token.Kind :=
  optionalKinds fun parent => [.keyword .extendsWord, parent.kind]

/-- A model: all its attributes, then all its actions. -/
structure Model where
  name : Name
  parent? : Option Name
  attributes : List Attribute
  actions : List Action

namespace Model

def kinds (m : Model) : List Token.Kind :=
  .keyword .modelWord :: m.name.kind :: (parentKinds m.parent? ++ .mark .openBrace ::
    (m.attributes.flatMap Attribute.kinds ++ (m.actions.flatMap Action.kinds ++
      [.mark .closeBrace])))

def toSchema (m : Model) : Schema.Model :=
  ⟨m.name.text, m.parent?.map Name.text, m.attributes.map Attribute.toSchema,
    m.actions.map Action.toSchema⟩

end Model

/-- A value of a union: a string or a bare word. -/
inductive Value where
  | string (content : String)
  | word (name : String)

namespace Value

def kind : Value → Token.Kind
  | string content => .literal (.string content)
  | word name => .identifier name

def text : Value → String
  | string content => content
  | word name => name

end Value

/-- A union: its first value and the others. -/
structure Union where
  name : Name
  first : Value
  others : List Value
  /-- Whether a semicolon ends the union. -/
  ended : Bool

namespace Union

def kinds (u : Union) : List Token.Kind :=
  .keyword .typeWord :: u.name.kind :: .mark .equals ::
    (separated .bar (fun v => [Value.kind v]) u.first u.others ++
      optionalMarkKinds .semicolon u.ended)

def toSchema (u : Union) : Schema.Union := ⟨u.name.text, (u.first :: u.others).map Value.text⟩

end Union

/-- A definition of a schema. -/
inductive Definition where
  | model (m : Model)
  | union (u : Union)

namespace Definition

def kinds : Definition → List Token.Kind
  | model m => m.kinds
  | union u => u.kinds

def toSchema : Definition → Schema.Definition
  | model m => .model m.toSchema
  | union u => .union u.toSchema

end Definition

/-- A schema: any number of definitions. -/
abbrev Document := List Definition

namespace Document

def kinds (doc : Document) : List Token.Kind := doc.flatMap Definition.kinds

def toSchema (doc : Document) : Schema.Document := doc.map Definition.toSchema

end Document

/-! ## Nesting -/

/-- No type of the attribute is nested more than `depth` deep. -/
def Attribute.Within (depth : Nat) (a : Attribute) : Prop := a.type.depth ≤ depth

/-- No type of the action is nested more than `depth` deep. -/
def Action.Within (depth : Nat) (a : Action) : Prop :=
  (∀ p ∈ a.parameters, p.type.depth ≤ depth) ∧ a.returnType.depth ≤ depth

/-- No type of the model is nested more than `depth` deep. -/
def Model.Within (depth : Nat) (m : Model) : Prop :=
  (∀ a ∈ m.attributes, a.Within depth) ∧ ∀ a ∈ m.actions, a.Within depth

/-- No type of the definition is nested more than `depth` deep. -/
def Definition.Within (depth : Nat) : Definition → Prop
  | model m => m.Within depth
  | union _ => True

/-- No type of the schema is nested more than `depth` deep. -/
def Document.Within (depth : Nat) (doc : Document) : Prop := ∀ d ∈ doc, d.Within depth

theorem Attribute.Within.mono {depth depth' : Nat} {a : Attribute} (h : a.Within depth)
    (hle : depth ≤ depth') : a.Within depth' := Nat.le_trans h hle

theorem Action.Within.mono {depth depth' : Nat} {a : Action} (h : a.Within depth)
    (hle : depth ≤ depth') : a.Within depth' :=
  ⟨fun p hp => Nat.le_trans (h.1 p hp) hle, Nat.le_trans h.2 hle⟩

theorem Definition.Within.mono {depth depth' : Nat} {d : Definition} (h : d.Within depth)
    (hle : depth ≤ depth') : d.Within depth' := by
  cases d with
  | model m => exact ⟨fun a ha => (h.1 a ha).mono hle, fun a ha => (h.2 a ha).mono hle⟩
  | union u => trivial

theorem Document.Within.mono {depth depth' : Nat} {doc : Document} (h : doc.Within depth)
    (hle : depth ≤ depth') : doc.Within depth' := fun d hd => (h d hd).mono hle

/-! ## Types and their arguments -/

namespace TypeTree

theorem kindsOfEach_eq_map (ts : List TypeTree) : kindsOfEach ts = ts.map kinds := by
  induction ts with
  | nil => rfl
  | cons t ts ih => rw [kindsOfEach, ih, List.map_cons]

theorem refs_eq_map (ts : List TypeTree) : refs ts = ts.map ref := by
  induction ts with
  | nil => rfl
  | cons t ts ih => rw [refs, ih, List.map_cons]

theorem depthOfAll_le {ts : List TypeTree} {bound : Nat} :
    depthOfAll ts ≤ bound ↔ ∀ t ∈ ts, t.depth ≤ bound := by
  induction ts with
  | nil => simp [depthOfAll]
  | cons t ts ih =>
    rw [depthOfAll, Nat.max_le, ih]
    simp

theorem depth_le_succ {name : Name} {arguments : List TypeTree} {bound : Nat} :
    (mk name arguments).depth ≤ bound + 1 ↔ ∀ t ∈ arguments, t.depth ≤ bound := by
  rw [depth, Nat.add_le_add_iff_right, depthOfAll_le]

theorem depth_pos (t : TypeTree) : 0 < t.depth := by
  cases t
  rw [depth]
  exact Nat.succ_pos _

theorem ref_mk (name : Name) (arguments : List TypeTree) :
    (mk name arguments).ref = .mk name.text (arguments.map ref) := by
  rw [ref, refs_eq_map]

theorem kinds_nil (name : Name) : (mk name []).kinds = [name.kind] := by
  rw [kinds, kindsOfEach, angled]

/-- The arguments of a type are written in angle brackets with commas between them. -/
theorem kinds_cons (name : Name) (first : TypeTree) (others : List TypeTree) :
    (mk name (first :: others)).kinds = name.kind :: .mark .less ::
      (separated .comma kinds first others ++ [.mark .greater]) := by
  rw [kinds, kindsOfEach_eq_map, List.map_cons, angled]
  simp only [separated, List.flatMap_map, id, List.cons_append]

/-- What is so of a type if it is so of its arguments is so of every type. -/
theorem ofArguments {Good : TypeTree → Prop}
    (h : ∀ name arguments, (∀ t ∈ arguments, Good t) → Good (mk name arguments)) (t : TypeTree) :
    Good t := by
  -- By induction on how deep the type is nested; its arguments are nested less deep.
  induction hdepth : t.depth using Nat.strongRecOn generalizing t with
  | _ depth ih =>
    subst hdepth
    obtain ⟨name, arguments⟩ := t
    refine h name arguments fun t ht => ih t.depth ?_ t rfl
    exact Nat.lt_succ_of_le (depthOfAll_le.mp (Nat.le_refl _) t ht)

end TypeTree

end ObjectTransfer.Schema.Derivation
