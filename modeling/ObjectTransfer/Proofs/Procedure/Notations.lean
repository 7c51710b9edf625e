import ObjectTransfer.Proofs.Procedure.Basic
import ObjectTransfer.Proofs.Stops

/-!
# The procedures of the notations

Each phrase of the three notations as a procedure, in the order of the grammars. `phrase_procedure`
puts them together again: reading a document is running the procedure of its notation. The first item of
a list is a part of its own, as the others are, which are turns.
-/

namespace ObjectTransfer

open Procedure

/-! ## Turns up to the end of the text -/

namespace Procedure

variable {α β σ : Type}

/-- Runs turns up to the end of the text. -/
def turnsToEnd (opens : Token.Kind → Option β) (turn : σ → β → TokenStream → Procedure σ) (state : σ)
    (value : σ → TokenStream → α) (expected : Expectation) : Procedure α := do
  let now ← loop opens turn state
  ending expected
  return value now (← place)

@[simp] theorem phrase_ending (levels : Nat) (expected : Expectation) :
    (ending expected).phrase levels = Phrase.ending expected := by
  simp only [ending, Phrase.ending, phrase_bind, phrase_ite, phrase_next?, phrase_expecting,
    phrase_pure]

@[simp] theorem phrase_turnsToEnd (levels : Nat) (opens : Token.Kind → Option β)
    (turn : σ → β → TokenStream → Procedure σ) (state : σ) (value : σ → TokenStream → α)
    (expected : Expectation) : (turnsToEnd opens turn state value expected).phrase levels =
      Phrase.turnsToEnd opens (fun now b place => (turn now b place).phrase levels) state value
        expected := by
  simp only [turnsToEnd, Phrase.turnsToEnd, phrase_bind, phrase_loop, phrase_ending, phrase_place,
    phrase_pure]

end Procedure

/-! ## Schemas -/

namespace Schema

variable (depth : Nat)

/-- Reads a literal; a bare identifier is a string. -/
def defaultProcedure : Procedure Literal :=
  token .literal fun kind => match kind with
    | .literal value => some value
    | .identifier name => some (.string name)
    | _ => none

@[simp] theorem phrase_defaultProcedure : defaultProcedure.phrase depth = Phrase.literalOrWord :=
  phrase_token depth _ _

/-- Reads the type of an attribute and what follows it, from the colon on. -/
def Attribute.procedure (name : String) : Procedure Attribute := do
  mark .colon
  let type ← Procedure.type id
  let optional ← optionalMark .question
  if ← optionalMark .equals then
    return ⟨name, type.text, false, some (← defaultProcedure)⟩
  else return ⟨name, type.text, !optional, none⟩

@[simp] theorem Attribute.phrase_procedure (name : String) :
    (procedure name).phrase depth = Attribute.phrase depth name := by
  simp only [procedure, Attribute.phrase, phrase_bind, phrase_ite, phrase_mark, phrase_type,
    phrase_optionalMark, phrase_defaultProcedure, phrase_pure]

/-- Reads a parameter. -/
def Parameter.procedure : Procedure Parameter :=
  opened .parameterName Phrase.nameOf? fun name => do
    mark .colon
    let type ← Procedure.type id
    return ⟨name, type.text, ← optionalMark .question⟩

@[simp] theorem Parameter.phrase_procedure :
    procedure.phrase depth = Parameter.phrase depth := by
  simp only [procedure, Parameter.phrase, phrase_opened, phrase_bind, phrase_mark, phrase_type,
    phrase_optionalMark, phrase_pure, Phrase.name]

/-- Reads the parameters and the type of an action, from the opening parenthesis on. -/
def Action.procedure (name : String) : Procedure Action := do
  mark .openParen
  let parameters ←
    if (← next?) = some (.mark .closeParen) then pure []
    else separatedBy .comma Parameter.procedure
  mark .closeParen
  mark .colon
  return ⟨name, parameters, (← Procedure.type id).text⟩

@[simp] theorem Action.phrase_procedure (name : String) :
    (procedure name).phrase depth = Action.phrase depth name := by
  simp only [procedure, Action.phrase, phrase_bind, phrase_ite, phrase_mark, phrase_type, phrase_next?,
    phrase_separatedBy, Parameter.phrase_procedure, phrase_pure]

/-- Reads a member after its name, which `opening` starts with. -/
def Members.procedure (seen : Members) (name : String) (opening : TokenStream) :
    Procedure Members := do
  let next ← next?
  if next = some (.mark .colon) then
    if seen.actions ≠ [] then fail .action opening
    else
      let field ← Attribute.procedure name
      optionalTerminator
      return ⟨field :: seen.attributes, seen.actions⟩
  else if next = some (.mark .openParen) then
    let action ← Action.procedure name
    optionalTerminator
    return ⟨seen.attributes, action :: seen.actions⟩
  else expecting .memberShape

@[simp] theorem Members.phrase_procedure (seen : Members) (name : String) (opening : TokenStream) :
    (procedure seen name opening).phrase depth = Members.phrase depth seen name opening := by
  simp only [procedure, Members.phrase, phrase_bind, phrase_ite, phrase_next?, phrase_fail,
    Attribute.phrase_procedure, Action.phrase_procedure, phrase_optionalTerminator, phrase_expecting,
    phrase_pure]

/-- Reads the parent of a model, if there is one. -/
def parentProcedure : Procedure (Option String) :=
  .part (fun kind => if kind = .keyword .extendsWord then some () else none)
    (fun () => some <$> Procedure.name .parentName) (return none)

@[simp] theorem phrase_parentProcedure :
    parentProcedure.phrase depth = Derivation.parentPhrase := by
  ext s : 2
  rw [parentProcedure, run_part, Derivation.parentPhrase, Phrase.run_bind_of_ok (Phrase.run_next? s)]
  rcases s.next? with _ | kind
  · rfl
  · by_cases hkind : kind = .keyword .extendsWord
    · simp only [hkind, Option.bind_some, if_pos, phrase_map, phrase_name]
      rfl
    · simp [hkind]

/-- Reads a model after its opening word. -/
def Model.procedure : Procedure Model := do
  let name ← Procedure.name .modelName
  let parent? ← parentProcedure
  mark .openBrace
  let members ← loop Phrase.nameOf? Members.procedure ⟨[], []⟩
  closeBrace .memberName
  return ⟨name, parent?, members.attributes.reverse, members.actions.reverse⟩

@[simp] theorem Model.phrase_procedure : procedure.phrase depth = Model.phrase depth := by
  simp only [procedure, Derivation.model_phrase_eq, phrase_bind, phrase_name, phrase_parentProcedure,
    phrase_mark, phrase_loop, Members.phrase_procedure, phrase_closeBrace, phrase_pure]

/-- Reads a value of a union. -/
def unionValueProcedure : Procedure String :=
  token .unionValue fun kind => match kind with
    | .literal (.string value) => some value
    | .identifier value => some value
    | _ => none

@[simp] theorem phrase_unionValueProcedure :
    unionValueProcedure.phrase depth = Derivation.Value.phrase := phrase_token depth _ _

/-- Reads a union after its opening word. -/
def Union.procedure : Procedure Union := do
  let name ← Procedure.name .typeName
  mark .equals
  let values ← separatedBy .bar unionValueProcedure
  let _ ← optionalMark .semicolon
  return ⟨name, values⟩

@[simp] theorem Union.phrase_procedure : procedure.phrase depth = Union.phrase := by
  simp only [procedure, Derivation.union_phrase_eq, phrase_bind, phrase_name, phrase_mark,
    phrase_separatedBy, phrase_unionValueProcedure, phrase_optionalMark, phrase_pure]

/-- Reads a definition after its opening word. -/
def Definition.procedure : Definition.Kind → Procedure Definition
  | .model => .model <$> Model.procedure
  | .union => .union <$> Union.procedure

@[simp] theorem Definition.phrase_procedure (kind : Definition.Kind) :
    (procedure kind).phrase depth = Definition.phrase depth kind := by
  cases kind with
  | model => rw [procedure, phrase_map, Model.phrase_procedure, Definition.phrase]
  | union => rw [procedure, phrase_map, Union.phrase_procedure, Definition.phrase]

/-- Reads the definitions of a schema to the end of the text. -/
def Document.procedure : Procedure Document :=
  turnsToEnd Definition.Kind.ofToken?
    (fun seen kind _ => do return (← Definition.procedure kind) :: seen) []
    (fun seen _ => seen.reverse) .declaration

@[simp] theorem Document.phrase_procedure :
    procedure.phrase depth = Derivation.Document.phrase depth := by
  simp only [procedure, phrase_turnsToEnd, phrase_bind, Definition.phrase_procedure, phrase_pure]
  rfl

end Schema

/-! ## Entries -/

/-- Reads a literal. -/
def literalProcedure : Procedure Literal :=
  token .literal fun kind => match kind with
    | .literal value => some value
    | _ => none

namespace Entry

variable (levels : Nat)

/-- Reads what follows the name of an entry, which stands at `start` in the text `source`. -/
def keyedProcedure (source key : String) (start : Position) : Procedure Entry := do
  mark .colon
  let value ← literalProcedure
  return ⟨key, value, ← locationFrom source start⟩

@[simp] theorem phrase_keyedProcedure (source key : String) (start : Position) :
    (keyedProcedure source key start).phrase levels = afterKey source key start := by
  simp only [keyedProcedure, literalProcedure, phrase_bind, phrase_mark, phrase_token,
    phrase_locationFrom, phrase_pure]
  rfl

/-- Reads an entry in the text `source`; `expected` says what its name is the name of. -/
def procedure (source : String) (expected : Expectation) : Procedure Entry := do
  let start := (← Procedure.place).position
  opened expected (fun kind => match kind with
    | .identifier name => some name
    | _ => none) fun key => keyedProcedure source key start

@[simp] theorem phrase_procedure (source : String) (expected : Expectation) :
    (procedure source expected).phrase levels = Entry.phrase source expected := by
  simp only [procedure, phrase_bind, phrase_place, phrase_opened, phrase_keyedProcedure]
  rfl

end Entry

/-! ## Requests -/

namespace Request

variable (levels : Nat) (source : String)

/-- Reads filters in parentheses. -/
def filtersProcedure : Procedure (List Entry) := do
  mark .openParen
  if ← optionalMark .closeParen then return []
  let first ← Entry.procedure source .filterName
  let all ← loop (fun kind => if kind = .mark .comma then some () else none)
    (fun seen () _ => do
      if (← next?) = some (.mark .closeParen) then return seen
      else return (← Entry.procedure source .filterName) :: seen) [first]
  mark .closeParen
  return all.reverse

@[simp] theorem phrase_filtersProcedure :
    (filtersProcedure source).phrase levels = filtersPhrase source := by
  simp only [filtersProcedure, filtersPhrase, phrase_bind, phrase_ite, phrase_mark,
    phrase_optionalMark, Entry.phrase_procedure, phrase_loop, phrase_next?, phrase_pure]

/-- Reads filters in parentheses, if an opening parenthesis comes next. -/
def optionalFiltersProcedure : Procedure (List Entry) := do
  if (← next?) = some (.mark .openParen) then filtersProcedure source else return []

@[simp] theorem phrase_optionalFiltersProcedure :
    (optionalFiltersProcedure source).phrase levels = optionalFiltersPhrase source := by
  simp only [optionalFiltersProcedure, optionalFiltersPhrase, phrase_bind, phrase_ite, phrase_next?,
    phrase_filtersProcedure, phrase_pure]

/-- Reads a step after its dot, which stands at `start`. -/
def Step.procedure (start : Position) : Procedure Step := do
  let relation ← identifier .relationName
  let narrowed ← optionalFiltersProcedure source
  return ⟨relation, narrowed, none, ← locationFrom source start⟩

@[simp] theorem Step.phrase_procedure (start : Position) :
    (procedure source start).phrase levels = Step.phrase source start := by
  simp only [procedure, Step.phrase, phrase_bind, phrase_identifier, phrase_optionalFiltersProcedure,
    phrase_locationFrom, phrase_pure]

/-- Reads a request to the end of the text. -/
def procedure : Procedure Request := do
  let start := (← Procedure.place).position
  let root : String × List Entry :=
    (← identifier .modelName, ← optionalFiltersProcedure source)
  turnsToEnd (fun kind => if kind = .mark .dot then some () else none)
    (fun seen () opening => do return (← Step.procedure source opening.position) :: seen) []
    (fun seen place => ⟨root.1, root.2, seen.reverse, source, start, place.behind⟩) .endOfInput

@[simp] theorem phrase_procedure :
    (procedure source).phrase levels = Derivation.phrase source := by
  simp only [procedure, Derivation.phrase, Derivation.stepsPhrase, rootPhrase, phrase_bind, phrase_place,
    phrase_identifier, phrase_optionalFiltersProcedure, phrase_turnsToEnd, Step.phrase_procedure,
    phrase_pure, bind_assoc, pure_bind]
  rfl

end Request

/-! ## Responses -/

namespace Response

variable (levels : Nat) (source : String)

/-- Reads the fields of a record, each with the mark that may end it. -/
def fieldsProcedure : Procedure (List Entry) := do
  let seen ← loop fieldName?
    (fun seen key opening => do
      let entry ← Entry.keyedProcedure source key opening.position
      optionalTerminator
      return entry :: seen) []
  return seen.reverse

@[simp] theorem phrase_fieldsProcedure :
    (fieldsProcedure source).phrase levels = fieldsPhrase source := by
  simp only [fieldsProcedure, fieldsPhrase, phrase_bind, phrase_loop, Entry.phrase_keyedProcedure,
    phrase_optionalTerminator, phrase_pure]

/-- Reads a record in the text `source`. -/
def procedure : Procedure Response := do
  let start := (← Procedure.place).position
  let type ← identifier .responseTypeName
  mark .openBrace
  let entries ← fieldsProcedure source
  closeBrace .fieldName
  ending .endOfInput
  return ⟨type, entries, ← locationFrom source start⟩

@[simp] theorem phrase_procedure : (procedure source).phrase levels = phrase source := by
  simp only [procedure, phrase, phrase_bind, phrase_place, phrase_identifier, phrase_mark,
    phrase_fieldsProcedure, phrase_closeBrace, phrase_ending, phrase_locationFrom, phrase_pure]
  rfl

end Response

/-! ## The three notations -/

namespace Dialect

/-- Reads a document to the end of the text. -/
def procedure (d : Dialect) (source : String) : Procedure d.Document :=
  match d with
  | .schema => Schema.Document.procedure
  | .request => Request.procedure source
  | .response => Response.procedure source

/-- The procedure of a notation, put together again. -/
theorem phrase_procedure (d : Dialect) (options : Options) :
    (d.procedure options.sourceName).phrase options.maxDepth = d.phrase options := by
  cases d with
  | schema => exact Schema.Document.phrase_procedure options.maxDepth
  | request => exact Request.phrase_procedure options.maxDepth options.sourceName
  | response => exact Response.phrase_procedure options.maxDepth options.sourceName

end Dialect
end ObjectTransfer
