import ObjectTransfer.Phrase.Words
import ObjectTransfer.Schema.TypeRef

/-!
# Procedures

A phrase tells what comes of reading, but not what happens on the way. A `Procedure` is a phrase taken
apart into instructions that look at the next token or pass over it, and `Procedure.phrase` puts it
together again. A procedure knows of no limit: it says that a type comes next, not how deep the type may
be nested, and it does not unfold the type.
-/

namespace ObjectTransfer

open Schema (TypeRef)

/-- A reader of one phrase, as instructions. -/
inductive Procedure : Type → Type 1 where
  /-- Reads nothing. -/
  | done {α : Type} (a : α) : Procedure α
  /-- Reads one thing after another. -/
  | chain {α β : Type} (first : Procedure β) (next : β → Procedure α) : Procedure α
  /-- Reads nothing and looks at the tokens still to be read. -/
  | look {α : Type} (see : TokenStream → α) : Procedure α
  /-- Fits nothing: something else was expected at the next token of `place`. -/
  | fail {α : Type} (expected : Expectation) (place : TokenStream) : Procedure α
  /-- Reads the part that the next token opens, if `opens` has a value for it. The token is passed
  over. -/
  | part {α β : Type} (opens : Token.Kind → Option β) (body : β → Procedure α)
      (otherwise : Procedure α) : Procedure α
  /-- Reads a type. -/
  | type {α : Type} (make : TypeRef → α) : Procedure α
  /-- Runs `turn` as long as `opens` has a value for the next token, which is passed over. -/
  | loop {σ β : Type} (opens : Token.Kind → Option β) (turn : σ → β → TokenStream → Procedure σ)
      (state : σ) : Procedure σ

namespace Procedure

instance : Monad Procedure where
  pure := done
  bind := chain

variable {α β σ : Type}

/-- The phrase of a procedure, in which types are nested at most `levels` deep. -/
def phrase (levels : Nat) : {α : Type} → Procedure α → Phrase α
  | _, .done a => pure a
  | _, .chain first next => first.phrase levels >>= fun b => (next b).phrase levels
  | _, .look see => see <$> Phrase.place
  | _, .fail expected place => Phrase.fail (.unexpected expected place)
  | _, .part opens body otherwise => do
    match (← Phrase.next?).bind opens with
    | some b =>
      Phrase.skip
      (body b).phrase levels
    | none => otherwise.phrase levels
  | _, .type make => make <$> TypeRef.phrase levels
  | _, .loop opens turn state =>
    Phrase.repeatWhile opens (fun now b place => (turn now b place).phrase levels) state

/-! ## Instructions that phrases are made of -/

/-- Reads nothing and gives the tokens still to be read. -/
def place : Procedure TokenStream := .look id

/-- Reads nothing and gives the kind of the next token. -/
def next? : Procedure (Option Token.Kind) := .look TokenStream.next?

/-- Fits nothing: something else was expected at the next token. -/
def expecting (expected : Expectation) : Procedure α := do fail expected (← place)

/-- Reads the part that the next token has to open. -/
def opened (expected : Expectation) (opens : Token.Kind → Option β) (body : β → Procedure α) :
    Procedure α := .part opens body (expecting expected)

/-- Reads one token for which `choose` has a value. -/
def token (expected : Expectation) (choose : Token.Kind → Option α) : Procedure α :=
  opened expected choose pure

/-- Reads a mark if it comes next; whether it did. -/
def optionalMark (mark : Mark) : Procedure Bool :=
  .part (fun kind => if kind = .mark mark then some () else none) (fun () => return true)
    (return false)

/-- Reads a mark. -/
def mark (mark : Mark) : Procedure Unit :=
  token (.mark mark) fun kind => if kind = .mark mark then some () else none

/-- One item and any number of further ones, each after a mark. -/
def separatedBy (separator : Mark) (item : Procedure α) : Procedure (List α) := do
  let first ← item
  let others ← loop (fun kind => if kind = .mark separator then some () else none)
    (fun items () _ => do return (← item) :: items) [first]
  return others.reverse

/-- Reads a name. -/
def name (expected : Expectation) : Procedure String := token expected Phrase.nameOf?

/-- Reads an identifier. -/
def identifier (expected : Expectation) : Procedure String :=
  token expected fun kind => match kind with
    | .identifier name => some name
    | _ => none

/-- Reads a semicolon or else a comma, if one comes next. -/
def optionalTerminator : Procedure Unit := do
  if ← optionalMark .semicolon then return ()
  else
    let _ ← optionalMark .comma
    return ()

/-- Reads the end of the text. -/
def ending (expected : Expectation) : Procedure Unit := do
  if (← next?) = none then return () else expecting expected

/-- Reads the brace that closes a list of items. -/
def closeBrace (item : Expectation) : Procedure Unit := do
  if ← optionalMark .closeBrace then return ()
  else if (← next?) = none then expecting (.mark .closeBrace)
  else expecting item

/-- The location in `source` from `start` up to the end of the last token read. -/
def locationFrom (source : String) (start : Position) : Procedure Location := do
  return ⟨source, start, (← place).behind⟩

/-- Reads the arguments of a type, after its name. -/
def arguments (name : String) : Procedure TypeRef := do
  if ← optionalMark .less then
    let arguments ← separatedBy .comma (.type id)
    mark .greater
    return .mk name arguments
  else return .mk name []

/-! ## Their phrases -/

variable (levels : Nat)

@[simp] theorem phrase_pure (a : α) : (pure a : Procedure α).phrase levels = pure a := rfl

@[simp] theorem phrase_bind (p : Procedure β) (q : β → Procedure α) :
    (p >>= q).phrase levels = p.phrase levels >>= fun b => (q b).phrase levels := rfl

@[simp] theorem phrase_map (f : β → α) (p : Procedure β) :
    (f <$> p).phrase levels = f <$> p.phrase levels := rfl

@[simp] theorem phrase_ite {c : Prop} [Decidable c] (p q : Procedure α) :
    (if c then p else q).phrase levels = if c then p.phrase levels else q.phrase levels :=
  apply_ite _ _ _ _

@[simp] theorem phrase_fail (expected : Expectation) (place : TokenStream) :
    (fail expected place : Procedure α).phrase levels = Phrase.fail (.unexpected expected place) :=
  rfl

@[simp] theorem phrase_place : place.phrase levels = Phrase.place := rfl

@[simp] theorem phrase_next? : next?.phrase levels = Phrase.next? := rfl

@[simp] theorem phrase_type : (type id).phrase levels = TypeRef.phrase levels := id_map _

@[simp] theorem phrase_expecting (expected : Expectation) :
    (expecting expected : Procedure α).phrase levels = Phrase.expecting expected := rfl

/-- A part is read if the next token opens it. -/
theorem run_part (opens : Token.Kind → Option β) (body : β → Procedure α)
    (otherwise : Procedure α) (s : TokenStream) :
    ((part opens body otherwise).phrase levels).run s =
      match s.next?.bind opens with
      | some b => ((body b).phrase levels).run s.drop
      | none => (otherwise.phrase levels).run s := by
  rw [phrase, Phrase.run_bind_of_ok (Phrase.run_next? s)]
  cases s.next?.bind opens <;> rfl

@[simp] theorem phrase_opened (expected : Expectation) (opens : Token.Kind → Option β)
    (body : β → Procedure α) : (opened expected opens body).phrase levels =
      Phrase.token expected opens >>= fun b => (body b).phrase levels := by
  ext s : 2
  rw [opened, run_part, Phrase.run_bind, Phrase.run_token]
  cases s.next?.bind opens <;> rfl

@[simp] theorem phrase_token (expected : Expectation) (choose : Token.Kind → Option α) :
    (token expected choose).phrase levels = Phrase.token expected choose := by
  rw [token, phrase_opened]
  exact bind_pure _

@[simp] theorem phrase_mark (m : Mark) : (mark m).phrase levels = Phrase.mark m :=
  phrase_token levels _ _

@[simp] theorem phrase_name (expected : Expectation) :
    (name expected).phrase levels = Phrase.name expected := phrase_token levels _ _

@[simp] theorem phrase_identifier (expected : Expectation) :
    (identifier expected).phrase levels = Phrase.identifier expected := phrase_token levels _ _

@[simp] theorem phrase_optionalMark (m : Mark) :
    (optionalMark m).phrase levels = Phrase.optionalMark m := by
  ext s : 2
  rw [optionalMark, run_part, Phrase.run_optionalMark]
  rcases s.next? with _ | kind
  · rfl
  · by_cases hkind : kind = .mark m <;> simp [hkind]

@[simp] theorem phrase_loop (opens : Token.Kind → Option β)
    (turn : σ → β → TokenStream → Procedure σ) (state : σ) :
    (loop opens turn state).phrase levels =
      Phrase.repeatWhile opens (fun now b place => (turn now b place).phrase levels) state := rfl

@[simp] theorem phrase_separatedBy (separator : Mark) (item : Procedure α) :
    (separatedBy separator item).phrase levels =
      Phrase.separatedBy separator (item.phrase levels) := rfl

@[simp] theorem phrase_optionalTerminator :
    optionalTerminator.phrase levels = Phrase.optionalTerminator := by
  simp only [optionalTerminator, Phrase.optionalTerminator, phrase_bind, phrase_ite,
    phrase_optionalMark, phrase_pure]

@[simp] theorem phrase_closeBrace (item : Expectation) :
    (closeBrace item).phrase levels = Phrase.closeBrace item := by
  simp only [closeBrace, Phrase.closeBrace, phrase_bind, phrase_ite, phrase_optionalMark,
    phrase_next?, phrase_expecting, phrase_pure]

@[simp] theorem phrase_locationFrom (source : String) (start : Position) :
    (locationFrom source start).phrase levels = Phrase.locationFrom source start := rfl

/-- A type is its name and its arguments, which are nested one level deeper. -/
theorem phrase_arguments : TypeRef.phrase (levels + 1) =
    Phrase.name .typeName >>= fun name => (arguments name).phrase levels := by
  simp only [TypeRef.phrase, arguments, phrase_bind, phrase_ite, phrase_optionalMark, phrase_mark,
    phrase_separatedBy, phrase_type, phrase_pure]

end Procedure
end ObjectTransfer
