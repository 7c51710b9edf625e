import ObjectTransfer.Error
import ObjectTransfer.Token.Basic

/-!
# Phrases

A `Phrase` reads a value from the front of a list of tokens. It only moves forward: what it leaves
is the end of what it was given, which is what lets `Phrase.repeatWhile` run one phrase again and
again. A phrase that does not fit says what it expected and at which token.
-/

namespace ObjectTransfer

/-- The tokens still to be read, where the token before them ended, and where the text ends. -/
structure TokenStream where
  rest : List Token
  behind : Position
  finish : Position
deriving DecidableEq

/-- All tokens of a text. -/
def Tokens.stream (tokens : Tokens) : TokenStream := ⟨tokens.list, .start, tokens.finish⟩

namespace TokenStream

/-- The kind of the next token; none at the end of the text. -/
def next? (s : TokenStream) : Option Token.Kind := s.rest.head?.map (·.kind)

/-- Where the next token starts, or the text ends. -/
def position (s : TokenStream) : Position :=
  match s.rest with
  | [] => s.finish
  | t :: _ => t.start

/-- The stream after its first token. -/
def drop (s : TokenStream) : TokenStream :=
  match s.rest with
  | [] => s
  | t :: ts => ⟨ts, t.finish, s.finish⟩

theorem drop_rest (s : TokenStream) : s.drop.rest = s.rest.tail := by
  unfold drop
  split <;> simp_all

/-- `s'` is what is left of `s` after some of its tokens. -/
structure Follows (s' s : TokenStream) : Prop where
  rest : s'.rest <:+ s.rest
  finish : s'.finish = s.finish

theorem follows_refl (s : TokenStream) : s.Follows s := ⟨List.suffix_rfl, rfl⟩

theorem Follows.trans {s s' s'' : TokenStream} (h' : s''.Follows s') (h : s'.Follows s) :
    s''.Follows s := ⟨h'.rest.trans h.rest, h'.finish.trans h.finish⟩

theorem drop_follows (s : TokenStream) : s.drop.Follows s := by
  refine ⟨drop_rest s ▸ List.tail_suffix _, ?_⟩
  unfold drop
  split <;> rfl

end TokenStream

/-- What a phrase can expect. -/
inductive Expectation where
  | mark (mark : Mark)
  | declaration
  | modelName
  | parentName
  | memberName
  /-- What follows the name of a member: a type or parameters. -/
  | memberShape
  /-- A member that may follow an action. -/
  | action
  | typeName
  | parameterName
  | unionValue
  | literal
  | relationName
  | filterName
  | responseTypeName
  | fieldName
  | endOfInput
deriving DecidableEq

/-- An expectation in words. -/
def Expectation.text : Expectation → String
  | .mark m => m.describe
  | .declaration => "declaration ('Model' or 'type')"
  | .modelName => "model name"
  | .parentName => "parent model name"
  | .memberName => "attribute or action name"
  | .memberShape => "':' or '('"
  | .action => "action (attributes must precede actions)"
  | .typeName => "type name"
  | .parameterName => "parameter name"
  | .unionValue => "union value (string or identifier)"
  | .literal => "literal (string, number, boolean or null)"
  | .relationName => "relation name"
  | .filterName => "filter name"
  | .responseTypeName => "response type name"
  | .fieldName => "field name"
  | .endOfInput => "end of input"

/-- Why and where a list of tokens does not fit. -/
inductive Failure where
  /-- The next token of `place` is not what is expected there. -/
  | unexpected (expected : Expectation) (place : TokenStream)
  /-- A type would be nested too deep at the next token of `place`. -/
  | tooDeep (place : TokenStream)
deriving DecidableEq

/-- The failure as an error, under a limit on nesting. -/
def Failure.toError (maxDepth : Nat) : Failure → ParseError
  | .unexpected expected place =>
    .mismatch ⟨expected.text, Token.describeNext place.next?, place.position⟩
  | .tooDeep place => .nestingTooDeep maxDepth place.position

/-- A failure, and the tokens that were still to be read when it was found. -/
structure Stop where
  failure : Failure
  reached : TokenStream
deriving DecidableEq

/-- The stop as an error, under a limit on nesting. How far the reading had come is not told. -/
def Stop.toError (maxDepth : Nat) (stop : Stop) : ParseError := stop.failure.toError maxDepth

/-- A reader of one phrase. What it leaves is the end of what it was given, and so is what it had
still to read where it stopped. -/
@[ext]
structure Phrase (α : Type) where
  run : TokenStream → Except Stop (α × TokenStream)
  forward : ∀ {s : TokenStream} {a : α} {s' : TokenStream}, run s = .ok (a, s') → s'.Follows s
  stopped : ∀ {s : TokenStream} {stop : Stop}, run s = .error stop → stop.reached.Follows s

namespace Phrase

/-- Reads nothing. -/
protected def pure {α : Type} (a : α) : Phrase α where
  run s := .ok (a, s)
  forward h := by
    simp only [Except.ok.injEq, Prod.mk.injEq] at h
    exact h.2 ▸ TokenStream.follows_refl _
  stopped h := by simp at h

/-- Reads one phrase after another. -/
protected def bind {α β : Type} (p : Phrase α) (q : α → Phrase β) : Phrase β where
  run s :=
    match p.run s with
    | .ok (a, s') => (q a).run s'
    | .error stop => .error stop
  forward h := by
    split at h
    · rename_i hp
      exact ((q _).forward h).trans (p.forward hp)
    · simp at h
  stopped h := by
    split at h
    · rename_i hp
      exact ((q _).stopped h).trans (p.forward hp)
    · rename_i hp
      rw [Except.error.inj h] at hp
      exact p.stopped hp

instance : Monad Phrase where
  pure := Phrase.pure
  bind := Phrase.bind

@[simp] theorem run_pure {α : Type} (a : α) (s : TokenStream) :
    (pure a : Phrase α).run s = .ok (a, s) := rfl

theorem run_bind {α β : Type} (p : Phrase α) (q : α → Phrase β) (s : TokenStream) :
    (p >>= q).run s =
      match p.run s with
      | .ok (a, s') => (q a).run s'
      | .error stop => .error stop := rfl

theorem run_bind_of_ok {α β : Type} {p : Phrase α} {q : α → Phrase β} {s s' : TokenStream} {a : α}
    (h : p.run s = .ok (a, s')) : (p >>= q).run s = (q a).run s' := by
  rw [run_bind, h]

theorem run_bind_of_error {α β : Type} {p : Phrase α} {q : α → Phrase β} {s : TokenStream}
    {stop : Stop} (h : p.run s = .error stop) : (p >>= q).run s = .error stop := by
  rw [run_bind, h]

instance : LawfulMonad Phrase := LawfulMonad.mk' Phrase
  (fun p => by
    ext s : 2
    change (match p.run s with
      | .ok (a, s') => .ok (a, s')
      | .error stop => .error stop) = p.run s
    split <;> simp_all)
  (fun _ _ => rfl)
  (fun p q r => by
    ext s : 2
    simp only [run_bind]
    cases p.run s <;> rfl)

/-- Reads nothing and gives the tokens still to be read. -/
def place : Phrase TokenStream where
  run s := .ok (s, s)
  forward h := by
    simp only [Except.ok.injEq, Prod.mk.injEq] at h
    exact h.2 ▸ TokenStream.follows_refl _
  stopped h := by simp at h

/-- Passes over one token, if there is one. -/
def skip : Phrase Unit where
  run s := .ok ((), s.drop)
  forward {s _ _} h := by
    simp only [Except.ok.injEq, Prod.mk.injEq] at h
    exact h.2 ▸ s.drop_follows
  stopped h := by simp at h

/-- Fits nothing, for the given reason. -/
def fail {α : Type} (f : Failure) : Phrase α where
  run s := .error ⟨f, s⟩
  forward h := by simp at h
  stopped h := by
    rw [← Except.error.inj h]
    exact TokenStream.follows_refl _

@[simp] theorem run_place (s : TokenStream) : place.run s = .ok (s, s) := rfl

@[simp] theorem run_skip (s : TokenStream) : skip.run s = .ok ((), s.drop) := rfl

@[simp] theorem run_fail {α : Type} (f : Failure) (s : TokenStream) :
    (fail f : Phrase α).run s = .error ⟨f, s⟩ := rfl

/-- Fits nothing: something else was expected at the next token. -/
def expecting {α : Type} (expected : Expectation) : Phrase α :=
  place >>= fun s => fail (.unexpected expected s)

@[simp] theorem run_expecting {α : Type} (expected : Expectation) (s : TokenStream) :
    (expecting expected : Phrase α).run s = .error ⟨.unexpected expected s, s⟩ := rfl

/-- Reads nothing and gives the kind of the next token. -/
def next? : Phrase (Option Token.Kind) :=
  place >>= fun s => pure s.next?

@[simp] theorem run_next? (s : TokenStream) : next?.run s = .ok (s.next?, s) := rfl

/-- Reads one token for which `choose` has a value. -/
def token {α : Type} (expected : Expectation) (choose : Token.Kind → Option α) : Phrase α := do
  match (← next?).bind choose with
  | some a => skip; return a
  | none => expecting expected

theorem run_token {α : Type} (expected : Expectation) (choose : Token.Kind → Option α)
    (s : TokenStream) :
    (token expected choose).run s =
      match s.next?.bind choose with
      | some a => .ok (a, s.drop)
      | none => .error ⟨.unexpected expected s, s⟩ := by
  unfold token
  rw [run_bind_of_ok (run_next? s)]
  cases s.next?.bind choose <;> rfl

/-- Reads a mark if it comes next; whether it did. -/
def optionalMark (mark : Mark) : Phrase Bool := do
  if (← next?) = some (.mark mark) then skip; return true
  else return false

theorem run_optionalMark (mark : Mark) (s : TokenStream) :
    (optionalMark mark).run s =
      if s.next? = some (.mark mark) then .ok (true, s.drop) else .ok (false, s) := by
  unfold optionalMark
  rw [run_bind_of_ok (run_next? s)]
  split <;> rfl

/-- Reads a mark. -/
def mark (mark : Mark) : Phrase Unit :=
  token (.mark mark) fun kind => if kind = .mark mark then some () else none

/-- Runs `turn` as long as `opens` has a value for the next token, which is passed over. A turn is
given the state so far, the value, and the stream from its opening token on. The result is the last
state reached, and where the turns ended or why one failed. -/
def turns {σ β : Type} (opens : Token.Kind → Option β) (turn : σ → β → TokenStream → Phrase σ)
    (state : σ) (s : TokenStream) : σ × Except Stop TokenStream :=
  match _h : s.rest with
  | [] => (state, .ok s)
  | t :: _ =>
    match opens t.kind with
    | none => (state, .ok s)
    | some b =>
      match _hrun : (turn state b s).run s.drop with
      | .ok (state', s') => turns opens turn state' s'
      | .error stop => (state, .error stop)
termination_by s.rest.length
decreasing_by
  have hle := ((turn state b s).forward _hrun).rest.length_le
  rw [TokenStream.drop_rest, _h, List.tail_cons] at hle
  rw [_h, List.length_cons]
  omega

/-- Turns end before a token that opens none. -/
theorem turns_of_closed {σ β : Type} {opens : Token.Kind → Option β}
    {turn : σ → β → TokenStream → Phrase σ} {state : σ} {s : TokenStream}
    (h : s.next?.bind opens = none) : turns opens turn state s = (state, .ok s) := by
  rw [turns]
  split
  · rfl
  · rename_i t ts hrest
    simp only [TokenStream.next?, hrest, List.head?_cons, Option.map_some, Option.bind_some] at h
    simp only [h]

/-- A token that opens a turn is passed over, and the turn runs on what follows it. -/
theorem turns_of_opened {σ β : Type} {opens : Token.Kind → Option β}
    {turn : σ → β → TokenStream → Phrase σ} {state : σ} {s : TokenStream} {b : β}
    (h : s.next?.bind opens = some b) :
    turns opens turn state s =
      match (turn state b s).run s.drop with
      | .ok (state', s') => turns opens turn state' s'
      | .error stop => (state, .error stop) := by
  rw [turns]
  split
  · rename_i hrest
    simp [TokenStream.next?, hrest] at h
  · rename_i t ts hrest
    simp only [TokenStream.next?, hrest, List.head?_cons, Option.map_some, Option.bind_some] at h
    simp only [h]
    split <;> simp_all

theorem turns_forward {σ β : Type} {opens : Token.Kind → Option β}
    {turn : σ → β → TokenStream → Phrase σ} {state state' : σ} {s s' : TokenStream}
    (h : turns opens turn state s = (state', .ok s')) : s'.Follows s := by
  fun_induction turns opens turn state s with
  | case1 state s hrest | case2 state s t ts hrest hb =>
    obtain ⟨-, hs⟩ := Prod.mk.inj h
    exact Except.ok.inj hs ▸ s.follows_refl
  | case3 state s t ts hrest b hb state₁ s₁ hrun ih =>
    exact (ih h).trans (((turn state b s).forward hrun).trans s.drop_follows)
  | case4 => simp at h

theorem turns_stopped {σ β : Type} {opens : Token.Kind → Option β}
    {turn : σ → β → TokenStream → Phrase σ} {state state' : σ} {s : TokenStream} {stop : Stop}
    (h : turns opens turn state s = (state', .error stop)) : stop.reached.Follows s := by
  fun_induction turns opens turn state s with
  | case1 | case2 => simp at h
  | case3 state s t ts hrest b hb state₁ s₁ hrun ih =>
    exact (ih h).trans (((turn state b s).forward hrun).trans s.drop_follows)
  | case4 state s t ts hrest b hb stop' hrun =>
    obtain ⟨-, hstop⟩ := Prod.mk.inj h
    rw [Except.error.inj hstop] at hrun
    exact ((turn state b s).stopped hrun).trans s.drop_follows

/-- Runs `turn` as long as `opens` has a value for the next token; the last state reached. -/
def repeatWhile {σ β : Type} (opens : Token.Kind → Option β) (turn : σ → β → TokenStream → Phrase σ)
    (state : σ) : Phrase σ where
  run s :=
    match turns opens turn state s with
    | (state', .ok s') => .ok (state', s')
    | (_, .error stop) => .error stop
  forward {s a s'} h := by
    split at h
    · rename_i hturns
      simp only [Except.ok.injEq, Prod.mk.injEq] at h
      rw [← h.2]
      exact turns_forward hturns
    · simp at h
  stopped {s stop} h := by
    split at h
    · simp at h
    · rename_i hturns
      rw [Except.error.inj h] at hturns
      exact turns_stopped hturns

/-- One item and any number of further ones, each after a mark. -/
def separatedBy {α : Type} (separator : Mark) (item : Phrase α) : Phrase (List α) := do
  let first ← item
  let others ← repeatWhile (fun kind => if kind = .mark separator then some () else none)
    (fun items () _ => do return (← item) :: items) [first]
  return others.reverse

end Phrase
end ObjectTransfer
