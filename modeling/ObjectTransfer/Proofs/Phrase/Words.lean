import ObjectTransfer.Proofs.Phrase.Determined

/-!
# What the shared phrases read

The phrases that all notations share are exact: identifiers, literals, the mark that may end an
item, the brace that closes a list, and the end of the text. Schemas and requests end with turns that
have to go on up to the end of the text, and these are one phrase as well (`ended_eq_run`).
-/

namespace ObjectTransfer.Phrase

/-! ## Identifiers and literals -/

theorem identifier_sound {expected : Expectation} {s s' : TokenStream} {name : String}
    (h : (identifier expected).run s = .ok (name, s')) :
    s.kinds = .identifier name :: s'.kinds := by
  obtain ⟨kind, hkind, hs⟩ := token_sound h
  cases kind with
  | identifier name' => rw [hs, Option.some.inj hkind]
  | keyword => exact absurd hkind (by simp)
  | literal => exact absurd hkind (by simp)
  | mark => exact absurd hkind (by simp)

theorem identifier_complete (expected : Expectation) {s : TokenStream} {name : String}
    {rest : List Token.Kind} (hs : s.kinds = .identifier name :: rest) :
    ∃ s', (identifier expected).run s = .ok (name, s') ∧ s'.kinds = rest :=
  token_complete expected rfl hs

theorem literal_sound {s s' : TokenStream} {value : Literal}
    (h : literal.run s = .ok (value, s')) : s.kinds = .literal value :: s'.kinds := by
  obtain ⟨kind, hkind, hs⟩ := token_sound h
  cases kind with
  | literal value' => rw [hs, Option.some.inj hkind]
  | identifier => exact absurd hkind (by simp)
  | keyword => exact absurd hkind (by simp)
  | mark => exact absurd hkind (by simp)

theorem literal_complete {s : TokenStream} {value : Literal} {rest : List Token.Kind}
    (hs : s.kinds = .literal value :: rest) :
    ∃ s', literal.run s = .ok (value, s') ∧ s'.kinds = rest :=
  token_complete _ rfl hs

/-! ## The end of an item -/

/-- The mark that ends an item. -/
inductive Terminator where
  | semicolon
  | comma

def Terminator.mark : Terminator → Mark
  | semicolon => .semicolon
  | comma => .comma

/-- The tokens of a terminator that may be left out. -/
abbrev terminatorKinds : Option Terminator → List Token.Kind :=
  optionalKinds fun t => [.mark t.mark]

theorem optionalTerminator_sound {s s' : TokenStream} {u : Unit}
    (h : optionalTerminator.run s = .ok (u, s')) :
    ∃ t? : Option Terminator, s.kinds = terminatorKinds t? ++ s'.kinds := by
  obtain ⟨semicolon, s₁, hsemicolon, h⟩ := run_bind_eq_ok.mp h
  have hs := optionalMark_sound hsemicolon
  cases semicolon with
  | true =>
    rw [if_pos rfl, run_pure_eq_ok] at h
    exact ⟨some .semicolon, h.2 ▸ hs⟩
  | false =>
    obtain ⟨comma, s₂, hcomma, h⟩ := run_bind_eq_ok.mp h
    have hs₁ := optionalMark_sound hcomma
    rw [run_pure_eq_ok] at h
    rw [hs, hs₁, h.2]
    cases comma with
    | true => exact ⟨some .comma, rfl⟩
    | false => exact ⟨none, rfl⟩

theorem optionalTerminator_complete (t? : Option Terminator) {s : TokenStream}
    {rest : List Token.Kind} (hs : s.kinds = terminatorKinds t? ++ rest)
    (hrest : Avoids [.semicolon, .comma] rest) :
    ∃ s', optionalTerminator.run s = .ok ((), s') ∧ s'.kinds = rest := by
  have hnext : ∀ m : Mark, m ∈ [Mark.semicolon, .comma] → Avoids [m] rest := by
    intro m hm
    exact hrest.mono (List.cons_subset.mpr ⟨hm, List.nil_subset _⟩)
  unfold optionalTerminator
  -- No terminator, a semicolon, a comma: a comma is only looked for if there is no semicolon.
  rcases t? with _ | _ | _
  · obtain ⟨s₁, hsemicolon, hs₁⟩ := optionalMark_complete (m := .semicolon) false hs
      fun _ => hnext _ (by simp)
    obtain ⟨s₂, hcomma, hs₂⟩ := optionalMark_complete (m := .comma) false hs₁
      fun _ => hnext _ (by simp)
    refine ⟨s₂, ?_, hs₂⟩
    rw [run_bind_of_ok hsemicolon, if_neg (by simp), run_bind_of_ok hcomma, run_pure]
  · obtain ⟨s₁, hsemicolon, hs₁⟩ := optionalMark_complete (m := .semicolon) true hs nofun
    refine ⟨s₁, ?_, hs₁⟩
    rw [run_bind_of_ok hsemicolon, if_pos rfl, run_pure]
  · obtain ⟨s₁, hsemicolon, hs₁⟩ := optionalMark_complete (m := .semicolon) false hs
      fun _ => avoids_mark_cons (by decide) _
    obtain ⟨s₂, hcomma, hs₂⟩ := optionalMark_complete (m := .comma) true hs₁ nofun
    refine ⟨s₂, ?_, hs₂⟩
    rw [run_bind_of_ok hsemicolon, if_neg (by simp), run_bind_of_ok hcomma, run_pure]

theorem run_optionalTerminator_ne_error (s : TokenStream) (stop : Stop) :
    optionalTerminator.run s ≠ .error stop := by
  intro h
  rcases run_bind_eq_error.mp h with hsemicolon | ⟨semicolon, s₁, -, h⟩
  · exact run_optionalMark_ne_error _ _ _ hsemicolon
  · cases semicolon with
    | true => simp at h
    | false =>
      rcases run_bind_eq_error.mp h with hcomma | ⟨_, _, -, h⟩
      · exact run_optionalMark_ne_error _ _ _ hcomma
      · simp at h

theorem determined_terminator (t? : Option Terminator) :
    Determined terminatorKinds (Avoids [.semicolon, .comma]) t? := by
  apply determined_optional
  · intro t t' rest rest' _ _ h
    obtain ⟨hmark, hend⟩ := List.cons.inj h
    refine ⟨?_, hend⟩
    cases t <;> cases t' <;> simp_all [Terminator.mark]
  · intro t rest hrest
    refine hrest t.mark ?_ rfl
    cases t <;> decide

/-! ## The end of a list and of the text -/

theorem closeBrace_sound {item : Expectation} {s s' : TokenStream} {u : Unit}
    (h : (closeBrace item).run s = .ok (u, s')) : s.kinds = .mark .closeBrace :: s'.kinds := by
  obtain ⟨closed, s₁, hclosed, h⟩ := run_bind_eq_ok.mp h
  have hs := optionalMark_sound hclosed
  cases closed with
  | true =>
    rw [if_pos rfl, run_pure_eq_ok] at h
    exact h.2 ▸ hs
  | false =>
    -- Both other branches fail.
    obtain ⟨next, s₂, -, h⟩ := run_bind_eq_ok.mp h
    split at h <;> exact absurd h (by simp)

theorem closeBrace_complete (item : Expectation) {s : TokenStream} {rest : List Token.Kind}
    (hs : s.kinds = .mark .closeBrace :: rest) :
    ∃ s', (closeBrace item).run s = .ok ((), s') ∧ s'.kinds = rest := by
  obtain ⟨s', hclosed, hs'⟩ := optionalMark_complete (m := .closeBrace) true hs nofun
  refine ⟨s', ?_, hs'⟩
  unfold closeBrace
  rw [run_bind_of_ok hclosed, if_pos rfl, run_pure]

/-- Reads the end of the text. -/
def ending (expected : Expectation) : Phrase Unit := do
  if (← next?) = none then return () else expecting expected

theorem run_ending (expected : Expectation) (s : TokenStream) :
    (ending expected).run s =
      if s.rest = [] then .ok ((), s) else .error ⟨.unexpected expected s, s⟩ := by
  have hend : s.next? = none ↔ s.rest = [] := by
    rw [TokenStream.next?_eq_head?, List.head?_eq_none_iff, TokenStream.kinds_eq_nil]
  unfold ending
  rw [run_bind_of_ok (run_next? s)]
  by_cases h : s.rest = []
  · rw [if_pos h, if_pos (hend.mpr h), run_pure]
  · rw [if_neg h, if_neg (h ∘ hend.mp), run_expecting]

theorem ending_eq_ok {expected : Expectation} {s s' : TokenStream} {u : Unit} :
    (ending expected).run s = .ok (u, s') ↔ s.kinds = [] ∧ s = s' := by
  rw [run_ending, TokenStream.kinds_eq_nil]
  split
  · rename_i hend
    simp [hend]
  · rename_i hmore
    simp [hmore]

theorem endOfInput_eq_ok {s s' : TokenStream} {u : Unit} :
    endOfInput.run s = .ok (u, s') ↔ s.kinds = [] ∧ s = s' := by
  show (ending .endOfInput).run s = .ok (u, s') ↔ _
  exact ending_eq_ok

theorem ending_eq_error {expected : Expectation} {s : TokenStream} {stop : Stop} :
    (ending expected).run s = .error stop ↔
      s.rest ≠ [] ∧ stop = ⟨.unexpected expected s, s⟩ := by
  rw [run_ending]
  split
  · rename_i hend
    simp [hend]
  · rename_i hmore
    simp [hmore, eq_comm]

section

variable {α β σ : Type} (opens : Token.Kind → Option β) (turn : σ → β → TokenStream → Phrase σ)
  (state : σ) (value : σ → TokenStream → α) (expected : Expectation)

/-- Runs turns up to the end of the text. -/
def turnsToEnd : Phrase α := do
  let now ← repeatWhile opens turn state
  ending expected
  return value now (← place)

/-- What is made of turns that have to end where the text does, as a phrase. -/
theorem ended_eq_run (s : TokenStream) :
    (do
      let place ← (turns opens turn state s).2
      if place.rest = [] then return value (turns opens turn state s).1 place
      else throw ⟨.unexpected expected place, place⟩ : Except Stop α) =
    (·.1) <$> (turnsToEnd opens turn state value expected).run s := by
  unfold turnsToEnd
  rw [run_bind, run_repeatWhile]
  obtain ⟨now, ended⟩ := turns opens turn state s
  cases ended with
  | error stop => rfl
  | ok place =>
    show (if place.rest = [] then .ok (value now place)
      else .error ⟨.unexpected expected place, place⟩ : Except Stop α) = _
    simp only [run_bind, run_ending]
    split <;> rfl

end

theorem turnsToEnd_eq_ok {α β σ : Type} {opens : Token.Kind → Option β}
    {turn : σ → β → TokenStream → Phrase σ} {state : σ} {value : σ → TokenStream → α}
    {expected : Expectation} {s s' : TokenStream} {a : α} :
    (turnsToEnd opens turn state value expected).run s = .ok (a, s') ↔
      ∃ now, turns opens turn state s = (now, .ok s') ∧ s'.kinds = [] ∧ value now s' = a := by
  constructor
  · intro h
    obtain ⟨now, place, hturns, h⟩ := run_bind_eq_ok.mp h
    obtain ⟨u, end', hend, h⟩ := run_bind_eq_ok.mp h
    rw [run_bind_of_ok (run_place end')] at h
    obtain ⟨rfl, rfl⟩ := run_pure_eq_ok.mp h
    obtain ⟨hnil, rfl⟩ := ending_eq_ok.mp hend
    exact ⟨now, repeatWhile_eq_ok.mp hturns, hnil, rfl⟩
  · rintro ⟨now, hturns, hnil, rfl⟩
    have hend : (ending expected).run s' = .ok ((), s') := ending_eq_ok.mpr ⟨hnil, rfl⟩
    unfold turnsToEnd
    rw [run_bind_of_ok (repeatWhile_eq_ok.mpr hturns), run_bind_of_ok hend,
      run_bind_of_ok (run_place s'), run_pure]

end ObjectTransfer.Phrase
