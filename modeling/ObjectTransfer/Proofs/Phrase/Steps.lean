import ObjectTransfer.Phrase.Words
import Mathlib.Tactic.ByContra

/-!
# What phrases read

Whether a phrase fits depends on the kinds of the tokens that are still to be read. For each basic
phrase two lemmas say how kinds and outcome belong together:

* `…_sound`: if the phrase fits, the tokens it has read stand at the front of the kinds;
* `…_complete`: if those tokens stand at the front, the phrase fits and leaves what follows them.
-/

namespace ObjectTransfer

/-- The kinds of the tokens still to be read. -/
def TokenStream.kinds (s : TokenStream) : List Token.Kind := s.rest.map (·.kind)

namespace TokenStream

theorem next?_eq_head? (s : TokenStream) : s.next? = s.kinds.head? := by
  unfold next? kinds
  rw [List.head?_map]

theorem kinds_drop (s : TokenStream) : s.drop.kinds = s.kinds.tail := by
  unfold kinds
  rw [drop_rest, List.map_tail]

theorem kinds_eq_nil {s : TokenStream} : s.kinds = [] ↔ s.rest = [] := List.map_eq_nil_iff

theorem kinds_eq_cons {s : TokenStream} {kind : Token.Kind} (h : s.next? = some kind) :
    s.kinds = kind :: s.drop.kinds := by
  rw [next?_eq_head?] at h
  obtain ⟨others, hcons⟩ := List.head?_eq_some_iff.mp h
  rw [kinds_drop, hcons, List.tail_cons]

theorem length_rest_eq_succ {s : TokenStream} {kind : Token.Kind} (h : s.next? = some kind) :
    s.rest.length = s.drop.rest.length + 1 := by
  have hlength := congrArg List.length (kinds_eq_cons h)
  rwa [List.length_cons, kinds, kinds, List.length_map, List.length_map] at hlength

theorem next?_of_kinds {s : TokenStream} {kind : Token.Kind} {rest : List Token.Kind}
    (h : s.kinds = kind :: rest) : s.next? = some kind ∧ s.drop.kinds = rest := by
  rw [next?_eq_head?, kinds_drop, h]
  exact ⟨rfl, rfl⟩

end TokenStream

namespace Phrase

variable {α β : Type}

/-! ## What comes next -/

/-- The next token is none of the given marks. -/
def Avoids (marks : List Mark) (rest : List Token.Kind) : Prop :=
  ∀ m ∈ marks, rest.head? ≠ some (.mark m)

theorem Avoids.mono {marks marks' : List Mark} {rest : List Token.Kind} (h : Avoids marks rest)
    (hsubset : marks' ⊆ marks) : Avoids marks' rest := fun m hm => h m (hsubset hm)

theorem avoids_nil (marks : List Mark) : Avoids marks [] := fun _ _ => nofun

theorem avoids_mark_cons {marks : List Mark} {m : Mark} (h : m ∉ marks) (rest : List Token.Kind) :
    Avoids marks (.mark m :: rest) := by
  intro m' hm' heq
  rw [List.head?_cons, Option.some.injEq, Token.Kind.mark.injEq] at heq
  exact h (heq ▸ hm')

theorem avoids_cons {marks : List Mark} {kind : Token.Kind} (h : ∀ m, kind ≠ .mark m)
    (rest : List Token.Kind) : Avoids marks (kind :: rest) := by
  intro m _ heq
  exact h m (Option.some.inj heq)

/-! ## One phrase after another -/

/-- One phrase after another fits if the first fits, and the second where the first has ended. -/
theorem run_bind_eq_ok {p : Phrase α} {q : α → Phrase β} {s s'' : TokenStream} {b : β} :
    (p >>= q).run s = .ok (b, s'') ↔
      ∃ a s', p.run s = .ok (a, s') ∧ (q a).run s' = .ok (b, s'') := by
  rw [run_bind]
  constructor
  · intro h
    split at h
    · rename_i a s' hp
      exact ⟨a, s', hp, h⟩
    · exact absurd h (by simp)
  · rintro ⟨a, s', hp, hq⟩
    rw [hp]
    exact hq

/-- One phrase after another fails if the first fails, or the second where the first has ended. -/
theorem run_bind_eq_error {p : Phrase α} {q : α → Phrase β} {s : TokenStream} {stop : Stop} :
    (p >>= q).run s = .error stop ↔
      p.run s = .error stop ∨ ∃ a s', p.run s = .ok (a, s') ∧ (q a).run s' = .error stop := by
  rw [run_bind]
  constructor
  · intro h
    split at h
    · rename_i a s' hp
      exact .inr ⟨a, s', hp, h⟩
    · rename_i hp
      exact .inl (Except.error.inj h ▸ hp)
  · rintro (hp | ⟨a, s', hp, hq⟩)
    · rw [hp]
    · rw [hp]
      exact hq

theorem run_map_eq_ok {p : Phrase α} {f : α → β} {s s' : TokenStream} {b : β} :
    (f <$> p).run s = .ok (b, s') ↔ ∃ a, p.run s = .ok (a, s') ∧ f a = b := by
  rw [← bind_pure_comp, run_bind_eq_ok]
  constructor
  · rintro ⟨a, s₁, hp, hpure⟩
    rw [run_pure, Except.ok.injEq, Prod.mk.injEq] at hpure
    obtain ⟨rfl, rfl⟩ := hpure
    exact ⟨a, hp, rfl⟩
  · rintro ⟨a, hp, rfl⟩
    exact ⟨a, s', hp, rfl⟩

theorem map_fst_eq_ok {x : Except Stop (α × TokenStream)} {a : α} :
    (·.1) <$> x = .ok a ↔ ∃ s', x = .ok (a, s') := by
  cases x with
  | error stop => simp [Functor.map, Except.map]
  | ok found =>
    obtain ⟨a', s'⟩ := found
    simp [Functor.map, Except.map]

theorem map_fst_eq_error {x : Except Stop (α × TokenStream)} {stop : Stop} :
    (·.1) <$> x = .error stop ↔ x = .error stop := by
  cases x <;> simp [Functor.map, Except.map]

theorem run_map_eq_error {p : Phrase α} {f : α → β} {s : TokenStream} {stop : Stop} :
    (f <$> p).run s = .error stop ↔ p.run s = .error stop := by
  rw [← bind_pure_comp, run_bind_eq_error]
  simp

theorem run_pure_eq_ok {a b : α} {s s' : TokenStream} :
    (pure a : Phrase α).run s = .ok (b, s') ↔ a = b ∧ s = s' := by
  rw [run_pure, Except.ok.injEq, Prod.mk.injEq]

/-! ## Single tokens -/

theorem token_eq_ok {expected : Expectation} {choose : Token.Kind → Option α} {s s' : TokenStream}
    {a : α} :
    (token expected choose).run s = .ok (a, s') ↔ s.next?.bind choose = some a ∧ s' = s.drop := by
  rw [run_token]
  split
  · rename_i a₁ hchoose
    rw [hchoose, Except.ok.injEq, Prod.mk.injEq, Option.some.injEq, eq_comm (a := s')]
  · rename_i hchoose
    simp [hchoose]

theorem token_eq_error {expected : Expectation} {choose : Token.Kind → Option α}
    {s : TokenStream} {stop : Stop} :
    (token expected choose).run s = .error stop ↔
      s.next?.bind choose = none ∧ stop = ⟨.unexpected expected s, s⟩ := by
  rw [run_token]
  split
  · rename_i a₁ hchoose
    simp [hchoose]
  · rename_i hchoose
    rw [hchoose, Except.error.injEq, eq_comm (a := stop)]
    simp

theorem token_sound {expected : Expectation} {choose : Token.Kind → Option α} {s s' : TokenStream}
    {a : α} (h : (token expected choose).run s = .ok (a, s')) :
    ∃ kind, choose kind = some a ∧ s.kinds = kind :: s'.kinds := by
  obtain ⟨hchoose, rfl⟩ := token_eq_ok.mp h
  obtain ⟨kind, hnext, hkind⟩ := Option.bind_eq_some_iff.mp hchoose
  exact ⟨kind, hkind, TokenStream.kinds_eq_cons hnext⟩

theorem token_complete (expected : Expectation) {choose : Token.Kind → Option α} {a : α}
    {s : TokenStream} {kind : Token.Kind} {rest : List Token.Kind} (hkind : choose kind = some a)
    (hs : s.kinds = kind :: rest) :
    ∃ s', (token expected choose).run s = .ok (a, s') ∧ s'.kinds = rest := by
  obtain ⟨hnext, hdrop⟩ := TokenStream.next?_of_kinds hs
  refine ⟨s.drop, ?_, hdrop⟩
  rw [run_token, hnext, Option.bind_some, hkind]

theorem mark_sound {m : Mark} {s s' : TokenStream} {u : Unit}
    (h : (mark m).run s = .ok (u, s')) : s.kinds = .mark m :: s'.kinds := by
  obtain ⟨kind, hkind, hs⟩ := token_sound h
  have hmark : kind = .mark m := by
    by_contra hne
    rw [if_neg hne] at hkind
    exact absurd hkind (by simp)
  rw [hs, hmark]

theorem mark_complete {m : Mark} {s : TokenStream} {rest : List Token.Kind}
    (hs : s.kinds = .mark m :: rest) : ∃ s', (mark m).run s = .ok ((), s') ∧ s'.kinds = rest :=
  token_complete _ (if_pos rfl) hs

theorem run_optionalMark_of_next {m : Mark} {s : TokenStream} (h : s.next? = some (.mark m)) :
    (optionalMark m).run s = .ok (true, s.drop) := by
  rw [run_optionalMark, if_pos h]

theorem run_optionalMark_of_not_next {m : Mark} {s : TokenStream}
    (h : s.next? ≠ some (.mark m)) : (optionalMark m).run s = .ok (false, s) := by
  rw [run_optionalMark, if_neg h]

theorem run_optionalMark_ne_error (m : Mark) (s : TokenStream) (stop : Stop) :
    (optionalMark m).run s ≠ .error stop := by
  rw [run_optionalMark]
  split <;> simp

/-- The kinds of a mark that may be left out. -/
def optionalMarkKinds (m : Mark) (present : Bool) : List Token.Kind :=
  if present then [.mark m] else []

theorem avoids_optionalMarkKinds_append {marks : List Mark} {m : Mark} (hm : m ∉ marks)
    (present : Bool) {rest : List Token.Kind} (hrest : Avoids marks rest) :
    Avoids marks (optionalMarkKinds m present ++ rest) := by
  cases present with
  | true => exact avoids_mark_cons hm rest
  | false => exact hrest

/-- The kinds of a part that may be left out. -/
def optionalKinds {τ : Type} (kinds : τ → List Token.Kind) : Option τ → List Token.Kind
  | none => []
  | some t => kinds t

theorem avoids_optionalKinds_append {τ : Type} {marks : List Mark} {kinds : τ → List Token.Kind}
    (hkinds : ∀ t rest, Avoids marks (kinds t ++ rest)) (t? : Option τ) {rest : List Token.Kind}
    (hrest : Avoids marks rest) : Avoids marks (optionalKinds kinds t? ++ rest) := by
  cases t? with
  | some t => exact hkinds t rest
  | none => exact hrest

theorem optionalMark_sound {m : Mark} {s s' : TokenStream} {present : Bool}
    (h : (optionalMark m).run s = .ok (present, s')) :
    s.kinds = optionalMarkKinds m present ++ s'.kinds := by
  rw [run_optionalMark] at h
  split at h
  · rename_i hnext
    obtain ⟨rfl, rfl⟩ := Prod.mk.inj (Except.ok.inj h)
    exact TokenStream.kinds_eq_cons hnext
  · obtain ⟨rfl, rfl⟩ := Prod.mk.inj (Except.ok.inj h)
    rfl

theorem optionalMark_complete {m : Mark} (present : Bool) {s : TokenStream}
    {rest : List Token.Kind} (hs : s.kinds = optionalMarkKinds m present ++ rest)
    (hrest : present = false → Avoids [m] rest) :
    ∃ s', (optionalMark m).run s = .ok (present, s') ∧ s'.kinds = rest := by
  rw [run_optionalMark, TokenStream.next?_eq_head?, hs]
  cases present with
  | true => exact ⟨s.drop, if_pos rfl, by rw [TokenStream.kinds_drop, hs]; rfl⟩
  | false => exact ⟨s, if_neg (hrest rfl m List.mem_cons_self), hs⟩

end Phrase
end ObjectTransfer
