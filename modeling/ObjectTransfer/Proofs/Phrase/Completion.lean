import ObjectTransfer.Proofs.Phrase.Words

/-!
# What would have helped where a phrase stops

A phrase that stops says what it expected. The expectation names a token that would have helped: the
tokens read so far and the one that is named are the start of tokens that the rule of the phrase
derives (`Explained`). What is explained inside a part is explained inside the whole
(`Explained.within`), since every part that is begun can be ended.

Types are stopped at before their first token if they are nested too deep. The token before that is
a mark, and phrases that may start with a type are seen from there.
-/

namespace ObjectTransfer

/-- The tokens that an expectation names; none is the end of the text. Where a member has to be an
action, it is the name of one. -/
def Expectation.Names : Expectation → Option Token.Kind → Prop
  | .mark m, next => next = some (.mark m)
  | .declaration, next => next = some (.keyword .modelWord) ∨ next = some (.keyword .typeWord)
  | .memberShape, next => next = some (.mark .colon) ∨ next = some (.mark .openParen)
  | .unionValue, next =>
    (∃ value, next = some (.literal (.string value))) ∨ ∃ name, next = some (.identifier name)
  | .literal, next => ∃ value, next = some (.literal value)
  | .endOfInput, next => next = none
  | .modelName, next | .parentName, next | .memberName, next | .action, next | .typeName, next
  | .parameterName, next | .relationName, next | .filterName, next | .responseTypeName, next
  | .fieldName, next => ∃ name, next = some (.identifier name)

/-- `reached` is how far reading has come when the token at `place` is found not to be the expected
one: up to that token. That a member has to be an action is found behind its name, at the colon. -/
def Expectation.UnmetAt (expected : Expectation) (place reached : TokenStream) : Prop :=
  expected ≠ .action ∧ reached = place ∨
    expected = .action ∧ (∃ kind, place.next? = some kind) ∧ reached = place.drop ∧
      reached.next? = some (.mark .colon)

namespace TokenStream

/-- `s` is what is left of `o` after the tokens `before`. -/
structure After (before : List Token.Kind) (s o : TokenStream) : Prop where
  kinds : o.kinds = before ++ s.kinds
  follows : s.Follows o

theorem after_refl (s : TokenStream) : s.After [] s := ⟨rfl, s.follows_refl⟩

theorem After.trans {before before' : List Token.Kind} {s s' o : TokenStream}
    (h' : s'.After before' s) (h : s.After before o) : s'.After (before ++ before') o :=
  ⟨by rw [h.kinds, h'.kinds, List.append_assoc], h'.follows.trans h.follows⟩

theorem after_drop {s : TokenStream} {kind : Token.Kind} (h : s.next? = some kind) :
    s.drop.After [kind] s := ⟨kinds_eq_cons h, s.drop_follows⟩

end TokenStream

namespace Phrase

variable {α β σ τ : Type}

/-- The kinds can be continued to ones of `Language`. -/
def Begins (Language : List Token.Kind → Prop) (kinds : List Token.Kind) : Prop :=
  ∃ more, Language (kinds ++ more)

/-- The stop is one that a phrase for `Language` may come to on `o`. If a token is not the expected
one, the tokens before it and one that is named instead begin a text of the language. -/
inductive Explained (Language : List Token.Kind → Prop) (o : TokenStream) : Stop → Prop
  | unexpected {expected : Expectation} {place reached : TokenStream} {before : List Token.Kind}
      {next : Token.Kind} (after : place.After before o) (unmet : expected.UnmetAt place reached)
      (named : expected.Names (some next)) (begins : Begins Language (before ++ [next])) :
      Explained Language o ⟨.unexpected expected place, reached⟩
  | tooDeep {place : TokenStream} {before : List Token.Kind} {m : Mark} (mark : m ≠ .dot)
      (after : place.After (before ++ [.mark m]) o) : Explained Language o ⟨.tooDeep place, place⟩

/-- As `Explained`, for a phrase that reads to the end of the text: what is missing may be the
end. -/
inductive ExplainedToEnd (Language : List Token.Kind → Prop) (o : TokenStream) : Stop → Prop
  | inside {stop : Stop} (h : Explained Language o stop) : ExplainedToEnd Language o stop
  | ended {place : TokenStream} {before : List Token.Kind} (after : place.After before o)
      (whole : Language before) : ExplainedToEnd Language o ⟨.unexpected .endOfInput place, place⟩

section

variable {Language Language' : List Token.Kind → Prop} {before : List Token.Kind}
  {s o : TokenStream} {stop : Stop}

/-- What explains a stop inside a part explains it inside the whole. -/
theorem Explained.within (h : Explained Language' s stop) (hs : s.After before o)
    (hpart : ∀ kinds, Language' kinds → Begins Language (before ++ kinds)) :
    Explained Language o stop := by
  cases h with
  | unexpected after unmet named begins =>
    obtain ⟨more, hmore⟩ := begins
    obtain ⟨others, hothers⟩ := hpart _ hmore
    refine .unexpected (after.trans hs) unmet named ⟨more ++ others, ?_⟩
    simpa only [List.append_assoc] using hothers
  | tooDeep mark after =>
    have hafter := after.trans hs
    rw [← List.append_assoc] at hafter
    exact .tooDeep mark hafter

/-- What begins a text of a part begins one of the whole, if nothing stands before the part. -/
theorem Explained.mono (h : Explained Language' o stop)
    (hpart : ∀ kinds, Language' kinds → Begins Language kinds) : Explained Language o stop :=
  h.within o.after_refl hpart

theorem ExplainedToEnd.mono (h : ExplainedToEnd Language' o stop)
    (hlanguage : ∀ kinds, Language' kinds → Language kinds) : ExplainedToEnd Language o stop := by
  cases h with
  | inside h =>
    refine .inside (h.mono fun ks hks => ⟨[], ?_⟩)
    rw [List.append_nil]
    exact hlanguage ks hks
  | ended after whole => exact .ended after (hlanguage _ whole)

/-- A token that is not the expected one. -/
theorem explained_token {expected : Expectation} {choose : Token.Kind → Option α}
    (h : (token expected choose).run s = .error stop) (hs : s.After before o)
    (hexpected : expected ≠ .action) {next : Token.Kind} (hnamed : expected.Names (some next))
    (hbegins : Begins Language (before ++ [next])) : Explained Language o stop := by
  obtain ⟨-, rfl⟩ := token_eq_error.mp h
  exact .unexpected hs (.inl ⟨hexpected, rfl⟩) hnamed hbegins

theorem after_mark {m : Mark} {s s' : TokenStream} {u : Unit}
    (h : (mark m).run s = .ok (u, s')) : s'.After [.mark m] s :=
  ⟨mark_sound h, (mark m).forward h⟩

theorem after_identifier {expected : Expectation} {s s' : TokenStream} {name : String}
    (h : (identifier expected).run s = .ok (name, s')) : s'.After [.identifier name] s :=
  ⟨identifier_sound h, (identifier expected).forward h⟩

theorem after_optionalMark {m : Mark} {s s' : TokenStream} {present : Bool}
    (h : (optionalMark m).run s = .ok (present, s')) :
    s'.After (optionalMarkKinds m present) s :=
  ⟨optionalMark_sound h, (optionalMark m).forward h⟩

theorem after_closeBrace {item : Expectation} {s s' : TokenStream} {u : Unit}
    (h : (closeBrace item).run s = .ok (u, s')) : s'.After [.mark .closeBrace] s :=
  ⟨closeBrace_sound h, (closeBrace item).forward h⟩

/-- A list that is neither closed nor continued. Both the brace and one more item would do. -/
theorem explained_closeBrace {item : Expectation} (h : (closeBrace item).run s = .error stop)
    (hs : s.After before o) (hitem : item ≠ .action) {next : Token.Kind}
    (hnamed : item.Names (some next)) (hclose : Begins Language (before ++ [.mark .closeBrace]))
    (hnext : Begins Language (before ++ [next])) : Explained Language o stop := by
  rcases run_bind_eq_error.mp h with hfail | ⟨closed, s', hclosed, hfail⟩
  · exact absurd hfail (run_optionalMark_ne_error _ _ _)
  · rw [run_optionalMark] at hclosed
    split at hclosed
    · obtain ⟨rfl, rfl⟩ := Prod.mk.inj (Except.ok.inj hclosed)
      simp at hfail
    · obtain ⟨rfl, rfl⟩ := Prod.mk.inj (Except.ok.inj hclosed)
      rw [if_neg Bool.false_ne_true, run_bind_of_ok (run_next? s)] at hfail
      split at hfail
      · rw [run_expecting, Except.error.injEq] at hfail
        rw [← hfail]
        exact .unexpected hs (.inl ⟨by decide, rfl⟩) rfl hclose
      · rw [run_expecting, Except.error.injEq] at hfail
        rw [← hfail]
        exact .unexpected hs (.inl ⟨hitem, rfl⟩) hnamed hnext

end

/-! ## Repetitions -/

/-- The kinds of something good. -/
def KindsOf (kinds : τ → List Token.Kind) (Good : τ → Prop) (ks : List Token.Kind) : Prop :=
  ∃ t, Good t ∧ kinds t = ks

/-- The kinds of any number of good things. -/
def KindsOfAll (kinds : τ → List Token.Kind) (Good : τ → Prop) (ks : List Token.Kind) : Prop :=
  ∃ items : List τ, (∀ t ∈ items, Good t) ∧ items.flatMap kinds = ks

/-- If turns stop, one of them does, at a place where what every turn preserves still holds. -/
theorem exists_turn_of_repeatWhile_eq_error {opens : Token.Kind → Option β}
    {turn : σ → β → TokenStream → Phrase σ} {Inv : σ → TokenStream → Prop}
    (hturn : ∀ {state b s state' s'}, Inv state s → s.next?.bind opens = some b →
      (turn state b s).run s.drop = .ok (state', s') → Inv state' s')
    {state : σ} {s : TokenStream} (hstart : Inv state s) {stop : Stop}
    (h : (repeatWhile opens turn state).run s = .error stop) :
    ∃ now b place, Inv now place ∧ place.Follows s ∧ place.next?.bind opens = some b ∧
      (turn now b place).run place.drop = .error stop := by
  have hboth : ∀ {now b place now' place'}, Inv now place ∧ place.Follows s →
      place.next?.bind opens = some b → (turn now b place).run place.drop = .ok (now', place') →
      Inv now' place' ∧ place'.Follows s := by
    rintro now b place now' place' ⟨hinv, hfollows⟩ hopens hrun
    exact ⟨hturn hinv hopens hrun,
      ((turn now b place).forward hrun).trans (place.drop_follows.trans hfollows)⟩
  have hend := turns_invariant hboth ⟨hstart, s.follows_refl⟩
  obtain ⟨now, hturns⟩ := repeatWhile_eq_error.mp h
  rw [hturns] at hend
  obtain ⟨place, b, ⟨hinv, hfollows⟩, hopens, hfail⟩ := hend
  exact ⟨now, b, place, hinv, hfollows, hopens, hfail⟩

/-- If each turn reads one item and keeps it, and its stops are explained by the item, the stops of
the turns are explained by a list of items. -/
theorem explained_collected {γ : Type} {opens : Token.Kind → Option β}
    {turn : List α → β → TokenStream → Phrase (List α)} {kinds : τ → List Token.Kind}
    {value : τ → γ} {shown : α → γ} {Good : τ → Prop}
    (hturn : ∀ {seen b s seen' s'}, s.next?.bind opens = some b →
      (turn seen b s).run s.drop = .ok (seen', s') →
      ∃ a t, seen' = a :: seen ∧ Good t ∧ value t = shown a ∧ s.kinds = kinds t ++ s'.kinds)
    (hstop : ∀ {seen b s stop}, s.next?.bind opens = some b →
      (turn seen b s).run s.drop = .error stop → Explained (KindsOf kinds Good) s stop)
    {seen : List α} {s : TokenStream} {stop : Stop}
    (h : (repeatWhile opens turn seen).run s = .error stop) :
    Explained (KindsOfAll kinds Good) s stop := by
  have hpreserved : ∀ {now b place now' place'}, Collected kinds value shown Good seen s now place →
      place.next?.bind opens = some b → (turn now b place).run place.drop = .ok (now', place') →
      Collected kinds value shown Good seen s now' place' :=
    fun hnow => hnow.after_turn hturn
  obtain ⟨now, b, place, ⟨items, hgood, -, hs⟩, hfollows, hopens, hfail⟩ :=
    exists_turn_of_repeatWhile_eq_error hpreserved (collected_refl Good seen s) h
  refine (hstop hopens hfail).within ⟨hs, hfollows⟩ ?_
  rintro _ ⟨t, ht, rfl⟩
  have hall : ∀ u ∈ items ++ [t], Good u :=
    List.forall_mem_append.mpr ⟨hgood, List.forall_mem_singleton.mpr ht⟩
  exact ⟨[], items ++ [t], hall, by simp⟩

/-- Items with marks between them, behind a mark. An item may stop before its first token, so it is
explained together with the mark in front of it. -/
theorem explained_separatedBy {separator m : Mark} {item : Phrase α} {kinds : τ → List Token.Kind}
    {value : τ → α} {Good : τ → Prop}
    (hitem : ∀ {s a s'}, item.run s = .ok (a, s') →
      ∃ t, Good t ∧ value t = a ∧ s.kinds = kinds t ++ s'.kinds)
    (hstop : ∀ {m s o stop}, m ≠ .dot → s.After [.mark m] o → item.run s = .error stop →
      Explained (KindsOf (fun t => .mark m :: kinds t) Good) o stop)
    (hseparator : separator ≠ .dot) (hm : m ≠ .dot) {s o : TokenStream} {stop : Stop}
    (hs : s.After [.mark m] o) (h : (separatedBy separator item).run s = .error stop) :
    Explained
      (fun ks => ∃ first others, (∀ t ∈ first :: others, Good t) ∧
        .mark m :: separated separator kinds first others = ks) o stop := by
  rcases run_bind_eq_error.mp h with hfirst | ⟨a, s₁, hfirst, h⟩
  · refine (hstop hm hs hfirst).mono ?_
    rintro _ ⟨first, hgood, rfl⟩
    exact ⟨[], first, [], List.forall_mem_singleton.mpr hgood, by simp [separated]⟩
  · obtain ⟨first, hgood, -, hkinds⟩ := hitem hfirst
    have hs₁ : s₁.After (.mark m :: kinds first) o :=
      TokenStream.After.trans ⟨hkinds, item.forward hfirst⟩ hs
    rcases run_bind_eq_error.mp h with hothers | ⟨_, _, -, h⟩
    · have hturnStop : ∀ {seen : List α} {b : Unit} {place : TokenStream} {stop},
          place.next?.bind (opensAt separator) = some b →
          (do return (← item) :: seen : Phrase (List α)).run place.drop = .error stop →
          Explained (KindsOf (fun t => .mark separator :: kinds t) Good) place stop := by
        intro seen b place stop' hopens hrun
        have hplace := TokenStream.after_drop (bind_opensAt_eq_some.mp hopens)
        rcases run_bind_eq_error.mp hrun with hfail | ⟨_, _, -, hpure⟩
        · exact hstop hseparator hplace hfail
        · simp at hpure
      refine (explained_collected (separatedTurn_sound hitem) hturnStop hothers).within hs₁ ?_
      rintro _ ⟨others, hothers, rfl⟩
      refine ⟨[], first, others, List.forall_mem_cons.mpr ⟨hgood, hothers⟩, ?_⟩
      simp [separated]
    · simp at h

end Phrase
end ObjectTransfer
