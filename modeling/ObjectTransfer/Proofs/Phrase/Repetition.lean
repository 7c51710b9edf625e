import ObjectTransfer.Proofs.Phrase.Steps

/-!
# What repetitions read

`turns_invariant` is the run lemma of all loops: what each turn preserves holds of the state that the
turns reach, and of the tokens they leave. The other way goes by single turns: one that reads an item
is the first of the turns over tokens that start with it (`ReadsItem.turns_eq`). From both follows
what a loop that keeps its items reads (`collected_sound`, `collected_complete`), and with it a list
of items with marks between them (`separatedBy_sound`, `separatedBy_complete`).
-/

namespace ObjectTransfer.Phrase

variable {α β σ τ : Type}

/-! ## Turns -/

/-- What every turn preserves holds where the turns end: before a token that opens none, or before
the turn that fails. -/
theorem turns_invariant {opens : Token.Kind → Option β} {turn : σ → β → TokenStream → Phrase σ}
    {Inv : σ → TokenStream → Prop}
    (hturn : ∀ {state b s state' s'}, Inv state s → s.next?.bind opens = some b →
      (turn state b s).run s.drop = .ok (state', s') → Inv state' s')
    {state : σ} {s : TokenStream} (hstart : Inv state s) :
    match turns opens turn state s with
    | (state', .ok s') => Inv state' s' ∧ s'.next?.bind opens = none
    | (state', .error f) => ∃ s' b, Inv state' s' ∧ s'.next?.bind opens = some b ∧
        (turn state' b s').run s'.drop = .error f := by
  -- By induction on the turns: in the third case one fits, and `hturn` carries the invariant on.
  fun_induction turns opens turn state s with
  | case1 state s hrest =>
    refine ⟨hstart, ?_⟩
    simp [TokenStream.next?, hrest]
  | case2 state s t ts hrest hopens =>
    refine ⟨hstart, ?_⟩
    simp [TokenStream.next?, hrest, hopens]
  | case3 state s t ts hrest b hopens state' s' hrun ih =>
    have hnext : s.next?.bind opens = some b := by
      simp [TokenStream.next?, hrest, hopens]
    exact ih (hturn hstart hnext hrun)
  | case4 state s t ts hrest b hopens f hrun =>
    refine ⟨s, b, hstart, ?_, hrun⟩
    simp [TokenStream.next?, hrest, hopens]

/-- The invariant of turns that all fit. -/
theorem invariant_of_turns_eq_ok {opens : Token.Kind → Option β}
    {turn : σ → β → TokenStream → Phrase σ} {Inv : σ → TokenStream → Prop}
    (hturn : ∀ {state b s state' s'}, Inv state s → s.next?.bind opens = some b →
      (turn state b s).run s.drop = .ok (state', s') → Inv state' s')
    {state state' : σ} {s s' : TokenStream} (hstart : Inv state s)
    (h : turns opens turn state s = (state', .ok s')) :
    Inv state' s' ∧ s'.next?.bind opens = none := by
  have hend := turns_invariant hturn hstart
  rw [h] at hend
  exact hend

theorem run_repeatWhile (opens : Token.Kind → Option β) (turn : σ → β → TokenStream → Phrase σ)
    (state : σ) (s : TokenStream) :
    (repeatWhile opens turn state).run s =
      match turns opens turn state s with
      | (state', .ok s') => .ok (state', s')
      | (_, .error stop) => .error stop := rfl

theorem repeatWhile_eq_ok {opens : Token.Kind → Option β} {turn : σ → β → TokenStream → Phrase σ}
    {state state' : σ} {s s' : TokenStream} :
    (repeatWhile opens turn state).run s = .ok (state', s') ↔
      turns opens turn state s = (state', .ok s') := by
  rw [run_repeatWhile]
  split
  · rename_i hturns
    rw [hturns, Except.ok.injEq, Prod.mk.injEq, Prod.mk.injEq, Except.ok.injEq]
  · rename_i hturns
    rw [hturns]
    simp

theorem repeatWhile_eq_error {opens : Token.Kind → Option β}
    {turn : σ → β → TokenStream → Phrase σ} {state : σ} {s : TokenStream} {stop : Stop} :
    (repeatWhile opens turn state).run s = .error stop ↔
      ∃ state', turns opens turn state s = (state', .error stop) := by
  rw [run_repeatWhile]
  split
  · rename_i hturns
    simp [hturns]
  · rename_i hturns
    simp [hturns]

theorem run_repeatWhile_of_closed {opens : Token.Kind → Option β}
    {turn : σ → β → TokenStream → Phrase σ} {state : σ} {s : TokenStream}
    (h : s.next?.bind opens = none) : (repeatWhile opens turn state).run s = .ok (state, s) :=
  repeatWhile_eq_ok.mpr (turns_of_closed h)

/-- A token that opens a turn is passed over; the turn comes next, then the others. -/
theorem run_repeatWhile_of_opened {opens : Token.Kind → Option β}
    {turn : σ → β → TokenStream → Phrase σ} {state : σ} {s : TokenStream} {b : β}
    (h : s.next?.bind opens = some b) :
    (repeatWhile opens turn state).run s =
      (turn state b s >>= repeatWhile opens turn).run s.drop := by
  rw [run_repeatWhile, turns_of_opened h, run_bind]
  cases (turn state b s).run s.drop <;> rfl

/-- What opens a turn that a mark opens. -/
abbrev opensAt (m : Mark) : Token.Kind → Option Unit :=
  fun kind => if kind = .mark m then some () else none

theorem bind_opensAt_eq_some {m : Mark} {next : Option Token.Kind} {u : Unit} :
    next.bind (opensAt m) = some u ↔ next = some (.mark m) := by
  cases next with
  | none => simp
  | some kind => simp

theorem bind_opensAt_eq_none {m : Mark} {next : Option Token.Kind} :
    next.bind (opensAt m) = none ↔ next ≠ some (.mark m) := by
  cases next with
  | none => simp
  | some kind => simp

/-- What holds in front of an item, and of the tokens after a list of items, holds in front of the
list. -/
theorem holds_flatMap_append {kinds : τ → List Token.Kind} {P : List Token.Kind → Prop}
    (hitem : ∀ t rest, P (kinds t ++ rest)) {rest : List Token.Kind} (hrest : P rest)
    (items : List τ) : P (items.flatMap kinds ++ rest) := by
  cases items with
  | nil => exact hrest
  | cons t ts =>
    rw [List.flatMap_cons, List.append_assoc]
    exact hitem t _

/-- `turn` reads the item `t` in the state `state`: wherever the kinds start with those of `t`, and go
on in a way that does not prolong it, the first of them opens a turn that reaches a state as `After`
says and leaves what follows the item. -/
def ReadsItem (opens : Token.Kind → Option β) (turn : σ → β → TokenStream → Phrase σ)
    (kinds : τ → List Token.Kind) (Follow : List Token.Kind → Prop) (state : σ) (t : τ)
    (After : σ → Prop) : Prop :=
  ∀ ⦃s : TokenStream⦄ ⦃rest : List Token.Kind⦄, s.kinds = kinds t ++ rest → Follow rest →
    ∃ b state' s', s.next?.bind opens = some b ∧
      (turn state b s).run s.drop = .ok (state', s') ∧ After state' ∧ s'.kinds = rest

/-- A turn that reads an item is the first of the turns over tokens that start with it. -/
theorem ReadsItem.turns_eq {opens : Token.Kind → Option β} {turn : σ → β → TokenStream → Phrase σ}
    {kinds : τ → List Token.Kind} {Follow : List Token.Kind → Prop} {state : σ} {t : τ}
    {After : σ → Prop} (h : ReadsItem opens turn kinds Follow state t After) {s : TokenStream}
    {rest : List Token.Kind} (hs : s.kinds = kinds t ++ rest) (hrest : Follow rest) :
    ∃ state' s', turns opens turn state s = turns opens turn state' s' ∧ After state' ∧
      s'.kinds = rest := by
  obtain ⟨b, state', s', hopens, hturn, hafter, hs'⟩ := h hs hrest
  refine ⟨state', s', ?_, hafter, hs'⟩
  rw [turns_of_opened hopens, hturn]

/-- Turns end before tokens that open none. -/
theorem turns_of_stop {opens : Token.Kind → Option β} {turn : σ → β → TokenStream → Phrase σ}
    {state : σ} {s : TokenStream} {rest : List Token.Kind} (hs : s.kinds = rest)
    (hstop : rest.head?.bind opens = none) : turns opens turn state s = (state, .ok s) := by
  apply turns_of_closed
  rw [TokenStream.next?_eq_head?, hs]
  exact hstop

/-! ## Turns that collect

The state of most loops is the list of what has been read, latest first. `shown` is what the
statements say about each of these, `value` is what the item it was read from says. -/

section

variable {γ : Type} {opens : Token.Kind → Option β} {turn : List α → β → TokenStream → Phrase (List α)}
  {kinds : τ → List Token.Kind} {value : τ → γ} {shown : α → γ}

/-- The tokens from `s` up to `place` are those of good items, and `now` keeps these items in front of
what `seen` has kept. -/
def Collected (kinds : τ → List Token.Kind) (value : τ → γ) (shown : α → γ) (Good : τ → Prop)
    (seen : List α) (s : TokenStream) (now : List α) (place : TokenStream) : Prop :=
  ∃ items : List τ, (∀ t ∈ items, Good t) ∧
    now.reverse.map shown = seen.reverse.map shown ++ items.map value ∧
    s.kinds = items.flatMap kinds ++ place.kinds

/-- One more item is read and kept. -/
theorem Collected.step {Good : τ → Prop} {seen now : List α} {s place place' : TokenStream}
    (h : Collected kinds value shown Good seen s now place) {a : α} {t : τ} (ht : Good t)
    (hvalue : value t = shown a) (hread : place.kinds = kinds t ++ place'.kinds) :
    Collected kinds value shown Good seen s (a :: now) place' := by
  obtain ⟨items, hgood, hnow, hs⟩ := h
  refine ⟨items ++ [t], ?_, ?_, ?_⟩
  · exact List.forall_mem_append.mpr ⟨hgood, List.forall_mem_singleton.mpr ht⟩
  · rw [List.reverse_cons, List.map_append, hnow, List.map_append, List.append_assoc,
      List.map_singleton, List.map_singleton, hvalue]
  · rw [hs, hread, List.flatMap_append, List.flatMap_singleton, List.append_assoc]

/-- A turn that reads one item and keeps it goes one step on. -/
theorem Collected.after_turn {Good : τ → Prop}
    (hturn : ∀ {seen b s seen' s'}, s.next?.bind opens = some b →
      (turn seen b s).run s.drop = .ok (seen', s') →
      ∃ a t, seen' = a :: seen ∧ Good t ∧ value t = shown a ∧ s.kinds = kinds t ++ s'.kinds)
    {seen now now' : List α} {b : β} {s place place' : TokenStream}
    (h : Collected kinds value shown Good seen s now place)
    (hopens : place.next?.bind opens = some b)
    (hrun : (turn now b place).run place.drop = .ok (now', place')) :
    Collected kinds value shown Good seen s now' place' := by
  obtain ⟨a, t, rfl, ht, hvalue, hread⟩ := hturn hopens hrun
  exact h.step ht hvalue hread

theorem collected_refl (Good : τ → Prop) (seen : List α) (s : TokenStream) :
    Collected kinds value shown Good seen s seen s :=
  ⟨[], List.forall_mem_nil _, (List.append_nil _).symm, rfl⟩

/-- If each turn reads one item and keeps it, the turns read a list of items and keep them all. -/
theorem collected_sound {Good : τ → Prop}
    (hturn : ∀ {seen b s seen' s'}, s.next?.bind opens = some b →
      (turn seen b s).run s.drop = .ok (seen', s') →
      ∃ a t, seen' = a :: seen ∧ Good t ∧ value t = shown a ∧ s.kinds = kinds t ++ s'.kinds)
    {seen seen' : List α} {s s' : TokenStream} (h : turns opens turn seen s = (seen', .ok s')) :
    Collected kinds value shown Good seen s seen' s' := by
  have hpreserved : ∀ {now b place now' place'}, Collected kinds value shown Good seen s now place →
      place.next?.bind opens = some b → (turn now b place).run place.drop = .ok (now', place') →
      Collected kinds value shown Good seen s now' place' :=
    fun hnow => hnow.after_turn hturn
  exact (invariant_of_turns_eq_ok hpreserved (collected_refl Good seen s) h).1

/-- If a turn reads each item of a list and keeps it, the turns read the list and keep its items. -/
theorem collected_complete {Follow : List Token.Kind → Prop} {items : List τ}
    (hitem : ∀ t ∈ items, ∀ seen, ReadsItem opens turn kinds Follow seen t
      fun seen' => ∃ a, seen' = a :: seen ∧ shown a = value t)
    {rest : List Token.Kind} (hfollow : ∀ ts : List τ, Follow (ts.flatMap kinds ++ rest))
    (seen : List α) {s : TokenStream} (hs : s.kinds = items.flatMap kinds ++ rest) :
    ∃ seen' s', turns opens turn seen s = turns opens turn seen' s' ∧
      seen'.reverse.map shown = seen.reverse.map shown ++ items.map value ∧ s'.kinds = rest := by
  -- By induction on the items; `hfollow` says that the further ones may follow the first.
  induction items generalizing seen s with
  | nil => exact ⟨seen, s, rfl, (List.append_nil _).symm, hs⟩
  | cons t ts ih =>
    rw [List.flatMap_cons, List.append_assoc] at hs
    rw [List.forall_mem_cons] at hitem
    obtain ⟨_, s₁, hturn, ⟨a, rfl, ha⟩, hs₁⟩ := (hitem.1 seen).turns_eq hs (hfollow ts)
    obtain ⟨seen', s', hturns, hseen, hs'⟩ := ih hitem.2 (a :: seen) hs₁
    refine ⟨seen', s', hturn.trans hturns, ?_, hs'⟩
    rw [hseen, List.reverse_cons, List.map_append, List.map_singleton, ha, List.append_assoc,
      List.map_cons, List.singleton_append]

end

/-! ## Items with marks between them -/

/-- The kinds of one item and any number of further ones, each after a mark. -/
def separated (separator : Mark) (kinds : τ → List Token.Kind) (first : τ) (others : List τ) :
    List Token.Kind :=
  kinds first ++ others.flatMap fun t => .mark separator :: kinds t

/-- A turn reads a mark and an item. -/
theorem separatedTurn_sound {separator : Mark} {item : Phrase α} {kinds : τ → List Token.Kind}
    {value : τ → α} {Good : τ → Prop}
    (hitem : ∀ {s a s'}, item.run s = .ok (a, s') →
      ∃ t, Good t ∧ value t = a ∧ s.kinds = kinds t ++ s'.kinds)
    {seen seen' : List α} {b : Unit} {place place' : TokenStream}
    (hopens : place.next?.bind (opensAt separator) = some b)
    (hrun : (do return (← item) :: seen : Phrase (List α)).run place.drop = .ok (seen', place')) :
    ∃ a t, seen' = a :: seen ∧ Good t ∧ value t = id a ∧
      place.kinds = (.mark separator :: kinds t) ++ place'.kinds := by
  obtain ⟨a, s, hread, hpure⟩ := run_bind_eq_ok.mp hrun
  obtain ⟨rfl, rfl⟩ := run_pure_eq_ok.mp hpure
  obtain ⟨t, ht, hvalue, hdrop⟩ := hitem hread
  refine ⟨a, t, rfl, ht, hvalue, ?_⟩
  rw [TokenStream.kinds_eq_cons (bind_opensAt_eq_some.mp hopens), hdrop, List.cons_append]

theorem separatedBy_sound {separator : Mark} {item : Phrase α} {kinds : τ → List Token.Kind}
    {value : τ → α} {Good : τ → Prop}
    (hitem : ∀ {s a s'}, item.run s = .ok (a, s') →
      ∃ t, Good t ∧ value t = a ∧ s.kinds = kinds t ++ s'.kinds)
    {s s' : TokenStream} {values : List α}
    (h : (separatedBy separator item).run s = .ok (values, s')) :
    ∃ first others, (∀ t ∈ first :: others, Good t) ∧ (first :: others).map value = values ∧
      s.kinds = separated separator kinds first others ++ s'.kinds := by
  obtain ⟨a, s₁, hfirst, h⟩ := run_bind_eq_ok.mp h
  obtain ⟨first, hgood, rfl, hs⟩ := hitem hfirst
  obtain ⟨seen, s₂, hothers, h⟩ := run_bind_eq_ok.mp h
  obtain ⟨rfl, rfl⟩ := run_pure_eq_ok.mp h
  obtain ⟨others, hgoods, hseen, hkinds⟩ :=
    collected_sound (separatedTurn_sound hitem) (repeatWhile_eq_ok.mp hothers)
  rw [List.map_id, List.map_id] at hseen
  refine ⟨first, others, List.forall_mem_cons.mpr ⟨hgood, hgoods⟩, hseen.symm, ?_⟩
  rw [hs, hkinds, separated, List.append_assoc]

theorem separatedBy_complete {separator : Mark} {item : Phrase α} {kinds : τ → List Token.Kind}
    {value : τ → α} {Follow : List Token.Kind → Prop} {first : τ} {others : List τ}
    (hitem : ∀ t ∈ first :: others, ∀ {s rest}, s.kinds = kinds t ++ rest → Follow rest →
      ∃ s', item.run s = .ok (value t, s') ∧ s'.kinds = rest)
    {rest : List Token.Kind} (hseparator : ∀ kinds, Follow (.mark separator :: kinds))
    (hrest : Follow rest) (hstop : Avoids [separator] rest) {s : TokenStream}
    (hs : s.kinds = separated separator kinds first others ++ rest) :
    ∃ s', (separatedBy separator item).run s = .ok ((first :: others).map value, s') ∧
      s'.kinds = rest := by
  have hfollow : ∀ ts : List τ,
      Follow (ts.flatMap (fun t => .mark separator :: kinds t) ++ rest) :=
    holds_flatMap_append (fun _ _ => hseparator _) hrest
  rw [separated, List.append_assoc] at hs
  obtain ⟨s₁, hfirst, hs₁⟩ := hitem first List.mem_cons_self hs (hfollow others)
  have hturn : ∀ t ∈ others, ∀ seen : List α,
      ReadsItem (opensAt separator) (fun items () _ => do return (← item) :: items)
        (fun t => .mark separator :: kinds t) Follow seen t
        fun seen' => ∃ a, seen' = a :: seen ∧ id a = value t := by
    intro t ht seen place rest' hplace hrest'
    obtain ⟨hnext, hdrop⟩ := TokenStream.next?_of_kinds hplace
    obtain ⟨s₂, hrun, hs₂⟩ := hitem t (List.mem_cons_of_mem first ht) hdrop hrest'
    refine ⟨(), value t :: seen, s₂, bind_opensAt_eq_some.mpr hnext, ?_, ⟨_, rfl, rfl⟩, hs₂⟩
    rw [run_bind_of_ok hrun, run_pure]
  obtain ⟨seen, s', hturns, hseen, hs'⟩ := collected_complete hturn hfollow [value first] hs₁
  have hended := bind_opensAt_eq_none.mpr (hstop separator List.mem_cons_self)
  rw [turns_of_stop hs' hended] at hturns
  rw [List.map_id, List.map_id] at hseen
  refine ⟨s', ?_, hs'⟩
  unfold separatedBy
  rw [run_bind_of_ok hfirst, run_bind_of_ok (repeatWhile_eq_ok.mpr hturns), run_pure, hseen]
  rfl

end ObjectTransfer.Phrase
