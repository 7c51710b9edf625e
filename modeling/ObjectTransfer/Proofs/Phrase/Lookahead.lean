import ObjectTransfer.Proofs.Phrase.Words

/-!
# How far phrases look ahead

A phrase decides by the kinds of the tokens it has read and of the one after them, and it never asks
which number a number is. So two streams that start alike are read alike, up to the first token
looked at that differs (`Lockstep`). The failure is found at the same place in both.

Most phrases look at the token after the last one they have read, and a phrase that comes next may
fail without looking at any token: a type is too deep before its first token. `lockstep_bind`
therefore asks that what comes next looks at a token before it gives up (`Looks`). Where a token was
read or passed over just before, nothing is asked (`lockstep_token_bind`,
`lockstep_optionalMark_bind`).
-/

namespace ObjectTransfer

/-- A kind without the value of a number. -/
def Token.Kind.shape : Token.Kind → Token.Kind
  | .literal (.number _) => .literal (.number (.ofBits 0))
  | kind => kind

/-- `f` tells no two numbers apart. -/
def IgnoresNumbers {γ : Type} (f : Token.Kind → γ) : Prop :=
  ∀ x y, f (.literal (.number x)) = f (.literal (.number y))

theorem IgnoresNumbers.apply_shape {γ : Type} {f : Token.Kind → γ} (h : IgnoresNumbers f)
    (kind : Token.Kind) : f kind.shape = f kind := by
  unfold Token.Kind.shape
  split
  · exact h _ _
  · rfl

/-- A decision by the next token that tells no two numbers apart is one by its shape. -/
theorem IgnoresNumbers.eq_of_shape_eq {γ : Type} {f : Option Token.Kind → γ}
    (h : IgnoresNumbers fun kind => f (some kind)) {next next' : Option Token.Kind}
    (hnext : next.map Token.Kind.shape = next'.map Token.Kind.shape) : f next = f next' := by
  have hshape : ∀ next : Option Token.Kind, f (next.map Token.Kind.shape) = f next := by
    intro next
    cases next with
    | none => rfl
    | some kind => exact h.apply_shape kind
  rw [← hshape next, hnext, hshape]

namespace TokenStream

/-! ## Streams that start alike -/

/-- The kinds of the tokens still to be read, and none for the end of the text. -/
def ended (s : TokenStream) : List (Option Token.Kind) := s.kinds.map some ++ [none]

/-- What a stream ends with, without the values of numbers. -/
def shapes (s : TokenStream) : List (Option Token.Kind) := s.ended.map (Option.map Token.Kind.shape)

theorem shapes_eq (s : TokenStream) :
    s.shapes = (s.kinds.map Token.Kind.shape).map some ++ [none] := by
  simp [shapes, ended]

theorem length_ended (s : TokenStream) : s.ended.length = s.rest.length + 1 := by
  simp [ended, kinds]

theorem length_shapes (s : TokenStream) : s.shapes.length = s.rest.length + 1 := by
  rw [shapes, List.length_map, length_ended]

theorem shapes_of_next {s : TokenStream} {kind : Token.Kind} (h : s.next? = some kind) :
    s.shapes = some kind.shape :: s.drop.shapes := by
  rw [shapes, ended, kinds_eq_cons h]
  rfl

theorem shapes_of_end {s : TokenStream} (h : s.next? = none) : s.shapes = [none] := by
  rw [next?_eq_head?, List.head?_eq_none_iff] at h
  rw [shapes, ended, h]
  rfl

theorem drop_of_end {s : TokenStream} (h : s.next? = none) : s.drop = s := by
  rw [next?_eq_head?, List.head?_eq_none_iff, kinds_eq_nil] at h
  unfold drop
  rw [h]

theorem head?_shapes (s : TokenStream) : s.shapes.head? = some (s.next?.map Token.Kind.shape) := by
  cases h : s.next? with
  | none => rw [shapes_of_end h]; rfl
  | some kind => rw [shapes_of_next h]; rfl

/-- `s` and `s'` start alike. Only the last `unseen` tokens of `s` can tell them apart, the end of
the text counted as one. -/
def Alike (unseen : Nat) (s s' : TokenStream) : Prop :=
  ∃ common rest rest', s.shapes = common ++ rest ∧ s'.shapes = common ++ rest' ∧
    rest.length = unseen

variable {unseen : Nat} {s s' : TokenStream}

/-- If the next token of one stream cannot tell them apart, the next token of the other has the same
shape. -/
theorem Alike.next? (h : s.Alike unseen s') (hseen : unseen ≤ s.rest.length) :
    s.next?.map Token.Kind.shape = s'.next?.map Token.Kind.shape := by
  obtain ⟨common, rest, rest', hs, hs', hrest⟩ := h
  have hlength := congrArg List.length hs
  rw [length_shapes, List.length_append] at hlength
  obtain ⟨first, others, rfl⟩ := List.exists_cons_of_ne_nil (l := common) (by
    rintro rfl
    simp only [List.length_nil] at hlength
    omega)
  have hfirst := head?_shapes s
  have hfirst' := head?_shapes s'
  rw [hs, List.cons_append, List.head?_cons, Option.some.injEq] at hfirst
  rw [hs', List.cons_append, List.head?_cons, Option.some.injEq] at hfirst'
  rw [← hfirst, hfirst']

theorem Alike.drop (h : s.Alike unseen s') (hseen : unseen ≤ s.rest.length) :
    s.drop.Alike unseen s'.drop := by
  have hnext := h.next? hseen
  cases hend : s.next? with
  | none =>
    rw [hend, Option.map_none, eq_comm, Option.map_eq_none_iff] at hnext
    rwa [drop_of_end hend, drop_of_end hnext]
  | some kind =>
    rw [hend, Option.map_some, eq_comm, Option.map_eq_some_iff] at hnext
    obtain ⟨kind', hnext', -⟩ := hnext
    obtain ⟨common, rest, rest', hs, hs', hrest⟩ := h
    rw [shapes_of_next hend] at hs
    rw [shapes_of_next hnext'] at hs'
    cases common with
    | nil =>
      have hlength := congrArg List.length hs
      rw [List.length_cons, length_shapes, drop_rest, List.length_tail, List.nil_append,
        hrest] at hlength
      omega
    | cons first others =>
      exact ⟨others, rest, rest', (List.cons.inj hs).2, (List.cons.inj hs').2, hrest⟩

end TokenStream

/-- How many tokens had not been looked at, the end of the text counted as one. A type is too deep
before its first token is looked at. -/
def Stop.unseen (stop : Stop) : Nat :=
  match stop.failure with
  | .unexpected .. => stop.reached.rest.length
  | .tooDeep _ => stop.reached.rest.length + 1

theorem Stop.unseen_le (stop : Stop) : stop.unseen ≤ stop.reached.rest.length + 1 := by
  unfold unseen
  split <;> omega

/-- The same failure at places that start alike. -/
def Failure.Alike (unseen : Nat) : Failure → Failure → Prop
  | .unexpected expected place, .unexpected expected' place' =>
    expected = expected' ∧ place.Alike unseen place'
  | .tooDeep place, .tooDeep place' => place.Alike unseen place'
  | _, _ => False

namespace Phrase

variable {α β α' β' σ σ' τ : Type} {unseen : Nat}

/-! ## Phrases that look before they fail -/

/-- The phrase does not fail before it has looked at the next token. -/
def Looks (p : Phrase α) : Prop :=
  ∀ ⦃s : TokenStream⦄ ⦃stop : Stop⦄, p.run s = .error stop → stop.unseen ≤ s.rest.length

theorem looks_pure (a : α) : Looks (pure a) := by
  intro s stop h
  simp at h

theorem looks_place : Looks place := by
  intro s stop h
  simp at h

theorem looks_skip : Looks skip := by
  intro s stop h
  simp at h

theorem looks_next? : Looks next? := by
  intro s stop h
  simp at h

theorem looks_fail (expected : Expectation) (place : TokenStream) :
    Looks (fail (.unexpected expected place) : Phrase α) := by
  intro s stop h
  rw [run_fail, Except.error.injEq] at h
  rw [← h]
  exact Nat.le_refl _

theorem looks_bind {p : Phrase α} {q : α → Phrase β} (hp : Looks p) (hq : ∀ a, Looks (q a)) :
    Looks (p >>= q) := by
  intro s stop h
  rcases run_bind_eq_error.mp h with hfail | ⟨a, t, hok, hfail⟩
  · exact hp hfail
  · exact Nat.le_trans (hq a hfail) (p.forward hok).rest.length_le

theorem looks_expecting (expected : Expectation) : Looks (expecting expected : Phrase α) :=
  looks_bind looks_place fun _ => looks_fail _ _

theorem looks_map {p : Phrase α} {f : α → β} (hp : Looks p) : Looks (f <$> p) := by
  intro s stop h
  exact hp (run_map_eq_error.mp h)

theorem looks_ite {c : Prop} [Decidable c] {p q : Phrase α} (hp : Looks p) (hq : Looks q) :
    Looks (if c then p else q) := by
  split
  · exact hp
  · exact hq

/-- Whatever comes after a token fails behind it. -/
theorem looks_token_bind {expected : Expectation} {choose : Token.Kind → Option α}
    {q : α → Phrase β} : Looks (token expected choose >>= q) := by
  intro s stop h
  rcases run_bind_eq_error.mp h with hfail | ⟨a, t, hok, hfail⟩
  · obtain ⟨-, rfl⟩ := token_eq_error.mp hfail
    exact Nat.le_refl _
  · obtain ⟨hchoose, rfl⟩ := token_eq_ok.mp hok
    obtain ⟨kind, hnext, -⟩ := Option.bind_eq_some_iff.mp hchoose
    rw [TokenStream.length_rest_eq_succ hnext]
    exact Nat.le_trans stop.unseen_le (Nat.succ_le_succ ((q a).stopped hfail).rest.length_le)

theorem looks_token (expected : Expectation) (choose : Token.Kind → Option α) :
    Looks (token expected choose) := by
  rw [← bind_pure (token expected choose)]
  exact looks_token_bind

/-- What comes next is only asked about where the mark was not read. -/
theorem looks_optionalMark_bind {m : Mark} {q : Bool → Phrase β} (hq : Looks (q false)) :
    Looks (optionalMark m >>= q) := by
  intro s stop h
  by_cases hmark : s.next? = some (.mark m)
  · rw [run_bind_of_ok (run_optionalMark_of_next hmark)] at h
    rw [TokenStream.length_rest_eq_succ hmark]
    exact Nat.le_trans stop.unseen_le (Nat.succ_le_succ ((q true).stopped h).rest.length_le)
  · rw [run_bind_of_ok (run_optionalMark_of_not_next hmark)] at h
    exact hq h

theorem looks_optionalMark (m : Mark) : Looks (optionalMark m) := by
  rw [← bind_pure (optionalMark m)]
  exact looks_optionalMark_bind (looks_pure false)

theorem looks_repeatWhile {opens : Token.Kind → Option β} {turn : σ → β → TokenStream → Phrase σ}
    {state : σ} : Looks (repeatWhile opens turn state) := by
  intro s stop h
  cases hopens : s.next?.bind opens with
  | none =>
    rw [run_repeatWhile_of_closed hopens] at h
    simp at h
  | some b =>
    rw [run_repeatWhile_of_opened hopens] at h
    obtain ⟨kind, hnext, -⟩ := Option.bind_eq_some_iff.mp hopens
    rw [TokenStream.length_rest_eq_succ hnext]
    exact Nat.le_trans stop.unseen_le (Nat.succ_le_succ (Phrase.stopped _ h).rest.length_le)

/-! ## Two runs in step -/

/-- The phrases come to the same on `s` and `s'`, as long as the last `unseen` tokens of `s` are not
looked at: both fit, with values that `Same` relates, or both fail. -/
structure LockstepAt (unseen : Nat) (Same : α → α' → Prop) (p : Phrase α) (p' : Phrase α')
    (s s' : TokenStream) : Prop where
  fits : ∀ {a t}, p.run s = .ok (a, t) → unseen ≤ t.rest.length →
    ∃ a' t', p'.run s' = .ok (a', t') ∧ Same a a' ∧ t.Alike unseen t'
  fails : ∀ {stop}, p.run s = .error stop → unseen ≤ stop.unseen →
    ∃ stop', p'.run s' = .error stop' ∧ stop.failure.Alike unseen stop'.failure

/-- The phrases come to the same on all streams that start alike. -/
def Lockstep (unseen : Nat) (Same : α → α' → Prop) (p : Phrase α) (p' : Phrase α') : Prop :=
  ∀ ⦃s s' : TokenStream⦄, s.Alike unseen s' → LockstepAt unseen Same p p' s s'

/-- Values that need not be related. -/
abbrev Any (_ : α) (_ : α') : Prop := True

section

variable {Same : α → α' → Prop} {Same' : β → β' → Prop} {p : Phrase α} {p' : Phrase α'}
  {q : α → Phrase β} {q' : α' → Phrase β'} {s s' t t' : TokenStream}

theorem LockstepAt.of_run {r : Phrase β} {r' : Phrase β'} (h : LockstepAt unseen Same' r r' t t')
    {o : Phrase β} {o' : Phrase β'} (hrun : o.run s = r.run t) (hrun' : o'.run s' = r'.run t') :
    LockstepAt unseen Same' o o' s s' :=
  ⟨fun hok => hrun' ▸ h.fits (hrun ▸ hok), fun hfail => hrun' ▸ h.fails (hrun ▸ hfail)⟩

/-- Of a phrase that looks at the next token, it is enough to show that it comes to the same if the
next token is the same. -/
theorem lockstepAt_of_looks (hlooks : Looks p)
    (h : unseen ≤ s.rest.length → LockstepAt unseen Same p p' s s') :
    LockstepAt unseen Same p p' s s' :=
  ⟨fun hok hunseen => (h (Nat.le_trans hunseen (p.forward hok).rest.length_le)).fits hok hunseen,
    fun hfail hunseen => (h (Nat.le_trans hunseen (hlooks hfail))).fails hfail hunseen⟩

theorem lockstepAt_bind (hp : LockstepAt unseen Same p p' s s')
    (hq : ∀ {a a' t t'}, Same a a' → t.Follows s → t.Alike unseen t' →
      LockstepAt unseen Same' (q a) (q' a') t t')
    (hlooks : ∀ a, Looks (q a)) : LockstepAt unseen Same' (p >>= q) (p' >>= q') s s' := by
  constructor
  · intro b u h hunseen
    obtain ⟨a, t, hok, hrest⟩ := run_bind_eq_ok.mp h
    have hle := ((q a).forward hrest).rest.length_le
    obtain ⟨a', t', hok', hsame, ht⟩ := hp.fits hok (Nat.le_trans hunseen hle)
    obtain ⟨b', u', hrest', hsame', hu⟩ := (hq hsame (p.forward hok) ht).fits hrest hunseen
    exact ⟨b', u', run_bind_eq_ok.mpr ⟨a', t', hok', hrest'⟩, hsame', hu⟩
  · intro stop h hunseen
    rcases run_bind_eq_error.mp h with hfail | ⟨a, t, hok, hfail⟩
    · obtain ⟨stop', hfail', hstop⟩ := hp.fails hfail hunseen
      exact ⟨stop', run_bind_eq_error.mpr (.inl hfail'), hstop⟩
    · have hle := hlooks a hfail
      obtain ⟨a', t', hok', hsame, ht⟩ := hp.fits hok (Nat.le_trans hunseen hle)
      obtain ⟨stop', hfail', hstop⟩ := (hq hsame (p.forward hok) ht).fails hfail hunseen
      exact ⟨stop', run_bind_eq_error.mpr (.inr ⟨a', t', hok', hfail'⟩), hstop⟩

theorem lockstep_bind (hp : Lockstep unseen Same p p')
    (hq : ∀ {a a'}, Same a a' → Lockstep unseen Same' (q a) (q' a')) (hlooks : ∀ a, Looks (q a)) :
    Lockstep unseen Same' (p >>= q) (p' >>= q') :=
  fun _ _ hs => lockstepAt_bind (hp hs) (fun hsame _ ht => hq hsame ht) hlooks

theorem lockstep_map {f : α → β} {f' : α' → β'} (hp : Lockstep unseen Same p p')
    (hf : ∀ {a a'}, Same a a' → Same' (f a) (f' a')) :
    Lockstep unseen Same' (f <$> p) (f' <$> p') := by
  intro s s' hs
  constructor
  · intro b t h hunseen
    obtain ⟨a, hok, rfl⟩ := run_map_eq_ok.mp h
    obtain ⟨a', t', hok', hsame, ht⟩ := (hp hs).fits hok hunseen
    exact ⟨f' a', t', run_map_eq_ok.mpr ⟨a', hok', rfl⟩, hf hsame, ht⟩
  · intro stop h hunseen
    obtain ⟨stop', hfail', hstop⟩ := (hp hs).fails (run_map_eq_error.mp h) hunseen
    exact ⟨stop', run_map_eq_error.mpr hfail', hstop⟩

theorem lockstep_pure {a : α} {a' : α'} (h : Same a a') :
    Lockstep unseen Same (pure a) (pure a') := by
  intro s s' hs
  constructor
  · intro b t hrun _
    obtain ⟨rfl, rfl⟩ := run_pure_eq_ok.mp hrun
    exact ⟨a', s', run_pure a' s', h, hs⟩
  · intro stop hrun
    simp at hrun

/-- The place of a phrase can be any in both. -/
theorem lockstep_place_bind {q : TokenStream → Phrase β} {q' : TokenStream → Phrase β'}
    (hq : ∀ s s', s.Alike unseen s' → Lockstep unseen Same' (q s) (q' s')) :
    Lockstep unseen Same' (place >>= q) (place >>= q') := by
  intro s s' hs
  exact (hq s s' hs hs).of_run (run_bind_of_ok (run_place s)) (run_bind_of_ok (run_place s'))

theorem lockstep_skip : Lockstep unseen Any skip skip := by
  intro s s' hs
  constructor
  · intro a t hrun hunseen
    rw [run_skip, Except.ok.injEq, Prod.mk.injEq] at hrun
    obtain ⟨-, rfl⟩ := hrun
    have hle := s.drop_follows.rest.length_le
    exact ⟨(), s'.drop, run_skip s', trivial, hs.drop (Nat.le_trans hunseen hle)⟩
  · intro stop hrun
    simp at hrun

/-- A failure may be found at a place that was passed before. -/
theorem lockstep_fail (expected : Expectation) (hs : s.Alike unseen s') :
    Lockstep unseen Same (fail (.unexpected expected s)) (fail (.unexpected expected s')) := by
  intro t t' _
  constructor
  · intro a u hrun
    simp at hrun
  · intro stop hrun _
    rw [run_fail, Except.error.injEq] at hrun
    subst hrun
    exact ⟨_, run_fail _ t', rfl, hs⟩

theorem lockstep_expecting (expected : Expectation) :
    Lockstep unseen Same (expecting expected) (expecting expected) :=
  lockstep_place_bind fun _ _ hs => lockstep_fail expected hs

/-- A type that is too deep is so before a token of it is looked at. -/
theorem lockstep_tooDeep :
    Lockstep unseen Same (place >>= fun s => fail (.tooDeep s))
      (place >>= fun s => fail (.tooDeep s)) := by
  intro s s' hs
  constructor
  · intro a u hrun
    simp [run_bind] at hrun
  · intro stop hrun _
    rw [run_bind_of_ok (run_place s), run_fail, Except.error.injEq] at hrun
    subst hrun
    exact ⟨_, run_fail _ s', hs⟩

/-! ## Decisions by the next token -/

/-- After a token whatever comes next is in step: the token has been looked at. -/
theorem lockstep_token_bind {expected : Expectation} {choose : Token.Kind → Option α}
    (hchoose : IgnoresNumbers fun kind => (choose kind).isSome) {q : α → Phrase β}
    {q' : α → Phrase β'} (hq : ∀ a a', Lockstep unseen Same' (q a) (q' a')) :
    Lockstep unseen Same' (token expected choose >>= q) (token expected choose >>= q') := by
  intro s s' hs
  refine lockstepAt_of_looks looks_token_bind fun hseen => ?_
  have hsome : (s.next?.bind choose).isSome = (s'.next?.bind choose).isSome :=
    hchoose.eq_of_shape_eq (f := fun next => (next.bind choose).isSome) (hs.next? hseen)
  cases hvalue : s.next?.bind choose with
  | none =>
    rw [hvalue, Option.isSome_none, eq_comm, Option.isSome_eq_false_iff,
      Option.isNone_iff_eq_none] at hsome
    exact (lockstep_expecting expected hs).of_run
      (run_bind_of_error (token_eq_error.mpr ⟨hvalue, rfl⟩))
      (run_bind_of_error (token_eq_error.mpr ⟨hsome, rfl⟩))
  | some a =>
    rw [hvalue, Option.isSome_some] at hsome
    obtain ⟨a', hvalue'⟩ := Option.isSome_iff_exists.mp hsome.symm
    exact (hq a a' (hs.drop hseen)).of_run (run_bind_of_ok (token_eq_ok.mpr ⟨hvalue, rfl⟩))
      (run_bind_of_ok (token_eq_ok.mpr ⟨hvalue', rfl⟩))

theorem lockstep_token {expected : Expectation} {choose : Token.Kind → Option α}
    (hchoose : IgnoresNumbers fun kind => (choose kind).isSome) :
    Lockstep unseen Any (token expected choose) (token expected choose) := by
  rw [← bind_pure (token expected choose)]
  exact lockstep_token_bind hchoose fun _ _ => lockstep_pure trivial

theorem lockstep_ite {c c' : Prop} [Decidable c] [Decidable c'] {r : Phrase α} {r' : Phrase α'}
    (hc : c ↔ c') (hp : c → Lockstep unseen Same p p') (hr : ¬c → Lockstep unseen Same r r') :
    Lockstep unseen Same (if c then p else r) (if c' then p' else r') := by
  by_cases h : c
  · rw [if_pos h, if_pos (hc.mp h)]
    exact hp h
  · rw [if_neg h, if_neg (h ∘ hc.mpr)]
    exact hr h

/-- What comes after a look at the next token may depend on its shape. -/
theorem lockstep_next?_bind {q : Option Token.Kind → Phrase β} {q' : Option Token.Kind → Phrase β'}
    (hq : ∀ {next next' : Option Token.Kind},
      next.map Token.Kind.shape = next'.map Token.Kind.shape →
      Lockstep unseen Same' (q next) (q' next'))
    (hlooks : ∀ next, Looks (q next)) :
    Lockstep unseen Same' (next? >>= q) (next? >>= q') := by
  intro s s' hs
  refine lockstepAt_of_looks (looks_bind looks_next? hlooks) fun hseen => ?_
  exact (hq (hs.next? hseen) hs).of_run (run_bind_of_ok (run_next? s))
    (run_bind_of_ok (run_next? s'))

theorem eq_some_iff_of_shape_eq (kind : Token.Kind) (hkind : ∀ l, kind ≠ .literal l)
    {next next' : Option Token.Kind}
    (h : next.map Token.Kind.shape = next'.map Token.Kind.shape) :
    next = some kind ↔ next' = some kind := by
  refine iff_of_eq (IgnoresNumbers.eq_of_shape_eq (f := fun next => next = some kind) ?_ h)
  intro x y
  simp only [Option.some.injEq, (hkind _).symm]

theorem eq_none_iff_of_shape_eq {next next' : Option Token.Kind}
    (h : next.map Token.Kind.shape = next'.map Token.Kind.shape) : next = none ↔ next' = none := by
  rw [← Option.map_eq_none_iff (f := Token.Kind.shape), h, Option.map_eq_none_iff]

/-- Where a mark was read, whatever comes next is in step; where it was not, what comes next has to
look at a token. -/
theorem lockstep_optionalMark_bind {m : Mark} {r : Bool → Phrase β} {r' : Bool → Phrase β'}
    (hread : Lockstep unseen Same' (r true) (r' true))
    (hunread : Lockstep unseen Same' (r false) (r' false)) (hlooks : Looks (r false)) :
    Lockstep unseen Same' (optionalMark m >>= r) (optionalMark m >>= r') := by
  intro s s' hs
  refine lockstepAt_of_looks (looks_optionalMark_bind hlooks) fun hseen => ?_
  have hmark : s.next? = some (.mark m) ↔ s'.next? = some (.mark m) :=
    eq_some_iff_of_shape_eq (.mark m) nofun (hs.next? hseen)
  by_cases h : s.next? = some (.mark m)
  · exact (hread (hs.drop hseen)).of_run (run_bind_of_ok (run_optionalMark_of_next h))
      (run_bind_of_ok (run_optionalMark_of_next (hmark.mp h)))
  · exact (hunread hs).of_run (run_bind_of_ok (run_optionalMark_of_not_next h))
      (run_bind_of_ok (run_optionalMark_of_not_next (h ∘ hmark.mpr)))

theorem lockstep_optionalMark (m : Mark) :
    Lockstep unseen Any (optionalMark m) (optionalMark m) := by
  rw [← bind_pure (optionalMark m)]
  exact lockstep_optionalMark_bind (lockstep_pure trivial) (lockstep_pure trivial) (looks_pure _)

/-! ## Repetitions -/

/-- Turns that are in step, opened by tokens that no number decides about, stay in step. A turn is
given the places where it was opened. -/
theorem lockstep_repeatWhile {opens : Token.Kind → Option τ} {turn : σ → τ → TokenStream → Phrase σ}
    {turn' : σ' → τ → TokenStream → Phrase σ'} {R : σ → σ' → Prop}
    (hopens : IgnoresNumbers opens)
    (hturn : ∀ {state state'} b {s s' : TokenStream}, R state state' → s.Alike unseen s' →
      unseen ≤ s.rest.length →
      LockstepAt unseen R (turn state b s) (turn' state' b s') s.drop s'.drop)
    {state : σ} {state' : σ'} (hstate : R state state') :
    Lockstep unseen R (repeatWhile opens turn state) (repeatWhile opens turn' state') := by
  intro s s' hs
  -- By induction on the tokens that are left; a turn passes over one at least.
  induction hlength : s.rest.length using Nat.strongRecOn generalizing state state' s s' with
  | ind length ih =>
    refine lockstepAt_of_looks looks_repeatWhile fun hseen => ?_
    have hnext : s.next?.bind opens = s'.next?.bind opens :=
      hopens.eq_of_shape_eq (f := fun next => next.bind opens) (hs.next? hseen)
    cases hopened : s.next?.bind opens with
    | none =>
      rw [hopened] at hnext
      exact (lockstep_pure hstate hs).of_run (run_repeatWhile_of_closed hopened)
        (run_repeatWhile_of_closed hnext.symm)
    | some b =>
      rw [hopened] at hnext
      obtain ⟨kind, hkind, -⟩ := Option.bind_eq_some_iff.mp hopened
      refine LockstepAt.of_run ?_ (run_repeatWhile_of_opened hopened)
        (run_repeatWhile_of_opened hnext.symm)
      refine lockstepAt_bind (hturn b hstate hs hseen) ?_ fun _ => looks_repeatWhile
      intro now now' t t' hnow hfollows ht
      have hless : t.rest.length < length := by
        rw [← hlength, TokenStream.length_rest_eq_succ hkind]
        exact Nat.lt_succ_of_le hfollows.rest.length_le
      exact ih t.rest.length hless hnow ht rfl

theorem looks_separatedBy {separator : Mark} (hp : Looks p) : Looks (separatedBy separator p) :=
  looks_bind hp fun _ => looks_bind looks_repeatWhile fun _ => looks_pure _

theorem lockstep_separatedBy {separator : Mark} (hp : Lockstep unseen Any p p') :
    Lockstep unseen Any (separatedBy separator p) (separatedBy separator p') := by
  refine lockstep_bind hp ?_ fun _ => looks_bind looks_repeatWhile fun _ => looks_pure _
  intro first first' _
  refine lockstep_bind (lockstep_repeatWhile (R := Any) (fun _ _ => rfl) ?_ trivial) ?_
    fun _ => looks_pure _
  · intro items items' _ s s' _ hs hseen
    exact lockstep_bind hp (fun _ => lockstep_pure trivial) (fun _ => looks_pure _) (hs.drop hseen)
  · exact fun _ => lockstep_pure trivial

end

/-! ## Shared phrases -/

theorem lockstep_locationFrom (source source' : String) (start start' : Position) :
    Lockstep unseen Any (locationFrom source start) (locationFrom source' start') :=
  lockstep_place_bind fun _ _ _ => lockstep_pure trivial

theorem looks_locationFrom (source : String) (start : Position) :
    Looks (locationFrom source start) := looks_bind looks_place fun _ => looks_pure _

theorem looks_optionalTerminator : Looks optionalTerminator :=
  looks_optionalMark_bind (looks_bind (looks_optionalMark _) fun _ => looks_pure _)

theorem lockstep_optionalTerminator :
    Lockstep unseen Any optionalTerminator optionalTerminator := by
  refine lockstep_optionalMark_bind (lockstep_pure trivial) ?_
    (looks_bind (looks_optionalMark _) fun _ => looks_pure _)
  exact lockstep_optionalMark_bind (lockstep_pure trivial) (lockstep_pure trivial) (looks_pure _)

theorem looks_closeBrace (item : Expectation) : Looks (closeBrace item) :=
  looks_optionalMark_bind (looks_bind looks_next? fun _ =>
    looks_ite (looks_expecting _) (looks_expecting _))

theorem lockstep_closeBrace (item : Expectation) :
    Lockstep unseen Any (closeBrace item) (closeBrace item) := by
  refine lockstep_optionalMark_bind (lockstep_pure trivial) ?_
    (looks_bind looks_next? fun _ => looks_ite (looks_expecting _) (looks_expecting _))
  exact lockstep_next?_bind
    (fun hnext => lockstep_ite (eq_none_iff_of_shape_eq hnext) (fun _ => lockstep_expecting _)
      fun _ => lockstep_expecting _)
    fun _ => looks_ite (looks_expecting _) (looks_expecting _)

theorem looks_ending (expected : Expectation) : Looks (ending expected) :=
  looks_bind looks_next? fun _ => looks_ite (looks_pure _) (looks_expecting _)

theorem lockstep_ending (expected : Expectation) :
    Lockstep unseen Any (ending expected) (ending expected) :=
  lockstep_next?_bind
    (fun hnext => lockstep_ite (eq_none_iff_of_shape_eq hnext)
      (fun _ => lockstep_pure trivial) fun _ => lockstep_expecting _)
    fun _ => looks_ite (looks_pure _) (looks_expecting _)

theorem looks_turnsToEnd {opens : Token.Kind → Option β} {turn : σ → β → TokenStream → Phrase σ}
    {state : σ} {value : σ → TokenStream → α} {expected : Expectation} :
    Looks (turnsToEnd opens turn state value expected) :=
  looks_bind looks_repeatWhile fun _ => looks_bind (looks_ending _) fun _ =>
    looks_bind looks_place fun _ => looks_pure _

theorem lockstep_turnsToEnd {opens : Token.Kind → Option τ} {turn : σ → τ → TokenStream → Phrase σ}
    {turn' : σ' → τ → TokenStream → Phrase σ'} {state : σ} {state' : σ'}
    {value : σ → TokenStream → α} {value' : σ' → TokenStream → α'} {expected : Expectation}
    (hopens : IgnoresNumbers opens)
    (hturn : ∀ {state state'} b {s s' : TokenStream}, s.Alike unseen s' → unseen ≤ s.rest.length →
      LockstepAt unseen Any (turn state b s) (turn' state' b s') s.drop s'.drop) :
    Lockstep unseen Any (turnsToEnd opens turn state value expected)
      (turnsToEnd opens turn' state' value' expected) := by
  refine lockstep_bind (lockstep_repeatWhile (R := Any) hopens (fun b _ _ _ => hturn b) trivial) ?_
    fun _ => looks_bind (looks_ending _) fun _ => looks_bind looks_place fun _ => looks_pure _
  intro _ _ _
  refine lockstep_bind (lockstep_ending expected) ?_
    fun _ => looks_bind looks_place fun _ => looks_pure _
  exact fun _ => lockstep_place_bind fun _ _ _ => lockstep_pure trivial

end Phrase
end ObjectTransfer
