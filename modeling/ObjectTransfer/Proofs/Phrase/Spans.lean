import ObjectTransfer.Proofs.Phrase.Words
import ObjectTransfer.Proofs.Token.Passing

/-!
# Which tokens a value is read from

A phrase takes tokens from the front of a stream, and what it leaves knows where the last of them has
ended (`TokenStream.Takes`). So a location that is opened before the first token of a phrase and closed
behind its last token covers exactly the tokens of the phrase (`TokenStream.Takes.covers`). The values
that a loop collects are read one after the other from tokens of their own (`Spread`), and tokens
stand in order, so the locations of the values are in order and inside that of the whole
(`Spread.nests`).
-/

namespace ObjectTransfer

/-- The location is named `name`, starts where the first of the tokens does, and ends where the last
of them does. -/
structure Location.Covers (l : Location) (name : String) (own : List Token) : Prop where
  source : l.source = name
  start : own.head?.map (·.start) = some l.start
  finish : own.getLast?.map (·.finish) = some l.finish

namespace TokenStream

/-- The tokens `own` are taken from the front of `s`, and `s'` is left. -/
structure Takes (s : TokenStream) (own : List Token) (s' : TokenStream) : Prop where
  rest : s.rest = own ++ s'.rest
  behind : s'.behind = (own.getLast?.map (·.finish)).getD s.behind

variable {s s' s'' : TokenStream} {own own' : List Token}

theorem takes_refl (s : TokenStream) : s.Takes [] s := ⟨rfl, rfl⟩

theorem Takes.trans (h : s.Takes own s') (h' : s'.Takes own' s'') : s.Takes (own ++ own') s'' := by
  refine ⟨by rw [h.rest, h'.rest, List.append_assoc], ?_⟩
  rw [h'.behind, h.behind]
  cases hlast : own'.getLast? <;> simp [List.getLast?_append, hlast]

theorem exists_takes_drop (s : TokenStream) : ∃ own, s.Takes own s.drop := by
  obtain ⟨rest, behind, finish⟩ := s
  cases rest with
  | nil => exact ⟨[], takes_refl _⟩
  | cons t ts => exact ⟨[t], rfl, rfl⟩

/-- The tokens that are taken are of the kinds that are read. -/
theorem Takes.map_kind (h : s.Takes own s') {kinds : List Token.Kind}
    (hkinds : s.kinds = kinds ++ s'.kinds) : own.map (·.kind) = kinds := by
  rw [TokenStream.kinds, h.rest, List.map_append] at hkinds
  exact List.append_cancel_right hkinds

/-- From where the first of the tokens starts up to where the last of them has ended. -/
theorem Takes.covers (h : s.Takes own s') (hown : own ≠ []) (name : String) :
    (⟨name, s.position, s'.behind⟩ : Location).Covers name own := by
  obtain ⟨first, others, rfl⟩ := List.exists_cons_of_ne_nil hown
  have hposition : s.position = first.start := by
    unfold position
    rw [h.rest]
    rfl
  refine ⟨rfl, by rw [hposition]; rfl, ?_⟩
  obtain ⟨last, hlast⟩ := Option.isSome_iff_exists.mp (List.getLast?_isSome.mpr hown)
  rw [h.behind, hlast]
  rfl

/-- The tokens of the kinds that are read, and the location from the first of them up to the last. -/
theorem Takes.kinds_covers (h : s.Takes own s') {kind : Token.Kind} {kinds : List Token.Kind}
    (hkinds : s.kinds = (kind :: kinds) ++ s'.kinds) (name : String) :
    own.map (·.kind) = kind :: kinds ∧
      (⟨name, s.position, s'.behind⟩ : Location).Covers name own := by
  have hown := h.map_kind hkinds
  refine ⟨hown, h.covers ?_ name⟩
  rintro rfl
  exact absurd hown (by simp)

/-- All tokens are taken if none is left. -/
theorem Takes.eq_list {tokens : Tokens} (h : tokens.stream.Takes own s') (hend : s'.kinds = []) :
    tokens.list = own := by
  have hrest := h.rest
  rwa [kinds_eq_nil.mp hend, List.append_nil] at hrest

end TokenStream

/-! ## Phrases -/

namespace Phrase

variable {α β σ : Type}

/-- What the phrase leaves knows where the last of the tokens that it has taken ended. -/
def Tracks (p : Phrase α) : Prop := ∀ ⦃s a s'⦄, p.run s = .ok (a, s') → ∃ own, s.Takes own s'

theorem tracks_pure (a : α) : Tracks (pure a) := by
  intro s b s' h
  obtain ⟨-, rfl⟩ := run_pure_eq_ok.mp h
  exact ⟨[], s.takes_refl⟩

theorem tracks_fail (f : Failure) : Tracks (fail f : Phrase α) := fun _ _ _ h => absurd h (by simp)

theorem tracks_place : Tracks place := by
  intro s b s' h
  obtain ⟨-, rfl⟩ := Prod.mk.inj (Except.ok.inj h)
  exact ⟨[], s.takes_refl⟩

theorem tracks_skip : Tracks skip := by
  intro s b s' h
  obtain ⟨-, rfl⟩ := Prod.mk.inj (Except.ok.inj h)
  exact s.exists_takes_drop

theorem tracks_bind {p : Phrase α} {q : α → Phrase β} (hp : Tracks p) (hq : ∀ a, Tracks (q a)) :
    Tracks (p >>= q) := by
  intro s b s'' h
  obtain ⟨a, s', hrun, h⟩ := run_bind_eq_ok.mp h
  obtain ⟨own, hown⟩ := hp hrun
  obtain ⟨own', hown'⟩ := hq a h
  exact ⟨_, hown.trans hown'⟩

theorem tracks_ite {c : Prop} [Decidable c] {p q : Phrase α} (hp : Tracks p) (hq : Tracks q) :
    Tracks (if c then p else q) := by
  split
  · exact hp
  · exact hq

theorem tracks_next? : Tracks next? := tracks_bind tracks_place fun _ => tracks_pure _

theorem tracks_expecting (expected : Expectation) : Tracks (expecting expected : Phrase α) :=
  tracks_bind tracks_place fun _ => tracks_fail _

theorem tracks_token (expected : Expectation) (choose : Token.Kind → Option α) :
    Tracks (token expected choose) := by
  refine tracks_bind tracks_next? fun next => ?_
  cases next.bind choose with
  | some a => exact tracks_bind tracks_skip fun _ => tracks_pure a
  | none => exact tracks_expecting expected

theorem tracks_optionalMark (m : Mark) : Tracks (optionalMark m) :=
  tracks_bind tracks_next? fun _ =>
    tracks_ite (tracks_bind tracks_skip fun _ => tracks_pure true) (tracks_pure false)

theorem tracks_optionalTerminator : Tracks optionalTerminator :=
  tracks_bind (tracks_optionalMark _) fun _ =>
    tracks_ite (tracks_pure ()) (tracks_bind (tracks_optionalMark _) fun _ => tracks_pure ())

theorem tracks_closeBrace (item : Expectation) : Tracks (closeBrace item) :=
  tracks_bind (tracks_optionalMark _) fun _ => tracks_ite (tracks_pure ())
    (tracks_bind tracks_next? fun _ => tracks_ite (tracks_expecting _) (tracks_expecting _))

theorem tracks_locationFrom (source : String) (start : Position) :
    Tracks (locationFrom source start) := tracks_bind tracks_place fun _ => tracks_pure _

end Phrase

/-! ## Values one after the other -/

/-- The values are read from parts of the tokens, one after the other; `At` says which tokens a value
is read from. Other tokens may stand before, between and after these. -/
inductive Spread {α : Type} (At : α → List Token → Prop) : List α → List Token → Prop
  | nil (ts : List Token) : Spread At [] ts
  | cons {a : α} {as : List α} {gap own ts : List Token} (first : At a own)
      (others : Spread At as ts) : Spread At (a :: as) (gap ++ (own ++ ts))

section

variable {α β σ : Type} {At : α → List Token → Prop} {as bs : List α} {ts us own : List Token}

theorem spread_singleton {a : α} (h : At a own) : Spread At [a] own := by
  have hspread : Spread At [a] ([] ++ (own ++ [])) := .cons h (.nil [])
  rwa [List.nil_append, List.append_nil] at hspread

theorem Spread.append_left (h : Spread At as ts) (gap : List Token) : Spread At as (gap ++ ts) := by
  cases h with
  | nil => exact .nil _
  | cons first others =>
    rw [← List.append_assoc]
    exact .cons first others

theorem Spread.append (h : Spread At as ts) (h' : Spread At bs us) :
    Spread At (as ++ bs) (ts ++ us) := by
  induction h with
  | nil ts => exact h'.append_left ts
  | cons first _ ih =>
    rw [List.append_assoc, List.append_assoc]
    exact .cons first ih

theorem Spread.map {At' : β → List Token → Prop} {f : α → β} (hf : ∀ a own, At a own → At' (f a) own)
    (h : Spread At as ts) : Spread At' (as.map f) ts := by
  induction h with
  | nil ts => exact .nil ts
  | cons first _ ih => exact .cons (hf _ _ first) ih

theorem Spread.exists_part (h : Spread At as ts) : ∀ a ∈ as, ∃ own, own <:+: ts ∧ At a own := by
  induction h with
  | nil => exact fun _ ha => absurd ha List.not_mem_nil
  | @cons a as gap own ts first _ ih =>
    refine List.forall_mem_cons.mpr ⟨⟨own, ⟨gap, ts, List.append_assoc ..⟩, first⟩, ?_⟩
    intro b hb
    obtain ⟨own', hpart, hat⟩ := ih b hb
    exact ⟨own', hpart.trans ((List.suffix_append own ts).trans (List.suffix_append gap _)).isInfix,
      hat⟩

/-- From `s` up to `place` the values have been read, one after the other. -/
def Placed (At : α → List Token → Prop) (s : TokenStream) (values : List α) (place : TokenStream) :
    Prop :=
  ∃ own, s.Takes own place ∧ Spread At values own

theorem Placed.trans {s place place' : TokenStream} (h : Placed At s as place)
    (h' : Placed At place bs place') : Placed At s (as ++ bs) place' := by
  obtain ⟨own, htakes, hspread⟩ := h
  obtain ⟨own', htakes', hspread'⟩ := h'
  exact ⟨_, htakes.trans htakes', hspread.append hspread'⟩

theorem placed_nil {s place : TokenStream} (h : s.Takes own place) : Placed At s [] place :=
  ⟨own, h, .nil own⟩

theorem placed_of_tracks {p : Phrase β} (hp : p.Tracks) {s s' : TokenStream} {b : β}
    (h : p.run s = .ok (b, s')) : Placed At s [] s' := by
  obtain ⟨own, hown⟩ := hp h
  exact placed_nil hown

/-- If each turn reads some values and keeps them, the values of all turns are read one after the
other. The latest are kept first. -/
theorem placed_of_turns {opens : Token.Kind → Option β}
    {turn : List α → β → TokenStream → Phrase (List α)}
    (hturn : ∀ {seen b s seen' s'}, s.next?.bind opens = some b →
      (turn seen b s).run s.drop = .ok (seen', s') →
      ∃ added, seen' = added ++ seen ∧ Placed At s added.reverse s')
    {o s s' : TokenStream} {seen seen' : List α} (hstart : Placed At o seen.reverse s)
    (h : Phrase.turns opens turn seen s = (seen', .ok s')) : Placed At o seen'.reverse s' := by
  have hpreserved : ∀ {now b place now' place'}, Placed At o (List.reverse now) place →
      place.next?.bind opens = some b → (turn now b place).run place.drop = .ok (now', place') →
      Placed At o (List.reverse now') place' := by
    intro now b place now' place' hnow hopens hrun
    obtain ⟨added, rfl, hadded⟩ := hturn hopens hrun
    rw [List.reverse_append]
    exact hnow.trans hadded
  exact (Phrase.invariant_of_turns_eq_ok hpreserved hstart h).1

end

/-! ## Locations in order -/

namespace Location

/-- The locations `inner` have characters and lie inside `outer`, each before the next one. -/
structure Nests (outer : Location) (inner : List Location) : Prop where
  size : ∀ l ∈ inner, l.start.offset < l.finish.offset
  inside : ∀ l ∈ inner, outer.start.offset ≤ l.start.offset ∧ l.finish.offset ≤ outer.finish.offset
  apart : inner.Pairwise (·.finish.offset ≤ ·.start.offset)

variable {l : Location} {name : String} {own ts : List Token}

/-- The tokens at the ends of a location. -/
theorem Covers.exists_ends (h : l.Covers name own) : ∃ first last, own.head? = some first ∧
    own.getLast? = some last ∧ first ∈ own ∧ last ∈ own ∧ l.start = first.start ∧
    l.finish = last.finish := by
  obtain ⟨first, hfirst, hstart⟩ := Option.map_eq_some_iff.mp h.start
  obtain ⟨last, hlast, hfinish⟩ := Option.map_eq_some_iff.mp h.finish
  exact ⟨first, last, hfirst, hlast, List.mem_of_mem_head? hfirst, List.mem_of_mem_getLast? hlast,
    hstart.symm, hfinish.symm⟩

theorem Covers.size (h : l.Covers name own) (hown : InOrder own) :
    l.start.offset < l.finish.offset := by
  obtain ⟨first, last, -, hlast, hfirst, -, hstart, hfinish⟩ := h.exists_ends
  have hsize := hown.size first hfirst
  have hle := hown.le_finish hlast hfirst
  rw [hstart, hfinish]
  omega

/-- A location of some of the tokens lies inside a location of all of them. -/
theorem Covers.inside {outer : Location} (h : l.Covers name own) (houter : outer.Covers name ts)
    (hts : InOrder ts) (hown : own <:+: ts) :
    outer.start.offset ≤ l.start.offset ∧ l.finish.offset ≤ outer.finish.offset := by
  obtain ⟨first, last, -, -, hfirst, hlast, hstart, hfinish⟩ := h.exists_ends
  obtain ⟨first', last', hfirst', hlast', -, -, hstart', hfinish'⟩ := houter.exists_ends
  rw [hstart, hfinish, hstart', hfinish']
  exact ⟨hts.start_le hfirst' (hown.subset hfirst), hts.le_finish hlast' (hown.subset hlast)⟩

end Location

variable {name : String} {ls : List Location} {ts : List Token}

/-- Locations that are spread over tokens in order are in order. -/
theorem Spread.apart (h : Spread (fun l own => l.Covers name own) ls ts) (hts : InOrder ts) :
    ls.Pairwise (·.finish.offset ≤ ·.start.offset) := by
  induction h with
  | nil => exact .nil
  | @cons l ls gap own ts first others ih =>
    have hrest : InOrder (own ++ ts) := hts.of_part (List.suffix_append gap _).isInfix
    refine List.pairwise_cons.mpr ⟨?_, ih (hrest.of_part (List.suffix_append own ts).isInfix)⟩
    intro l' hl'
    obtain ⟨own', hpart, hcovers⟩ := others.exists_part l' hl'
    obtain ⟨-, last, -, -, -, hlast, -, hfinish⟩ := first.exists_ends
    obtain ⟨first', -, -, -, hfirst', -, hstart', -⟩ := hcovers.exists_ends
    rw [hfinish, hstart']
    exact (List.pairwise_append.mp hrest.apart).2.2 last hlast first' (hpart.subset hfirst')

/-- Locations that are spread over tokens in order lie inside a location of all these tokens. -/
theorem Spread.nests (h : Spread (fun l own => l.Covers name own) ls ts) (hts : InOrder ts)
    {outer : Location} (houter : outer.Covers name ts) : outer.Nests ls := by
  refine ⟨fun l hl => ?_, fun l hl => ?_, h.apart hts⟩
  · obtain ⟨own, hown, hcovers⟩ := h.exists_part l hl
    exact hcovers.size (hts.of_part hown)
  · obtain ⟨own, hown, hcovers⟩ := h.exists_part l hl
    exact hcovers.inside houter hts hown

end ObjectTransfer
