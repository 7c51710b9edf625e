import ObjectTransfer.Proofs.Request.Reading

/-!
# Where the parts of a request are read

A request is read from all tokens of a text, each of its filters and steps from tokens of its own, and
the filters of a step from tokens of the step (`isAt_of_result`). A comma that follows the last filter,
parentheses without filters and what stands between tokens belong to no filter.
-/

namespace ObjectTransfer.Request

open Phrase

variable {source : String}

/-! ## Filters -/

theorem placed_filtersTurn {seen seen' : List Entry} {u : Unit} {place place' : TokenStream}
    (h : (Derivation.filtersTurn source seen u place).run place.drop = .ok (seen', place')) :
    ∃ added, seen' = added ++ seen ∧ Placed (Entry.IsAt source) place added.reverse place' := by
  obtain ⟨comma, hcomma⟩ := place.exists_takes_drop
  by_cases hend : place.drop.next? = some (.mark .closeParen)
  · rw [Derivation.filtersTurn_of_close hend] at h
    obtain ⟨rfl, rfl⟩ := Prod.mk.inj (Except.ok.inj h)
    exact ⟨[], rfl, placed_nil hcomma⟩
  · rw [Derivation.filtersTurn_of_not_close hend] at h
    obtain ⟨e, hread, rfl⟩ := run_map_eq_ok.mp h
    exact ⟨[e], rfl, (placed_nil hcomma).trans (Entry.placed_phrase hread)⟩

theorem placed_filtersPhrase {s s' : TokenStream} {entries : List Entry}
    (h : (filtersPhrase source).run s = .ok (entries, s')) :
    Placed (Entry.IsAt source) s entries s' := by
  rw [Derivation.filtersPhrase_eq] at h
  obtain ⟨u, s₁, hopen, h₁⟩ := run_bind_eq_ok.mp h
  obtain ⟨closed, s₂, hclosed, h₂⟩ := run_bind_eq_ok.mp h₁
  have hs₂ : Placed (Entry.IsAt source) s [] s₂ :=
    (placed_of_tracks (tracks_token _ _) hopen).trans
      (placed_of_tracks (tracks_optionalMark _) hclosed)
  cases closed with
  | true =>
    obtain ⟨rfl, rfl⟩ := run_pure_eq_ok.mp h₂
    exact hs₂
  | false =>
    obtain ⟨first, s₃, hfirst, h₃⟩ := run_bind_eq_ok.mp h₂
    obtain ⟨all, s₄, hall, h₄⟩ := run_bind_eq_ok.mp h₃
    obtain ⟨u, s₅, hclose, h₅⟩ := run_bind_eq_ok.mp h₄
    obtain ⟨rfl, rfl⟩ := run_pure_eq_ok.mp h₅
    have hs₃ : Placed (Entry.IsAt source) s [first].reverse s₃ :=
      hs₂.trans (Entry.placed_phrase hfirst)
    have hs₄ := placed_of_turns (fun _ => placed_filtersTurn) hs₃ (repeatWhile_eq_ok.mp hall)
    have hs₅ := hs₄.trans (placed_of_tracks (tracks_token _ _) hclose)
    rwa [List.append_nil] at hs₅

theorem placed_optionalFilters {s s' : TokenStream} {entries : List Entry}
    (h : (optionalFiltersPhrase source).run s = .ok (entries, s')) :
    Placed (Entry.IsAt source) s entries s' := by
  unfold optionalFiltersPhrase at h
  rw [run_bind_of_ok (run_next? s)] at h
  split at h
  · exact placed_filtersPhrase h
  · obtain ⟨rfl, rfl⟩ := run_pure_eq_ok.mp h
    exact placed_nil s.takes_refl

/-! ## Steps -/

/-- The step is read from the tokens `own` of the text `source`, and its filters from some of these,
one after the other. -/
structure Step.IsAt (source : String) (step : Step) (own : List Token) : Prop where
  kinds : ∃ t : Derivation.Step, t.toStep = step.erase ∧ own.map (·.kind) = t.kinds
  covers : step.location.Covers source own
  filters : Spread (Entry.IsAt source) step.filters own

/-- A step is read from behind its dot, and starts at it. -/
theorem Step.placed_phrase {start : Position} {s s' : TokenStream} {step : Step}
    (h : (Step.phrase source start).run s = .ok (step, s')) :
    step.location = ⟨source, start, s'.behind⟩ ∧
      Placed (Entry.IsAt source) s step.filters s' := by
  obtain ⟨relation, s₁, hrelation, h₁⟩ := run_bind_eq_ok.mp h
  obtain ⟨entries, s₂, hentries, h₂⟩ := run_bind_eq_ok.mp h₁
  obtain ⟨location, s₃, hlocation, h₃⟩ := run_bind_eq_ok.mp h₂
  obtain ⟨rfl, rfl⟩ := run_pure_eq_ok.mp hlocation
  obtain ⟨rfl, rfl⟩ := run_pure_eq_ok.mp h₃
  exact ⟨rfl, (placed_of_tracks (tracks_token _ _) hrelation).trans (placed_optionalFilters hentries)⟩

theorem placed_stepsTurn {seen seen' : List Step} {u : Unit} {place place' : TokenStream}
    (hopens : place.next?.bind (opensAt .dot) = some u)
    (h : (Derivation.stepsTurn source seen u place).run place.drop = .ok (seen', place')) :
    ∃ added, seen' = added ++ seen ∧ Placed (Step.IsAt source) place added.reverse place' := by
  obtain ⟨step, s₁, hstep, hpure⟩ := run_bind_eq_ok.mp h
  obtain ⟨rfl, rfl⟩ := run_pure_eq_ok.mp hpure
  obtain ⟨t, ht, hs₁⟩ := Derivation.Step.sound hstep
  rw [← TokenStream.kinds_eq_cons (bind_opensAt_eq_some.mp hopens)] at hs₁
  obtain ⟨hlocation, own, hown, hfilters⟩ := Step.placed_phrase hstep
  obtain ⟨dot, hdot⟩ := place.exists_takes_drop
  have htakes := hdot.trans hown
  obtain ⟨hkinds, hcovers⟩ := htakes.kinds_covers hs₁ source
  rw [← hlocation] at hcovers
  exact ⟨[step], rfl, _, htakes,
    spread_singleton ⟨⟨t, ht, hkinds⟩, hcovers, hfilters.append_left dot⟩⟩

/-- Steps that are spread over tokens have locations that are. -/
theorem Step.spread_covers {steps : List Step} {ts : List Token}
    (h : Spread (Step.IsAt source) steps ts) :
    Spread (fun l own => l.Covers source own) (steps.map (·.location)) ts :=
  h.map fun _ _ hs => hs.covers

/-! ## Requests -/

/-- The request is read from the tokens `own` of the text `source`, its filters and its steps from
some of these, one after the other. -/
structure IsAt (source : String) (r : Request) (own : List Token) : Prop where
  kinds : ∃ t : Derivation, t.toRequest = r.erase ∧ own.map (·.kind) = t.kinds
  covers : r.location.Covers source own
  parts : ∃ front back, own = front ++ back ∧ Spread (Entry.IsAt source) r.filters front ∧
    Spread (Step.IsAt source) r.steps back

/-- A request is read from all tokens. -/
theorem isAt_of_result {tokens : Tokens} {r : Request}
    (h : (Request.read source tokens.stream).result = .ok r) : r.IsAt source tokens.list := by
  obtain ⟨t, hkinds, ht⟩ := Derivation.sound h
  obtain ⟨model, entries, afterRoot, seen, s', hroot, hturns, hend, rfl⟩ :=
    Derivation.result_eq_ok.mp h
  obtain ⟨name, s₁, hmodel, h₁⟩ := run_bind_eq_ok.mp hroot
  obtain ⟨found, s₂, hentries, h₂⟩ := run_bind_eq_ok.mp h₁
  obtain ⟨hpair, rfl⟩ := run_pure_eq_ok.mp h₂
  obtain ⟨rfl, rfl⟩ := Prod.mk.inj hpair
  obtain ⟨front, hfront, hfilters⟩ :=
    (placed_of_tracks (tracks_token _ _) hmodel).trans (placed_optionalFilters hentries)
  obtain ⟨back, hback, hsteps⟩ :=
    placed_of_turns placed_stepsTurn (placed_nil s₂.takes_refl) hturns
  have htakes := hfront.trans hback
  have hread : tokens.stream.kinds = t.kinds ++ s'.kinds := by
    rw [hend, List.append_nil, hkinds]
  obtain ⟨-, hcovers⟩ := htakes.kinds_covers hread source
  rw [htakes.eq_list hend]
  exact ⟨⟨t, ht, htakes.map_kind hread⟩, hcovers, front, back, rfl, hfilters, hsteps⟩

end ObjectTransfer.Request
