import ObjectTransfer.Proofs.Phrase.Lookahead
import ObjectTransfer.Proofs.Request.Reading

/-!
# Where reading a request stops

Requests that start alike stop alike, whatever the names of their sources (`lockstep_phrase`). Where
one stops, what was read before and a token that is named begin a request, or are one if the text may
end there (`explained_phrase`). In parentheses a name is missing only if no comma came last, and a
name with a value always goes on.
-/

namespace ObjectTransfer.Request.Derivation

open Phrase

variable {unseen : Nat} (source source' : String)

theorem lockstep_filtersTurn (seen seen' : List Entry) (place place' : TokenStream) :
    Lockstep unseen Any (filtersTurn source seen () place)
      (filtersTurn source' seen' () place') := by
  refine lockstep_next?_bind (fun hnext => ?_) fun _ => looks_ite (looks_pure _) ?_
  · refine lockstep_ite (eq_some_iff_of_shape_eq (.mark .closeParen) nofun hnext)
      (fun _ => lockstep_pure trivial) fun _ => ?_
    exact lockstep_bind (Entry.lockstep_phrase source source' .filterName)
      (fun _ => lockstep_pure trivial) fun _ => looks_pure _
  · exact looks_bind (Entry.looks_phrase source _) fun _ => looks_pure _

theorem lockstep_filtersPhrase :
    Lockstep unseen Any (filtersPhrase source) (filtersPhrase source') := by
  refine lockstep_token_bind (fun _ _ => rfl) fun _ _ => ?_
  have hlooks : ∀ source, Looks (do
      let first ← Entry.phrase source .filterName
      let all ← filtersAfter source first
      Phrase.mark .closeParen
      return all.reverse) :=
    fun _ => looks_bind (Entry.looks_phrase _ _) fun _ => looks_bind looks_repeatWhile fun _ =>
      looks_token_bind
  refine lockstep_optionalMark_bind (lockstep_pure trivial) ?_ (hlooks source)
  refine lockstep_bind (Entry.lockstep_phrase source source' .filterName) ?_
    fun _ => looks_bind looks_repeatWhile fun _ => looks_token_bind
  intro first first' _
  refine lockstep_bind (lockstep_repeatWhile (R := Any) (fun _ _ => rfl) ?_ trivial) ?_
    fun _ => looks_token_bind
  · intro seen seen' _ s s' _ hs hseen
    exact lockstep_filtersTurn source source' seen seen' s s' (hs.drop hseen)
  · exact fun _ => lockstep_token_bind (fun _ _ => rfl) fun _ _ => lockstep_pure trivial

theorem looks_filtersPhrase : Looks (filtersPhrase source) := looks_token_bind

theorem lockstep_optionalFiltersPhrase :
    Lockstep unseen Any (optionalFiltersPhrase source) (optionalFiltersPhrase source') :=
  lockstep_next?_bind
    (fun hnext => lockstep_ite (eq_some_iff_of_shape_eq (.mark .openParen) nofun hnext)
      (fun _ => lockstep_filtersPhrase source source') fun _ => lockstep_pure trivial)
    fun _ => looks_ite (looks_filtersPhrase source) (looks_pure _)

theorem lockstep_step (start start' : Position) :
    Lockstep unseen Any (Request.Step.phrase source start)
      (Request.Step.phrase source' start') := by
  refine lockstep_token_bind (fun _ _ => rfl) fun _ _ => ?_
  refine lockstep_bind (lockstep_optionalFiltersPhrase source source') ?_
    fun _ => looks_bind (looks_locationFrom _ _) fun _ => looks_pure _
  intro _ _ _
  exact lockstep_bind (lockstep_locationFrom source source' start start')
    (fun _ => lockstep_pure trivial) fun _ => looks_pure _

/-- Two requests are read in step. -/
theorem lockstep_phrase : Lockstep unseen Any (phrase source) (phrase source') := by
  refine lockstep_place_bind fun s s' _ => ?_
  have hroot : Lockstep unseen Any (rootPhrase source) (rootPhrase source') := by
    refine lockstep_token_bind (fun _ _ => rfl) fun _ _ => ?_
    exact lockstep_bind (lockstep_optionalFiltersPhrase source source')
      (fun _ => lockstep_pure trivial) fun _ => looks_pure _
  refine lockstep_bind hroot (fun _ => lockstep_turnsToEnd (fun _ _ => rfl) ?_)
    fun _ => looks_turnsToEnd
  intro _ _ _ t t' ht hseen
  exact lockstep_bind (lockstep_step source source' t.position t'.position)
    (fun _ => lockstep_pure trivial) (fun _ => looks_pure _) (ht.drop hseen)

/-! ## What would have helped -/

variable {source}

/-- The kinds of filters in parentheses. -/
abbrev FiltersKinds : List Token.Kind → Prop := KindsOf Filters.kinds fun _ => True

theorem explained_filtersAfter {first : Entry} {s : TokenStream} {stop : Stop}
    (h : (filtersAfter source first).run s = .error stop) :
    Explained (fun ks => ∃ others : List Pair, ks = others.flatMap fun p => .mark .comma :: p.kinds)
      s stop := by
  have hstart : FiltersRead first s [first] s := ⟨[], false, rfl, rfl, nofun⟩
  obtain ⟨seen, u, place, hread, hfollows, hopens, hfail⟩ :=
    exists_turn_of_repeatWhile_eq_error (fun hseen hopens hrun => hseen.step hopens hrun) hstart h
  obtain ⟨others, trailing, -, hs, htrailing⟩ := hread
  have hcomma := bind_opensAt_eq_some.mp hopens
  have hnot : trailing = false := by
    by_contra htrue
    rw [htrailing (by simpa using htrue)] at hcomma
    exact absurd hcomma (by decide)
  subst hnot
  by_cases hend : place.drop.next? = some (.mark .closeParen)
  · rw [filtersTurn_of_close hend] at hfail
    simp at hfail
  · rw [filtersTurn_of_not_close hend, run_map_eq_error] at hfail
    have hplace : place.After (others.flatMap fun p => .mark .comma :: p.kinds) s := ⟨hs, hfollows⟩
    refine (Entry.explained_phrase hfail (by decide) fun name => ⟨name, rfl⟩).within
      ((TokenStream.after_drop hcomma).trans hplace) ?_
    rintro _ ⟨p, -, rfl⟩
    exact ⟨[], others ++ [p], by simp⟩

theorem explained_filters {s : TokenStream} {stop : Stop}
    (h : (filtersPhrase source).run s = .error stop) : Explained FiltersKinds s stop := by
  rw [filtersPhrase_eq] at h
  rcases run_bind_eq_error.mp h with hopen | ⟨_, s₁, hopen, h⟩
  · exact explained_token hopen s.after_refl (by decide) rfl
      ⟨[.mark .closeParen], .empty, trivial, rfl⟩
  rcases run_bind_eq_error.mp h with hclosed | ⟨closed, s₂, hclosed, h⟩
  · exact absurd hclosed (run_optionalMark_ne_error _ _ _)
  have hs₂ := (after_optionalMark hclosed).trans (after_mark hopen)
  cases closed with
  | true => simp at h
  | false =>
    rcases run_bind_eq_error.mp h with hfirst | ⟨first, s₃, hfirst, h⟩
    · refine (Entry.explained_phrase hfirst (by decide) fun name => ⟨name, rfl⟩).within hs₂ ?_
      rintro _ ⟨p, -, rfl⟩
      exact ⟨[.mark .closeParen], .filled p [] false, trivial, by
        simp [Filters.kinds, separated, optionalMarkKinds]⟩
    have hs₃ := TokenStream.After.trans ⟨Entry.sound hfirst, (Entry.phrase _ _).forward hfirst⟩ hs₂
    rcases run_bind_eq_error.mp h with hall | ⟨all, s₄, hall, h⟩
    · refine (explained_filtersAfter hall).within hs₃ ?_
      rintro _ ⟨others, rfl⟩
      exact ⟨[.mark .closeParen], .filled first.pair others false, trivial, by
        simp [Filters.kinds, separated, optionalMarkKinds]⟩
    obtain ⟨others, trailing, -, hkinds, -⟩ := filtersAfter_sound hall
    rw [← List.append_assoc] at hkinds
    have hs₄ := TokenStream.After.trans ⟨hkinds, (filtersAfter _ _).forward hall⟩ hs₃
    rcases run_bind_eq_error.mp h with hclose | ⟨_, _, -, h⟩
    · exact explained_token hclose hs₄ (by decide) rfl
        ⟨[], .filled first.pair others trailing, trivial, by
          simp [Filters.kinds, separated, optionalMarkKinds]⟩
    · simp at h

theorem explained_optionalFilters {s : TokenStream} {stop : Stop}
    (h : (optionalFiltersPhrase source).run s = .error stop) : Explained FiltersKinds s stop := by
  unfold optionalFiltersPhrase at h
  rw [run_bind_of_ok (run_next? s)] at h
  split at h
  · exact explained_filters h
  · simp at h

theorem explained_step {start : Position} {s o : TokenStream} {stop : Stop}
    (hs : s.After [.mark .dot] o) (h : (Request.Step.phrase source start).run s = .error stop) :
    Explained (KindsOf Step.kinds fun _ => True) o stop := by
  rcases run_bind_eq_error.mp h with hrelation | ⟨relation, s₁, hrelation, h⟩
  · exact explained_token hrelation hs (by decide) ⟨"relation", rfl⟩
      ⟨[], ⟨"relation", none⟩, trivial, rfl⟩
  rcases run_bind_eq_error.mp h with hentries | ⟨entries, s₂, -, h⟩
  · refine (explained_optionalFilters hentries).within ((after_identifier hrelation).trans hs) ?_
    rintro _ ⟨filters, -, rfl⟩
    exact ⟨[], ⟨relation, some filters⟩, trivial, by simp [Step.kinds, optionalKinds]⟩
  · exact absurd h (by simp [locationFrom, run_map_eq_error])

theorem explained_steps {s : TokenStream} {stop : Stop}
    (h : (repeatWhile (opensAt .dot) (stepsTurn source) []).run s = .error stop) :
    Explained (KindsOfAll Step.kinds fun _ => True) s stop := by
  refine explained_collected stepsTurn_sound ?_ h
  intro seen u place stop' hopens hrun
  rcases run_bind_eq_error.mp hrun with hstep | ⟨_, _, -, hpure⟩
  · exact explained_step (TokenStream.after_drop (bind_opensAt_eq_some.mp hopens)) hstep
  · simp at hpure

theorem explained_phrase {s : TokenStream} {stop : Stop}
    (h : (phrase source).run s = .error stop) :
    ExplainedToEnd (KindsOf Derivation.kinds fun _ => True) s stop := by
  unfold phrase at h
  rw [run_bind_of_ok (run_place s)] at h
  rcases run_bind_eq_error.mp h with hroot | ⟨⟨model, entries⟩, s₁, hroot, h⟩
  · refine .inside ?_
    rcases run_bind_eq_error.mp hroot with hmodel | ⟨model, s₁, hmodel, hroot⟩
    · exact explained_token hmodel s.after_refl (by decide) ⟨"Model", rfl⟩
        ⟨[], ⟨"Model", none, []⟩, trivial, rfl⟩
    rcases run_bind_eq_error.mp hroot with hentries | ⟨_, _, -, hroot⟩
    · refine (explained_optionalFilters hentries).within (after_identifier hmodel) ?_
      rintro _ ⟨filters, -, rfl⟩
      exact ⟨[], ⟨model, some filters, []⟩, trivial, by simp [kinds, optionalKinds]⟩
    · simp at hroot
  obtain ⟨name, s₂, hmodel, hroot'⟩ := run_bind_eq_ok.mp hroot
  obtain ⟨found, s₃, hentries, hpure⟩ := run_bind_eq_ok.mp hroot'
  obtain ⟨-, rfl⟩ := run_pure_eq_ok.mp hpure
  obtain ⟨filters?, -, hkinds⟩ := optionalFilters_sound hentries
  have hs₁ := TokenStream.After.trans
    ⟨hkinds, (optionalFiltersPhrase source).forward hentries⟩ (after_identifier hmodel)
  rcases run_bind_eq_error.mp h with hsteps | ⟨seen, s₂, hsteps, h⟩
  · refine .inside ((explained_steps hsteps).within hs₁ ?_)
    rintro _ ⟨ts, -, rfl⟩
    exact ⟨[], ⟨name, filters?, ts⟩, trivial, by simp [kinds]⟩
  obtain ⟨ts, -, hkinds'⟩ := steps_sound (repeatWhile_eq_ok.mp hsteps)
  have hs₂ := TokenStream.After.trans
    ⟨hkinds', (repeatWhile (opensAt .dot) (stepsTurn source) []).forward hsteps⟩ hs₁
  rcases run_bind_eq_error.mp h with hend | ⟨_, _, -, h⟩
  · obtain ⟨-, rfl⟩ := ending_eq_error.mp hend
    exact .ended hs₂ ⟨⟨name, filters?, ts⟩, trivial, by simp [kinds]⟩
  · simp [run_map_eq_error] at h

end ObjectTransfer.Request.Derivation
