import ObjectTransfer.Proofs.Request.Derivation
import ObjectTransfer.Request.Grammar

/-!
# Reading requests

A request is read exactly if its tokens have a derivation, and what is read is the request that the
derivation stands for, at the places of its tokens (`Derivation.sound`, `Derivation.complete`).
-/

namespace ObjectTransfer.Request.Derivation

open Phrase

/-! ## Filters after the first -/

/-- A turn of the loop over filters, after a comma: reads a filter and keeps it, or nothing before
the closing parenthesis. -/
def filtersTurn (source : String) (seen : List Entry) (_ : Unit) (_ : TokenStream) :
    Phrase (List Entry) := do
  if (← Phrase.next?) = some (.mark .closeParen) then return seen
  else return (← Entry.phrase source .filterName) :: seen

theorem filtersTurn_of_close {source : String} {seen : List Entry} {place s : TokenStream}
    (h : s.next? = some (.mark .closeParen)) :
    (filtersTurn source seen () place).run s = .ok (seen, s) := by
  unfold filtersTurn
  rw [run_bind_of_ok (run_next? s), if_pos h, run_pure]

theorem filtersTurn_of_not_close {source : String} {seen : List Entry} {place s : TokenStream}
    (h : s.next? ≠ some (.mark .closeParen)) :
    (filtersTurn source seen () place).run s =
      ((· :: seen) <$> Entry.phrase source .filterName).run s := by
  unfold filtersTurn
  rw [run_bind_of_ok (run_next? s), if_neg h]
  rfl

/-- Reads the filters after the first one, each after a comma. -/
def filtersAfter (source : String) (first : Entry) : Phrase (List Entry) :=
  Phrase.repeatWhile (opensAt .comma)
    (filtersTurn source) [first]

/-- The tokens from `s` up to `place` are those of filters, each after a comma, and `seen` holds these
after the first one. A comma without a filter after it can only be the last token: a parenthesis
follows it. -/
def FiltersRead (first : Entry) (s : TokenStream) (seen : List Entry) (place : TokenStream) : Prop :=
  ∃ (others : List Pair) (trailing : Bool),
    first.pair :: others = seen.reverse.map Entry.pair ∧
    s.kinds = others.flatMap (fun p => .mark .comma :: p.kinds) ++
      (optionalMarkKinds .comma trailing ++ place.kinds) ∧
    (trailing = true → place.next? = some (.mark .closeParen))

/-- A turn reads one more filter, or the last comma. -/
theorem FiltersRead.step {source : String} {first : Entry} {s place place' : TokenStream}
    {seen seen' : List Entry} (h : FiltersRead first s seen place) {u : Unit}
    (hopens : place.next?.bind (opensAt .comma) = some u)
    (hrun : (filtersTurn source seen u place).run place.drop = .ok (seen', place')) :
    FiltersRead first s seen' place' := by
  obtain ⟨others, trailing, hseen, hplace, htrailing⟩ := h
  have hcomma := bind_opensAt_eq_some.mp hopens
  have hnot : trailing = false := by
    by_contra htrue
    rw [Bool.not_eq_false] at htrue
    rw [htrailing htrue] at hcomma
    exact absurd hcomma (by decide)
  subst hnot
  rw [TokenStream.kinds_eq_cons hcomma] at hplace
  by_cases hend : place.drop.next? = some (.mark .closeParen)
  · rw [filtersTurn_of_close hend] at hrun
    obtain ⟨rfl, rfl⟩ := Prod.mk.inj (Except.ok.inj hrun)
    exact ⟨others, true, hseen, hplace, fun _ => hend⟩
  · rw [filtersTurn_of_not_close hend] at hrun
    obtain ⟨e, hread, rfl⟩ := run_map_eq_ok.mp hrun
    refine ⟨others ++ [e.pair], false, ?_, ?_, nofun⟩
    · rw [List.reverse_cons, List.map_append, ← hseen]
      rfl
    · rw [hplace, Entry.sound hread]
      simp [optionalMarkKinds]

theorem filtersAfter_sound {source : String} {first : Entry} {s s' : TokenStream}
    {all : List Entry} (h : (filtersAfter source first).run s = .ok (all, s')) :
    FiltersRead first s all s' := by
  have hstart : FiltersRead first s [first] s := ⟨[], false, rfl, rfl, nofun⟩
  exact (invariant_of_turns_eq_ok (fun hseen hopens hrun => hseen.step hopens hrun) hstart
    (repeatWhile_eq_ok.mp h)).1

theorem filtersAfter_complete (source : String) (first : Entry) {others : List Pair}
    {trailing : Bool} {s : TokenStream} {rest : List Token.Kind}
    (hs : s.kinds = others.flatMap (fun p => .mark .comma :: p.kinds) ++
      (optionalMarkKinds .comma trailing ++ .mark .closeParen :: rest)) :
    ∃ all s', (filtersAfter source first).run s = .ok (all, s') ∧
      all.reverse.map Entry.pair = first.pair :: others ∧
      s'.kinds = .mark .closeParen :: rest := by
  have hturn : ∀ p ∈ others, ∀ seen : List Entry,
      ReadsItem (opensAt .comma) (filtersTurn source) (fun p : Pair => .mark .comma :: p.kinds)
        (fun _ => True) seen p fun seen' => ∃ e, seen' = e :: seen ∧ Entry.pair e = id p := by
    intro p _ seen place rest' hplace _
    obtain ⟨hcomma, hdrop⟩ := TokenStream.next?_of_kinds hplace
    have hkey : place.drop.next? ≠ some (.mark .closeParen) := by
      rw [TokenStream.next?_eq_head?, hdrop]
      exact fun h => absurd (Option.some.inj h) (by simp)
    obtain ⟨e, s', hread, rfl, hs'⟩ := Entry.complete source .filterName hdrop
    refine ⟨(), e :: seen, s', bind_opensAt_eq_some.mpr hcomma, ?_, ⟨e, rfl, rfl⟩, hs'⟩
    rw [filtersTurn_of_not_close hkey, run_map_eq_ok]
    exact ⟨e, hread, rfl⟩
  obtain ⟨all, s₁, hturns, hall, hs₁⟩ :=
    collected_complete hturn (fun _ => trivial) [first] hs
  rw [List.map_id] at hall
  -- The loop ends at the parenthesis, which a last comma may stand in front of.
  cases trailing with
  | false =>
    rw [turns_of_stop hs₁ rfl] at hturns
    exact ⟨all, s₁, repeatWhile_eq_ok.mpr hturns, hall, hs₁⟩
  | true =>
    obtain ⟨hcomma, hdrop⟩ := TokenStream.next?_of_kinds hs₁
    have hend : s₁.drop.next? = some (.mark .closeParen) := by
      rw [TokenStream.next?_eq_head?, hdrop]
      rfl
    rw [turns_of_opened (bind_opensAt_eq_some.mpr hcomma), filtersTurn_of_close hend] at hturns
    have hended := hturns.trans (turns_of_stop hdrop rfl)
    exact ⟨all, s₁.drop, repeatWhile_eq_ok.mpr hended, hall, hdrop⟩

/-! ## Filters -/

theorem filtersPhrase_eq (source : String) :
    filtersPhrase source = do
      Phrase.mark .openParen
      if ← Phrase.optionalMark .closeParen then return []
      else
        let first ← Entry.phrase source .filterName
        let all ← filtersAfter source first
        Phrase.mark .closeParen
        return all.reverse := rfl

namespace Filters

theorem sound {source : String} {s s' : TokenStream} {entries : List Entry}
    (h : (filtersPhrase source).run s = .ok (entries, s')) :
    ∃ f : Filters, f.pairs = entries.map Entry.pair ∧ s.kinds = f.kinds ++ s'.kinds := by
  rw [filtersPhrase_eq] at h
  obtain ⟨u, s₁, hopen, h₁⟩ := run_bind_eq_ok.mp h
  obtain ⟨closed, s₂, hclosed, h₂⟩ := run_bind_eq_ok.mp h₁
  have hs := mark_sound hopen
  have hs₁ := optionalMark_sound hclosed
  cases closed with
  | true =>
    obtain ⟨rfl, rfl⟩ := run_pure_eq_ok.mp h₂
    refine ⟨empty, rfl, ?_⟩
    rw [hs, hs₁]
    rfl
  | false =>
    obtain ⟨first, s₃, hfirst, h₃⟩ := run_bind_eq_ok.mp h₂
    obtain ⟨all, s₄, hall, h₄⟩ := run_bind_eq_ok.mp h₃
    obtain ⟨u, s₅, hclose, h₅⟩ := run_bind_eq_ok.mp h₄
    obtain ⟨rfl, rfl⟩ := run_pure_eq_ok.mp h₅
    obtain ⟨others, trailing, hpairs, hs₃, -⟩ := filtersAfter_sound hall
    refine ⟨filled first.pair others trailing, hpairs, ?_⟩
    rw [hs, hs₁, Entry.sound hfirst, hs₃, mark_sound hclose]
    simp [kinds, separated, optionalMarkKinds]

theorem complete (source : String) (f : Filters) {s : TokenStream} {rest : List Token.Kind}
    (hs : s.kinds = f.kinds ++ rest) :
    ∃ entries s', (filtersPhrase source).run s = .ok (entries, s') ∧
      entries.map Entry.pair = f.pairs ∧ s'.kinds = rest := by
  rw [filtersPhrase_eq]
  cases f with
  | empty =>
    obtain ⟨s₁, hopen, hs₁⟩ := mark_complete hs
    obtain ⟨s₂, hclosed, hs₂⟩ := optionalMark_complete (m := .closeParen) true hs₁ nofun
    refine ⟨[], s₂, ?_, rfl, hs₂⟩
    rw [run_bind_of_ok hopen, run_bind_of_ok hclosed, if_pos rfl, run_pure]
  | filled first others trailing =>
    simp only [kinds, separated, List.cons_append, List.append_assoc, List.nil_append] at hs
    obtain ⟨s₁, hopen, hs₁⟩ := mark_complete hs
    obtain ⟨s₂, hclosed, hs₂⟩ := optionalMark_complete (m := .closeParen) false hs₁
      fun _ => avoids_cons (by simp) _
    obtain ⟨e, s₃, hfirst, rfl, hs₃⟩ := Entry.complete source .filterName hs₂
    obtain ⟨all, s₄, hall, hpairs, hs₄⟩ := filtersAfter_complete source e hs₃
    obtain ⟨s', hclose, hs'⟩ := mark_complete hs₄
    refine ⟨all.reverse, s', ?_, hpairs, hs'⟩
    rw [run_bind_of_ok hopen, run_bind_of_ok hclosed, if_neg Bool.false_ne_true,
      run_bind_of_ok hfirst, run_bind_of_ok hall, run_bind_of_ok hclose, run_pure]

end Filters

theorem optionalFilters_sound {source : String} {s s' : TokenStream} {entries : List Entry}
    (h : (optionalFiltersPhrase source).run s = .ok (entries, s')) :
    ∃ filters? : Option Filters, pairs filters? = entries.map Entry.pair ∧
      s.kinds = optionalKinds Filters.kinds filters? ++ s'.kinds := by
  unfold optionalFiltersPhrase at h
  rw [run_bind_of_ok (run_next? s)] at h
  split at h
  · obtain ⟨f, hpairs, hs⟩ := Filters.sound h
    exact ⟨some f, hpairs, hs⟩
  · obtain ⟨rfl, rfl⟩ := run_pure_eq_ok.mp h
    exact ⟨none, rfl, rfl⟩

theorem optionalFilters_complete (source : String) (filters? : Option Filters) {s : TokenStream}
    {rest : List Token.Kind} (hs : s.kinds = optionalKinds Filters.kinds filters? ++ rest)
    (hrest : Avoids [.openParen] rest) :
    ∃ entries s', (optionalFiltersPhrase source).run s = .ok (entries, s') ∧
      entries.map Entry.pair = pairs filters? ∧ s'.kinds = rest := by
  unfold optionalFiltersPhrase
  rw [run_bind_of_ok (run_next? s), TokenStream.next?_eq_head?]
  cases filters? with
  | none =>
    have hnext : s.kinds.head? ≠ some (.mark .openParen) := by
      rw [hs]
      exact hrest .openParen List.mem_cons_self
    refine ⟨[], s, ?_, rfl, hs⟩
    rw [if_neg hnext, run_pure]
  | some f =>
    have hnext : s.kinds.head? = some (.mark .openParen) := by
      rw [hs]
      cases f <;> rfl
    rw [if_pos hnext]
    exact Filters.complete source f hs

/-! ## Steps -/

theorem map_erase (entries : List Entry) :
    entries.map Entry.erase = (entries.map Entry.pair).map Pair.toEntry := by
  rw [List.map_map]
  rfl

namespace Step

/-- What can follow a step: no parenthesis, which would open its filters. -/
abbrev Follow : List Token.Kind → Prop := Avoids [.openParen]

theorem follow_kinds_append (t : Step) (rest : List Token.Kind) : Follow (t.kinds ++ rest) :=
  avoids_mark_cons (by decide) _

theorem sound {source : String} {start : Position} {s s' : TokenStream} {step : Request.Step}
    (h : (Request.Step.phrase source start).run s = .ok (step, s')) :
    ∃ t : Step, t.toStep = step.erase ∧ .mark .dot :: s.kinds = t.kinds ++ s'.kinds := by
  obtain ⟨relation, s₁, hrelation, h₁⟩ := run_bind_eq_ok.mp h
  obtain ⟨entries, s₂, hentries, h₂⟩ := run_bind_eq_ok.mp h₁
  obtain ⟨location, s₃, hlocation, h₃⟩ := run_bind_eq_ok.mp h₂
  obtain ⟨-, rfl⟩ := run_pure_eq_ok.mp hlocation
  obtain ⟨rfl, rfl⟩ := run_pure_eq_ok.mp h₃
  obtain ⟨filters?, hpairs, hs₁⟩ := optionalFilters_sound hentries
  refine ⟨⟨relation, filters?⟩, ?_, ?_⟩
  · rw [toStep, hpairs, ← map_erase]
    rfl
  · rw [identifier_sound hrelation, hs₁]
    rfl

theorem complete (source : String) (start : Position) (t : Step) {s : TokenStream}
    {rest : List Token.Kind} (hs : .mark .dot :: s.kinds = t.kinds ++ rest) (hrest : Follow rest) :
    ∃ step s', (Request.Step.phrase source start).run s = .ok (step, s') ∧
      step.erase = t.toStep ∧ s'.kinds = rest := by
  obtain ⟨relation, filters?⟩ := t
  obtain ⟨s₁, hrelation, hs₁⟩ := identifier_complete .relationName (List.cons.inj hs).2
  obtain ⟨entries, s₂, hentries, hpairs, hs₂⟩ :=
    optionalFilters_complete source filters? hs₁ hrest
  refine ⟨⟨relation, entries, none, ⟨source, start, s₂.behind⟩⟩, s₂, ?_, ?_, hs₂⟩
  · unfold Request.Step.phrase
    rw [run_bind_of_ok hrelation, run_bind_of_ok hentries]
    rfl
  · rw [toStep, ← hpairs, ← map_erase]
    rfl

end Step

/-- A turn of the loop over steps: reads one and keeps it. -/
def stepsTurn (source : String) (seen : List Request.Step) (_ : Unit) (opening : TokenStream) :
    Phrase (List Request.Step) := do
  return (← Request.Step.phrase source opening.position) :: seen

/-- A turn reads a step. -/
theorem stepsTurn_sound {source : String} {seen seen' : List Request.Step} {u : Unit}
    {place place' : TokenStream} (hopens : place.next?.bind (opensAt .dot) = some u)
    (hrun : (stepsTurn source seen u place).run place.drop = .ok (seen', place')) :
    ∃ step t, seen' = step :: seen ∧ True ∧ Step.toStep t = Request.Step.erase step ∧
      place.kinds = Step.kinds t ++ place'.kinds := by
  obtain ⟨step, s₁, hstep, hpure⟩ := run_bind_eq_ok.mp hrun
  obtain ⟨rfl, rfl⟩ := run_pure_eq_ok.mp hpure
  obtain ⟨t, ht, hs₁⟩ := Step.sound hstep
  refine ⟨step, t, rfl, trivial, ht, ?_⟩
  rw [TokenStream.kinds_eq_cons (bind_opensAt_eq_some.mp hopens), hs₁]

/-- The turns read the steps of the tokens. -/
theorem steps_sound {source : String} {s s' : TokenStream} {seen : List Request.Step}
    (h : turns (opensAt .dot) (stepsTurn source) [] s = (seen, .ok s')) :
    ∃ ts : List Step, ts.map Step.toStep = seen.reverse.map Request.Step.erase ∧
      s.kinds = ts.flatMap Step.kinds ++ s'.kinds := by
  obtain ⟨ts, -, hseen, hs⟩ := collected_sound stepsTurn_sound h
  exact ⟨ts, hseen.symm, hs⟩

theorem steps_complete (source : String) {ts : List Step} {s : TokenStream}
    (hs : s.kinds = ts.flatMap Step.kinds) :
    ∃ seen s', turns (opensAt .dot) (stepsTurn source) [] s = (seen, .ok s') ∧
      seen.reverse.map Request.Step.erase = ts.map Step.toStep ∧ s'.kinds = [] := by
  have hturn : ∀ t ∈ ts, ∀ seen : List Request.Step,
      ReadsItem (opensAt .dot) (stepsTurn source) Step.kinds Step.Follow seen t
        fun seen' => ∃ step, seen' = step :: seen ∧ Request.Step.erase step = t.toStep := by
    intro t _ seen place rest hplace hrest
    obtain ⟨hdot, -⟩ := TokenStream.next?_of_kinds hplace
    rw [TokenStream.kinds_eq_cons hdot] at hplace
    obtain ⟨step, s', hstep, ht, hs'⟩ := Step.complete source place.position t hplace hrest
    refine ⟨(), step :: seen, s', bind_opensAt_eq_some.mpr hdot, ?_, ⟨step, rfl, ht⟩, hs'⟩
    unfold stepsTurn
    rw [run_bind_of_ok hstep, run_pure]
  rw [← List.append_nil (ts.flatMap Step.kinds)] at hs
  obtain ⟨seen, s', hturns, hseen, hs'⟩ := collected_complete hturn
    (holds_flatMap_append Step.follow_kinds_append (avoids_nil _)) [] hs
  rw [turns_of_stop hs' rfl] at hturns
  exact ⟨seen, s', hturns, hseen, hs'⟩

/-! ## Requests -/

/-- Reads the steps of a request to the end of the text. -/
def stepsPhrase (source : String) (start : Position) (root : String × List Entry) :
    Phrase Request :=
  turnsToEnd (opensAt .dot) (stepsTurn source) []
    (fun seen place => ⟨root.1, root.2, seen.reverse, source, start, place.behind⟩) .endOfInput

/-- Reads a request to the end of the text. -/
def phrase (source : String) : Phrase Request := do
  let start := (← place).position
  let root ← rootPhrase source
  stepsPhrase source start root

theorem result_eq_run (source : String) (s : TokenStream) :
    (Request.read source s).result = (·.1) <$> (phrase source).run s := by
  have hphrase : (phrase source).run s =
      (rootPhrase source >>= stepsPhrase source s.position).run s := rfl
  unfold Request.read
  rw [hphrase]
  cases hroot : (rootPhrase source).run s with
  | error stop =>
    rw [run_bind_of_error hroot]
    rfl
  | ok found =>
    obtain ⟨⟨model, narrowed⟩, afterRoot⟩ := found
    rw [run_bind_of_ok hroot]
    exact ended_eq_run (opensAt .dot) (stepsTurn source) []
      (fun seen place =>
        (⟨model, narrowed, seen.reverse, source, s.position, place.behind⟩ : Request))
      .endOfInput afterRoot

/-- A request is read if its root is, and its steps are up to the end of the text. -/
theorem result_eq_ok {source : String} {s : TokenStream} {r : Request} :
    (Request.read source s).result = .ok r ↔
      ∃ model entries afterRoot seen s',
        (rootPhrase source).run s = .ok ((model, entries), afterRoot) ∧
        turns (opensAt .dot) (stepsTurn source) []
          afterRoot = (seen, .ok s') ∧
        s'.kinds = [] ∧ ⟨model, entries, seen.reverse, ⟨source, s.position, s'.behind⟩⟩ = r := by
  rw [result_eq_run, map_fst_eq_ok]
  unfold phrase
  rw [run_bind_of_ok (run_place s)]
  constructor
  · rintro ⟨s', hrun⟩
    obtain ⟨⟨model, entries⟩, afterRoot, hroot, hsteps⟩ := run_bind_eq_ok.mp hrun
    obtain ⟨seen, hturns, hend, hr⟩ := turnsToEnd_eq_ok.mp hsteps
    exact ⟨model, entries, afterRoot, seen, s', hroot, hturns, hend, hr⟩
  · rintro ⟨model, entries, afterRoot, seen, s', hroot, hturns, hend, hr⟩
    exact ⟨s', run_bind_eq_ok.mpr ⟨(model, entries), afterRoot, hroot,
      turnsToEnd_eq_ok.mpr ⟨seen, hturns, hend, hr⟩⟩⟩

theorem sound {source : String} {s : TokenStream} {r : Request}
    (h : (Request.read source s).result = .ok r) :
    ∃ t : Derivation, t.kinds = s.kinds ∧ t.toRequest = r.erase := by
  obtain ⟨model, entries, afterRoot, seen, s', hroot, hturns, hend, rfl⟩ :=
    result_eq_ok.mp h
  obtain ⟨name, s₁, hmodel, h₁⟩ := run_bind_eq_ok.mp hroot
  obtain ⟨found, s₂, hentries, h₂⟩ := run_bind_eq_ok.mp h₁
  obtain ⟨hpair, rfl⟩ := run_pure_eq_ok.mp h₂
  obtain ⟨rfl, rfl⟩ := Prod.mk.inj hpair
  obtain ⟨filters?, hpairs, hs₁⟩ := optionalFilters_sound hentries
  obtain ⟨ts, hsteps, hs₂⟩ := steps_sound hturns
  refine ⟨⟨name, filters?, ts⟩, ?_, ?_⟩
  · rw [identifier_sound hmodel, hs₁, hs₂, hend, List.append_nil]
    rfl
  · rw [toRequest, hpairs, ← map_erase, hsteps]
    rfl

theorem complete (source : String) (t : Derivation) {s : TokenStream} (hs : s.kinds = t.kinds) :
    ∃ r, (Request.read source s).result = .ok r ∧ r.erase = t.toRequest := by
  obtain ⟨model, filters?, ts⟩ := t
  have hfollow : Step.Follow (ts.flatMap Step.kinds) := by
    have hend := holds_flatMap_append Step.follow_kinds_append (avoids_nil _) ts
    rwa [List.append_nil] at hend
  obtain ⟨s₁, hmodel, hs₁⟩ := identifier_complete .modelName hs
  obtain ⟨entries, s₂, hentries, hpairs, hs₂⟩ :=
    optionalFilters_complete source filters? hs₁ hfollow
  obtain ⟨seen, s', hturns, hsteps, hs'⟩ := steps_complete source hs₂
  have hroot : (rootPhrase source).run s = .ok ((model, entries), s₂) := by
    unfold rootPhrase
    rw [run_bind_of_ok hmodel, run_bind_of_ok hentries, run_pure]
  refine ⟨_, result_eq_ok.mpr ⟨model, entries, s₂, seen, s', hroot, hturns, hs', rfl⟩, ?_⟩
  rw [toRequest, ← hpairs, ← map_erase, ← hsteps]
  rfl

end ObjectTransfer.Request.Derivation
