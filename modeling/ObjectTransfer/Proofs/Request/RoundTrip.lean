import ObjectTransfer.Proofs.Document
import ObjectTransfer.Proofs.Request.Reading

/-!
# Requests survive writing and reading

The well-formed requests are exactly those that are read back from their own text, locations aside
(`Request.request_survives_iff_wellFormed`). The text spells a derivation that has parentheses after
every step, and after the model if there are filters on it (`Derivation.ofRequest`).
-/

namespace ObjectTransfer.Request

open ObjectTransfer.Request.Derivation

/-! ## What is well formed -/

/-- A step that has a source form: in particular it has no verb. -/
structure Step.WellFormed (s : Step) : Prop where
  relation : IsName s.relation
  filters : ∀ e ∈ s.filters, e.WellFormed
  method : s.method? = none

structure WellFormed (r : Request) : Prop where
  model : IsName r.model
  filters : ∀ e ∈ r.filters, e.WellFormed
  steps : ∀ s ∈ r.steps, s.WellFormed

theorem Step.wellFormed_erase {s : Step} : s.erase.WellFormed ↔ s.WellFormed :=
  ⟨fun h => ⟨h.relation, Entry.forall_wellFormed_erase.mp h.filters, h.method⟩,
    fun h => ⟨h.relation, Entry.forall_wellFormed_erase.mpr h.filters, h.method⟩⟩

/-- Locations do not matter. -/
theorem wellFormed_erase {r : Request} : r.erase.WellFormed ↔ r.WellFormed := by
  have hsteps : (∀ s ∈ r.steps.map Step.erase, s.WellFormed) ↔ ∀ s ∈ r.steps, s.WellFormed := by
    rw [List.forall_mem_map]
    exact forall₂_congr fun _ _ => Step.wellFormed_erase
  exact ⟨fun h => ⟨h.model, Entry.forall_wellFormed_erase.mp h.filters, hsteps.mp h.steps⟩,
    fun h => ⟨h.model, Entry.forall_wellFormed_erase.mpr h.filters, hsteps.mpr h.steps⟩⟩

/-! ## Derivations stand for well-formed requests -/

theorem Derivation.Filters.wellFormed {f : Filters} (h : Lexical .request f.kinds) :
    ∀ p ∈ f.pairs, p.toEntry.WellFormed := by
  cases f with
  | empty => exact List.forall_mem_nil _
  | filled first others trailing =>
    simp only [kinds, lexical_cons, lexical_append] at h
    intro p hp
    exact Entry.wellFormed_of_lexical (lexical_separated.mp h.2.1 p hp)

theorem Derivation.wellFormed_pairs {filters? : Option Filters}
    (h : Lexical .request (Phrase.optionalKinds Filters.kinds filters?)) :
    ∀ e ∈ (pairs filters?).map Pair.toEntry, e.WellFormed := by
  rw [List.forall_mem_map]
  cases filters? with
  | none => exact List.forall_mem_nil _
  | some f => exact f.wellFormed h

theorem Derivation.Step.wellFormed {t : Derivation.Step} (h : Lexical .request t.kinds) :
    t.toStep.WellFormed := by
  simp only [kinds, lexical_cons] at h
  exact ⟨h.2.1.1, wellFormed_pairs h.2.2, rfl⟩

theorem Derivation.wellFormed {t : Derivation} (h : Lexical .request t.kinds) :
    t.toRequest.WellFormed := by
  simp only [kinds, lexical_cons, lexical_append, lexical_flatMap] at h
  refine ⟨h.1.1, wellFormed_pairs h.2.1, ?_⟩
  rw [toRequest, List.forall_mem_map]
  exact fun s hs => Step.wellFormed (h.2.2 s hs)

/-! ## The text of a well-formed request -/

def Derivation.Filters.ofPairs : List Pair → Filters
  | [] => empty
  | first :: others => filled first others false

theorem Derivation.Filters.pairs_ofPairs (ps : List Pair) : (ofPairs ps).pairs = ps := by
  cases ps <;> rfl

def Derivation.Step.ofStep (s : Request.Step) : Derivation.Step :=
  ⟨s.relation, some (.ofPairs (s.filters.map Entry.pair))⟩

/-- The derivation that the text of the request spells. -/
def Derivation.ofRequest (r : Request) : Derivation :=
  ⟨r.model, if r.filters = [] then none else some (.ofPairs (r.filters.map Entry.pair)),
    r.steps.map Step.ofStep⟩

theorem Derivation.Step.toStep_ofStep {s : Request.Step} (h : s.method? = none) :
    (ofStep s).toStep = s.erase := by
  rw [toStep, ofStep, pairs, Filters.pairs_ofPairs, ← map_erase, Request.Step.erase, h]

theorem Derivation.toRequest_ofRequest {r : Request} (h : ∀ s ∈ r.steps, s.method? = none) :
    (ofRequest r).toRequest = r.erase := by
  have hfilters : (pairs (ofRequest r).filters?).map Pair.toEntry = r.filters.map Entry.erase := by
    rw [ofRequest, map_erase]
    by_cases hnone : r.filters = []
    · rw [if_pos hnone, hnone]
      rfl
    · rw [if_neg hnone, pairs, Filters.pairs_ofPairs]
  have hsteps : (ofRequest r).steps.map Step.toStep = r.steps.map Request.Step.erase := by
    rw [ofRequest, List.map_map]
    exact List.map_congr_left fun s hs => Step.toStep_ofStep (h s hs)
  rw [toRequest, hfilters, hsteps]
  rfl

theorem writes_filtersText {entries : List Entry} (h : ∀ e ∈ entries, e.WellFormed) :
    Writes .request Anything (filtersText entries)
      (Filters.kinds (.ofPairs (entries.map Entry.pair))) := by
  have hopen : Writes .request Anything "(" [.mark .openParen] := writes_marks _ (by decide)
  have hclose : Writes .request Anything ")" [.mark .closeParen] := writes_marks _ (by decide)
  cases entries with
  | nil => exact hopen.append hclose fun _ _ => trivial
  | cons first others =>
    have hfilters := writes_intercalate writes_comma apart_comma
      fun e he => Entry.WellFormed.writes_text (d := .request) rfl (h e he)
    have hall := (hopen.append hfilters fun _ _ => trivial).append hclose
      fun _ _ => apart_cons (by decide) (by decide) _
    refine hall.of_eq ?_
    simp [Filters.ofPairs, Filters.kinds, Phrase.separated, Phrase.optionalMarkKinds,
      List.flatMap_map]

theorem wordEnds_filtersText (entries : List Entry) (rest : List Char) :
    WordEnds ((filtersText entries).toList ++ rest) := by
  unfold filtersText
  rw [String.append_assoc, String.toList_append, List.append_assoc]
  exact wordEnds_cons (by decide) _

theorem writes_stepText {s : Step} (h : s.WellFormed) :
    Writes .request Anything s.text (Derivation.Step.ofStep s).kinds := by
  have hdot : Writes .request Anything "." [.mark .dot] := writes_marks _ (by decide)
  have hrelation := hdot.append (writes_identifier h.relation rfl) fun _ _ => trivial
  exact hrelation.append (writes_filtersText h.filters) fun rest _ => wordEnds_filtersText _ rest

/-- The filters on the model as the text of the request shows them. -/
def rootText (r : Request) : String := if r.filters = [] then "" else filtersText r.filters

theorem writes_rootText {r : Request} (h : ∀ e ∈ r.filters, e.WellFormed) :
    Writes .request WordEnds r.rootText
      (Phrase.optionalKinds Filters.kinds (ofRequest r).filters?) := by
  unfold rootText
  rw [ofRequest]
  -- Empty parentheses are not written after the model.
  by_cases hnone : r.filters = []
  · rw [if_pos hnone, if_pos hnone]
    exact writes_empty.mono fun _ _ => trivial
  · rw [if_neg hnone, if_neg hnone]
    exact (writes_filtersText h).mono fun _ _ => trivial

theorem wordEnds_rootText (r : Request) {rest : List Char} (h : WordEnds rest) :
    WordEnds (r.rootText.toList ++ rest) := by
  unfold rootText
  by_cases hnone : r.filters = []
  · rw [if_pos hnone]
    exact h
  · rw [if_neg hnone]
    exact wordEnds_filtersText _ rest

theorem wordEnds_steps (steps : List Step) {rest : List Char} (h : WordEnds rest) :
    WordEnds ((String.join (steps.map Step.text)).toList ++ rest) := by
  cases steps with
  | nil => exact h
  | cons s steps =>
    unfold Step.text
    rw [List.map_cons, String.join_cons, String.append_assoc, String.append_assoc,
      String.toList_append, List.append_assoc]
    exact wordEnds_cons (by decide) _

/-- The text of a well-formed request spells the tokens of a derivation of that request. -/
theorem WellFormed.spells {r : Request} (h : r.WellFormed) :
    Spells .request r.text.toList (ofRequest r).kinds := by
  have hmodel := (writes_identifier h.model rfl).append (writes_rootText h.filters)
    fun _ hrest => r.wordEnds_rootText hrest
  have hsteps : Writes .request WordEnds (String.join (r.steps.map Step.text))
      ((r.steps.map Step.ofStep).flatMap Derivation.Step.kinds) := by
    rw [List.flatMap_map]
    exact (writes_join fun s hs => writes_stepText (h.steps s hs)).mono fun _ _ => trivial
  have hall := hmodel.append hsteps fun _ hrest => wordEnds_steps _ hrest
  exact (hall.of_eq (by simp [ofRequest, kinds])).spells nofun

/-! ## Round trips -/

/-- What is read from a text is well formed. -/
theorem wellFormed_of_parse {options : Options} {text : String} {r : Request}
    (h : Dialect.request.parse options text = .ok r) : r.WellFormed := by
  obtain ⟨s, hlexical, hread⟩ := Dialect.lexical_of_parse h
  obtain ⟨t, hkinds, ht⟩ := Derivation.sound hread
  rw [← hkinds] at hlexical
  rw [← wellFormed_erase, ← ht]
  exact t.wellFormed hlexical

/-- A well-formed request is read from its text. -/
theorem exists_parse_print_of_wellFormed {options : Options} {r : Request}
    (hsize : (Dialect.request.print r).utf8ByteSize ≤ options.maxInputBytes) (h : r.WellFormed) :
    ∃ r', Dialect.request.parse options (Dialect.request.print r) = .ok r' ∧
      r'.erase = r.erase := by
  apply Dialect.exists_parse_of_spells hsize h.spells
  intro s hs
  rw [← toRequest_ofRequest fun step hstep => (h.steps step hstep).method]
  exact Derivation.complete options.sourceName (ofRequest r) hs

/-- A request is read from its text, locations aside, exactly if it is well formed, provided that the
text is not too large. Every request that was read before is read again. -/
theorem request_survives_iff_wellFormed (options : Options) (r : Request)
    (hsize : (Dialect.request.print r).utf8ByteSize ≤ options.maxInputBytes) :
    ((∃ r', Dialect.request.parse options (Dialect.request.print r) = .ok r' ∧
      r'.erase = r.erase) ↔ r.WellFormed) ∧
    ∀ (before : Options) (text : String), Dialect.request.parse before text = .ok r →
      ∃ r', Dialect.request.parse options (Dialect.request.print r) = .ok r' ∧
        r'.erase = r.erase := by
  apply Dialect.survives_iff_wellFormed (d := .request)
  · exact wellFormed_of_parse
  · exact wellFormed_erase
  · exact exists_parse_print_of_wellFormed hsize

/-- A request with empty parentheses after its model and none after its first step. -/
def walkText : String := "Order().lines.product(price: -1.5, name: \"\\\"a\\\\b\\\"\",)"

/-- What is read from `walkText`. -/
def walk : Request :=
  ⟨"Order", [],
    [⟨"lines", [], none, .onFirstLine 7 13⟩,
      ⟨"product", [⟨"price", .number (.ofRatio true 3 2), .onFirstLine 22 33⟩,
        ⟨"name", .string "\"a\\b\"", .onFirstLine 35 51⟩], none, .onFirstLine 13 53⟩],
    .onFirstLine 0 53⟩

theorem walk_survives :
    Dialect.request.parse ⟨"", 1, 53⟩ walkText = .ok walk ∧ walk.WellFormed ∧
      ∃ r', Dialect.request.parse ⟨"", 1, 100⟩ (Dialect.request.print walk) = .ok r' ∧
        r'.erase = walk.erase := by
  have hread : Dialect.request.parse ⟨"", 1, 53⟩ walkText = .ok walk := by decide +kernel
  have hsurvives := request_survives_iff_wellFormed ⟨"", 1, 100⟩ walk (by decide +kernel)
  have hagain := hsurvives.2 ⟨"", 1, 53⟩ walkText hread
  exact ⟨hread, hsurvives.1.mp hagain, hagain⟩

end ObjectTransfer.Request
