import ObjectTransfer.Proofs.Document
import ObjectTransfer.Proofs.Response.Reading

/-!
# Responses survive writing and reading

The well-formed responses are exactly those that are read back from their own text, locations aside
(`Response.response_survives_iff_wellFormed`). The text has no mark after a field, only the break of
its line, which ends the literal before it.
-/

namespace ObjectTransfer.Response

open ObjectTransfer.Response.Derivation

/-! ## What is well formed -/

structure WellFormed (r : Response) : Prop where
  type : IsName r.type
  fields : ∀ e ∈ r.fields, e.WellFormed

/-- Locations do not matter. -/
theorem wellFormed_erase {r : Response} : r.erase.WellFormed ↔ r.WellFormed :=
  ⟨fun h => ⟨h.type, Entry.forall_wellFormed_erase.mp h.fields⟩,
    fun h => ⟨h.type, Entry.forall_wellFormed_erase.mpr h.fields⟩⟩

/-- Derivations of lexical tokens stand for well-formed responses. -/
theorem Derivation.wellFormed {t : Derivation} (h : Lexical .response t.kinds) :
    t.toResponse.WellFormed := by
  simp only [kinds, lexical_cons, lexical_append, lexical_flatMap] at h
  refine ⟨h.1.1, ?_⟩
  rw [toResponse, List.forall_mem_map]
  intro field hfield
  have hkinds := h.2.2.1 field hfield
  rw [Field.kinds, lexical_append] at hkinds
  exact Entry.wellFormed_of_lexical hkinds.1

/-! ## The text of a well-formed response -/

/-- The derivation that the text of the response spells. -/
def Derivation.ofResponse (r : Response) : Derivation :=
  ⟨r.type, r.fields.map fun e => ⟨e.pair, none⟩⟩

theorem Derivation.toResponse_ofResponse (r : Response) : (ofResponse r).toResponse = r.erase :=
  toResponse_eq (List.map_map ..) r.location

/-- The text of a well-formed response spells the tokens of a derivation of that response. -/
theorem WellFormed.spells {r : Response} (h : r.WellFormed) :
    Spells .response r.text.toList (ofResponse r).kinds := by
  have hopen : Writes .response Anything " \x7b" [.mark .openBrace] := writes_marks _ (by decide)
  have hclose : Writes .response Anything "\x7d\n" [.mark .closeBrace] := writes_marks _ (by decide)
  have hfields : Writes .response Anything (String.join (r.fields.map fieldLine))
      (r.fields.flatMap fun e => e.pair.kinds) :=
    writes_join fun e he => writes_line ((h.fields e he).writes_text rfl)
  have hbody := writes_lines hfields fun hnone : r.fields = [] => by rw [hnone, List.flatMap_nil]
  have htype := (writes_identifier h.type rfl).append hopen fun _ _ => wordEnds_cons (by decide) _
  have hall := (htype.append hbody fun _ _ => trivial).append hclose fun _ _ => trivial
  refine (hall.of_eq ?_).spells trivial
  simp [ofResponse, kinds, Field.kinds, Phrase.optionalKinds, List.flatMap_map]

/-! ## Round trips -/

/-- What is read from a text is well formed. -/
theorem wellFormed_of_parse {options : Options} {text : String} {r : Response}
    (h : Dialect.response.parse options text = .ok r) : r.WellFormed := by
  obtain ⟨s, hlexical, hread⟩ := Dialect.lexical_of_parse h
  obtain ⟨t, hkinds, ht⟩ := Derivation.sound hread
  rw [← hkinds] at hlexical
  rw [← wellFormed_erase, ← ht]
  exact t.wellFormed hlexical

/-- A well-formed response is read from its text. -/
theorem exists_parse_print_of_wellFormed {options : Options} {r : Response}
    (hsize : (Dialect.response.print r).utf8ByteSize ≤ options.maxInputBytes) (h : r.WellFormed) :
    ∃ r', Dialect.response.parse options (Dialect.response.print r) = .ok r' ∧
      r'.erase = r.erase := by
  apply Dialect.exists_parse_of_spells hsize h.spells
  intro s hs
  rw [← toResponse_ofResponse]
  exact Derivation.complete options.sourceName (ofResponse r) hs

/-- A response is read from its text, locations aside, exactly if it is well formed, provided that
the text is not too large. Every response that was read before is read again. -/
theorem response_survives_iff_wellFormed (options : Options) (r : Response)
    (hsize : (Dialect.response.print r).utf8ByteSize ≤ options.maxInputBytes) :
    ((∃ r', Dialect.response.parse options (Dialect.response.print r) = .ok r' ∧
      r'.erase = r.erase) ↔ r.WellFormed) ∧
    ∀ (before : Options) (text : String), Dialect.response.parse before text = .ok r →
      ∃ r', Dialect.response.parse options (Dialect.response.print r) = .ok r' ∧
        r'.erase = r.erase := by
  apply Dialect.survives_iff_wellFormed (d := .response)
  · exact wellFormed_of_parse
  · exact wellFormed_erase
  · exact exists_parse_print_of_wellFormed hsize

/-- A record on one line, with a repeated key and a word in front of the key that follows it. -/
def recordText : String :=
  "Order \x7b total: -0, paid: true paid: null; note: \"\\\\\\n\\\"\" \x7d"

/-- What is read from `recordText`. -/
def record : Response :=
  ⟨"Order", [⟨"total", .number (.ofRatio true 0 1), .onFirstLine 8 17⟩,
    ⟨"paid", .boolean true, .onFirstLine 19 29⟩, ⟨"paid", .null, .onFirstLine 30 40⟩,
    ⟨"note", .string "\\\n\"", .onFirstLine 42 56⟩], .onFirstLine 0 58⟩

theorem record_survives :
    Dialect.response.parse ⟨"", 1, 58⟩ recordText = .ok record ∧ record.WellFormed ∧
      ∃ r', Dialect.response.parse ⟨"", 1, 100⟩ (Dialect.response.print record) = .ok r' ∧
        r'.erase = record.erase := by
  have hread : Dialect.response.parse ⟨"", 1, 58⟩ recordText = .ok record := by decide +kernel
  have hsurvives := response_survives_iff_wellFormed ⟨"", 1, 100⟩ record (by decide +kernel)
  have hagain := hsurvives.2 ⟨"", 1, 58⟩ recordText hread
  exact ⟨hread, hsurvives.1.mp hagain, hagain⟩

end ObjectTransfer.Response
