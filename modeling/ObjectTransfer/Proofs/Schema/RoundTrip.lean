import ObjectTransfer.Proofs.Document
import ObjectTransfer.Proofs.Schema.Documents
import ObjectTransfer.Proofs.Schema.Printed

/-!
# Schemas survive writing and reading

The well-formed schemas are exactly those that are read back from their own text
(`Schema.schema_survives_iff_wellFormed`). Whatever is read is well formed, so that it survives.
-/

namespace ObjectTransfer.Schema

open ObjectTransfer.Schema.Derivation

/-- What is read from a text is well formed, also with respect to a larger limit on nesting. -/
theorem wellFormed_of_parse {options : Options} {text : String} {doc : Document}
    (h : Dialect.schema.parse options text = .ok doc) {depth : Nat}
    (hdepth : options.maxDepth ≤ depth) : doc.WellFormed depth := by
  obtain ⟨s, hlexical, hread⟩ := Dialect.lexical_of_parse h
  obtain ⟨tree, hkinds, hwithin, rfl⟩ := Derivation.Document.sound hread
  rw [← hkinds] at hlexical
  exact Derivation.Document.wellFormed (hwithin.mono hdepth) hlexical

/-- A well-formed schema is read from its text. -/
theorem parse_print_of_wellFormed {options : Options} {doc : Document}
    (hsize : (Dialect.schema.print doc).utf8ByteSize ≤ options.maxInputBytes)
    (h : doc.WellFormed options.maxDepth) :
    Dialect.schema.parse options (Dialect.schema.print doc) = .ok doc := by
  obtain ⟨tree, htree, hwithin, hspells⟩ := h.exists_derivation
  have hread : ∀ s : TokenStream, s.kinds = tree.kinds →
      ∃ found, (Dialect.schema.read options s).result = .ok found ∧ found = doc :=
    fun s hs => ⟨tree.toSchema, Derivation.Document.complete hwithin hs, htree⟩
  obtain ⟨found, hparse, rfl⟩ := Dialect.exists_parse_of_spells hsize hspells hread
  exact hparse

/-- A schema is read from its text exactly if it is well formed, provided that the text is not too
large. Every schema that was read before, with no larger limit on nesting, is well formed and so is
read again. -/
theorem schema_survives_iff_wellFormed (options : Options) (doc : Document)
    (hsize : (Dialect.schema.print doc).utf8ByteSize ≤ options.maxInputBytes) :
    (Dialect.schema.parse options (Dialect.schema.print doc) = .ok doc ↔
      doc.WellFormed options.maxDepth) ∧
    ∀ (before : Options) (text : String), before.maxDepth ≤ options.maxDepth →
      Dialect.schema.parse before text = .ok doc →
        doc.WellFormed before.maxDepth ∧
          Dialect.schema.parse options (Dialect.schema.print doc) = .ok doc := by
  refine ⟨⟨fun h => wellFormed_of_parse h (Nat.le_refl _), parse_print_of_wellFormed hsize⟩, ?_⟩
  intro before text hdepth hparse
  have hwell := wellFormed_of_parse hparse hdepth
  exact ⟨wellFormed_of_parse hparse (Nat.le_refl _), parse_print_of_wellFormed hsize hwell⟩

/-- A schema on one line whose names are reserved words, with a nested type, a negative default and
a value that has to be escaped. -/
def reservedNamesText : String :=
  "Model Model extends extends \x7b type: List<Map<Key,Model>>; weight: Float? = -2.5, " ++
    "extends(by: Int?): Void \x7d type type = plain | \"a \\\"quoted\\\" \\n value\";"

/-- What is read from `reservedNamesText`. -/
def reservedNames : Document :=
  [.model ⟨"Model", some "extends",
    [⟨"type", "List<Map<Key, Model>>", true, none⟩,
      ⟨"weight", "Float", false, some (.number (.ofRatio true 5 2))⟩],
    [⟨"extends", [⟨"by", "Int", true⟩], "Void"⟩]⟩,
  .union ⟨"type", ["plain", "a \"quoted\" \n value"]⟩]

theorem reservedNames_survives :
    Dialect.schema.parse ⟨"", 3, 200⟩ reservedNamesText = .ok reservedNames ∧
      reservedNames.WellFormed 3 ∧ reservedNames.WellFormed 4 ∧
      Dialect.schema.parse ⟨"", 4, 200⟩ (Dialect.schema.print reservedNames) =
        .ok reservedNames := by
  have hread : Dialect.schema.parse ⟨"", 3, 200⟩ reservedNamesText = .ok reservedNames := by
    decide +kernel
  have hsurvives := schema_survives_iff_wellFormed ⟨"", 4, 200⟩ reservedNames (by decide +kernel)
  obtain ⟨hwell, hagain⟩ := hsurvives.2 ⟨"", 3, 200⟩ reservedNamesText (by decide) hread
  exact ⟨hread, hwell, hsurvives.1.mp hagain, hagain⟩

end ObjectTransfer.Schema
