import ObjectTransfer.Proofs.Layout
import ObjectTransfer.Proofs.Request.RoundTrip
import ObjectTransfer.Proofs.Response.RoundTrip
import ObjectTransfer.Proofs.Schema.RoundTrip

/-!
# Canonical texts

The canonical text of a document does not show locations (`Dialect.print_erase`). If a document was
read, then its canonical text is read as a document that differs from it in locations only and so has
the same canonical text (`Dialect.exists_parse_print`).
-/

namespace ObjectTransfer

namespace Request

theorem filtersText_erase (filters : List Entry) :
    filtersText (filters.map Entry.erase) = filtersText filters := by
  rw [filtersText, List.map_map]
  rfl

theorem Step.text_erase (s : Step) : s.erase.text = s.text := by
  rw [text, erase, filtersText_erase]
  rfl

theorem text_erase (r : Request) : r.erase.text = r.text := by
  have hsteps : (r.steps.map Step.erase).map Step.text = r.steps.map Step.text := by
    rw [List.map_map]
    exact List.map_congr_left fun s _ => s.text_erase
  simp only [text, erase, List.map_eq_nil_iff, filtersText_erase, hsteps]

end Request

theorem Response.text_erase (r : Response) : r.erase.text = r.text := by
  have hfields : (r.fields.map Entry.erase).map fieldLine = r.fields.map fieldLine := by
    rw [List.map_map]
    rfl
  simp only [text, erase, List.map_eq_nil_iff, hfields]

namespace Dialect

variable {d : Dialect} {options limits : Options} {text : String} {document found : d.Document}

theorem print_erase (d : Dialect) (document : d.Document) :
    d.print (d.erase document) = d.print document := by
  cases d with
  | schema => rfl
  | request => exact Request.text_erase document
  | response => exact Response.text_erase document

theorem print_eq_of_erase_eq (h : d.erase found = d.erase document) :
    d.print found = d.print document := by
  rw [← print_erase, h, print_erase]

/-- The canonical text of what was read is read again, if it is not too large. -/
theorem exists_parse_print (h : d.parse options text = .ok document)
    (hdepth : options.maxDepth ≤ limits.maxDepth)
    (hsize : (d.print document).utf8ByteSize ≤ limits.maxInputBytes) :
    ∃ found, d.parse limits (d.print document) = .ok found ∧ d.erase found = d.erase document ∧
      d.print found = d.print document := by
  have hsame : ∃ found, d.parse limits (d.print document) = .ok found ∧
      d.erase found = d.erase document := by
    cases d with
    | schema =>
      have hwell := Schema.wellFormed_of_parse h hdepth
      exact ⟨document, Schema.parse_print_of_wellFormed hsize hwell, rfl⟩
    | request => exact Request.exists_parse_print_of_wellFormed hsize (Request.wellFormed_of_parse h)
    | response =>
      exact Response.exists_parse_print_of_wellFormed hsize (Response.wellFormed_of_parse h)
  obtain ⟨found, hparse, herase⟩ := hsame
  exact ⟨found, hparse, herase, print_eq_of_erase_eq herase⟩

end Dialect
end ObjectTransfer
