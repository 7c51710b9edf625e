import ObjectTransfer.Proofs.Response.Reading

/-!
# What is accepted as a response

A response is read exactly if its tokens derive it, locations aside, and no tokens have two
derivations (`Derivation.response_result_iff_derives`). A field takes at most one mark after it, and
the next field or the closing brace cannot start with a mark that ends a field.
-/

namespace ObjectTransfer.Response.Derivation

open Phrase

theorem Field.follow_kinds_append (t : Field) (rest : List Token.Kind) :
    Follow (t.kinds ++ rest) := avoids_cons (by simp) _

theorem Field.determined (t : Field) : Determined kinds Follow t := by
  obtain ⟨p, terminator?⟩ := t
  rintro ⟨p', terminator'?⟩ rest rest' hrest hrest' h
  simp only [kinds, List.append_assoc] at h
  obtain ⟨rfl, hterminator⟩ := p.determined trivial trivial h
  obtain ⟨rfl, hend⟩ := determined_terminator terminator? hrest hrest' hterminator
  exact ⟨rfl, hend⟩

theorem determined_fields (ts : List Field) :
    Determined (fun ts : List Field => ts.flatMap Field.kinds)
      (fun rest => rest.head? = some (.mark .closeBrace)) ts := by
  apply determined_flatMap Field.follow_kinds_append
  · intro rest hclose m hm hmark
    rw [hclose, Option.some.injEq, Token.Kind.mark.injEq] at hmark
    exact absurd hm (hmark ▸ by decide)
  · exact fun t rest hclose => absurd (Option.some.inj hclose) (by simp)
  · exact fun t _ => t.determined

theorem kinds_injective : Function.Injective kinds := by
  rintro ⟨type, ts⟩ ⟨type', ts'⟩ h
  simp only [kinds, List.cons.injEq, Token.Kind.identifier.injEq, true_and] at h
  obtain ⟨rfl, -⟩ := determined_fields ts rfl rfl h.2
  rw [h.1]

/-- A response is read from tokens exactly if the tokens derive it, locations aside; and no tokens
have two derivations. -/
theorem response_result_iff_derives (source : String) (s : TokenStream) (response : Response) :
    ((∃ r, (Response.read source s).result = .ok r ∧ r.erase = response) ↔
      ∃ t : Derivation, t.kinds = s.kinds ∧ t.toResponse = response) ∧
    Function.Injective Derivation.kinds := by
  refine ⟨⟨?_, ?_⟩, kinds_injective⟩
  · rintro ⟨r, hread, rfl⟩
    exact sound hread
  · rintro ⟨t, hkinds, rfl⟩
    exact complete source t hkinds.symm

end ObjectTransfer.Response.Derivation
