import ObjectTransfer.Proofs.Request.Reading

/-!
# What is accepted as a request

A request is read exactly if its tokens derive it, locations aside, and no tokens have two
derivations (`Derivation.request_result_iff_derives`). The loop over filters takes a comma before it
looks whether a filter follows, so what ends the filters may start with a comma (`FiltersEnd`).
-/

namespace ObjectTransfer.Request.Derivation

open Phrase

/-! ## Filters -/

/-- What ends a list of filters: the closing parenthesis, possibly after a last comma. -/
def FiltersEnd (rest : List Token.Kind) : Prop :=
  ∃ trailing others, rest = optionalMarkKinds .comma trailing ++ .mark .closeParen :: others

/-- A filter after a comma is none of what ends the filters. -/
theorem not_filtersEnd_kinds_append (p : Pair) (rest : List Token.Kind) :
    ¬ FiltersEnd ((.mark .comma :: p.kinds) ++ rest) := by
  rintro ⟨trailing, others, h⟩
  cases trailing with
  | false => exact absurd (List.cons.inj h).1 (by decide)
  | true =>
    obtain ⟨-, hkey⟩ := List.cons.inj h
    exact absurd (List.cons.inj hkey).1 (by simp)

theorem determined_otherFilters (others : List Pair) :
    Determined (fun ps : List Pair => ps.flatMap fun p => .mark .comma :: p.kinds) FiltersEnd
      others := by
  have hothers : ∀ p ∈ others,
      Determined (fun p : Pair => .mark .comma :: p.kinds) (fun _ => True) p := by
    intro p _ p' rest rest' hrest hrest' h
    exact p.determined hrest hrest' (List.tail_eq_of_cons_eq h)
  exact determined_flatMap (fun _ _ => trivial) (fun _ _ => trivial) not_filtersEnd_kinds_append
    hothers

theorem Filters.determined (f : Filters) : Determined kinds (fun _ => True) f := by
  intro f' rest rest' _ _ h
  cases f with
  | empty =>
    cases f' with
    | empty => exact ⟨rfl, List.tail_eq_of_cons_eq (List.tail_eq_of_cons_eq h)⟩
    | filled first' others' trailing' =>
      -- A parenthesis is no key.
      exact absurd (List.cons.inj (List.tail_eq_of_cons_eq h)).1 (by simp)
  | filled first others trailing =>
    cases f' with
    | empty => exact absurd (List.cons.inj (List.tail_eq_of_cons_eq h)).1 (by simp)
    | filled first' others' trailing' =>
      simp only [kinds, separated, List.cons_append, List.append_assoc, List.cons.injEq,
        List.nil_append, true_and] at h
      have hclose : ∀ rest : List Token.Kind, Avoids [.comma] (.mark .closeParen :: rest) :=
        avoids_mark_cons (by decide)
      obtain ⟨rfl, hothers⟩ := first.determined trivial trivial h
      obtain ⟨rfl, htrailing⟩ := determined_otherFilters others ⟨trailing, rest, rfl⟩
        ⟨trailing', rest', rfl⟩ hothers
      obtain ⟨rfl, hend⟩ := determined_optionalMark .comma trailing (hclose rest) (hclose rest')
        htrailing
      exact ⟨rfl, List.tail_eq_of_cons_eq hend⟩

theorem determined_optionalFilters (filters? : Option Filters) :
    Determined (optionalKinds Filters.kinds) Step.Follow filters? := by
  apply determined_optional
  · intro f f' rest rest' _ _ h
    exact f.determined trivial trivial h
  · intro f rest hrest
    -- The filters open with the parenthesis that cannot follow.
    refine hrest .openParen List.mem_cons_self ?_
    cases f <;> rfl

/-! ## Steps and requests -/

theorem Step.determined (t : Step) : Determined kinds Follow t := by
  obtain ⟨relation, filters?⟩ := t
  rintro ⟨relation', filters'?⟩ rest rest' hrest hrest' h
  simp only [kinds, List.cons_append, List.cons.injEq, true_and, Token.Kind.identifier.injEq] at h
  obtain ⟨rfl, hend⟩ := determined_optionalFilters filters? hrest hrest' h.2
  exact ⟨by rw [h.1], hend⟩

theorem determined_steps (ts : List Step) :
    Determined (fun ts : List Step => ts.flatMap Step.kinds) (fun rest => rest = []) ts := by
  apply determined_flatMap Step.follow_kinds_append
  · rintro rest rfl
    exact avoids_nil _
  · exact fun t rest hnil => absurd hnil (by simp [Step.kinds])
  · exact fun t _ => t.determined

theorem kinds_injective : Function.Injective kinds := by
  rintro ⟨model, filters?, ts⟩ ⟨model', filters'?, ts'⟩ h
  simp only [kinds, List.cons.injEq, Token.Kind.identifier.injEq] at h
  have hfollow : ∀ ts : List Step, Step.Follow (ts.flatMap Step.kinds) := by
    intro ts
    rw [← List.append_nil (ts.flatMap Step.kinds)]
    exact holds_flatMap_append Step.follow_kinds_append (avoids_nil _) ts
  obtain ⟨rfl, hsteps⟩ := determined_optionalFilters filters? (hfollow ts) (hfollow ts') h.2
  obtain ⟨rfl, -⟩ := determined_steps ts rfl rfl (congrArg (· ++ []) hsteps)
  rw [h.1]

/-- A request is read from tokens exactly if the tokens derive it, locations aside; and no tokens
have two derivations. -/
theorem request_result_iff_derives (source : String) (s : TokenStream) (request : Request) :
    ((∃ r, (Request.read source s).result = .ok r ∧ r.erase = request) ↔
      ∃ t : Derivation, t.kinds = s.kinds ∧ t.toRequest = request) ∧
    Function.Injective Derivation.kinds := by
  refine ⟨⟨?_, ?_⟩, kinds_injective⟩
  · rintro ⟨r, hread, rfl⟩
    exact sound hread
  · rintro ⟨t, hkinds, rfl⟩
    exact complete source t hkinds.symm

/-- A comma alone is no list of filters. -/
example :
    let kinds : List Token.Kind :=
      [.identifier "User", .mark .openParen, .mark .comma, .mark .closeParen]
    (Request.read "" ⟨kinds.map (⟨·, .start, .start⟩), .start, .start⟩).result.toOption = none := by
  decide +kernel

end ObjectTransfer.Request.Derivation
