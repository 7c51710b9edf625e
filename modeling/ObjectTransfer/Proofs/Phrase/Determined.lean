import ObjectTransfer.Proofs.Phrase.Repetition

/-!
# Derivations that their tokens determine

A derivation is determined if no other derivation has the same tokens, also when other tokens follow
that do not prolong it. A grammar all of whose derivations are determined is unambiguous. What is
determined piece by piece is determined as a whole: parts that may be left out
(`determined_optional`), lists of items (`determined_flatMap`) and items with marks between them
(`determined_separated`).
-/

namespace ObjectTransfer.Phrase

variable {τ : Type}

/-- No derivation but `t` has the tokens of `t`, whatever comes next in either case, as long as it
is something that can follow. -/
def Determined (kinds : τ → List Token.Kind) (Follow : List Token.Kind → Prop) (t : τ) : Prop :=
  ∀ ⦃t' : τ⦄ ⦃rest rest' : List Token.Kind⦄, Follow rest → Follow rest' →
    kinds t ++ rest = kinds t' ++ rest' → t = t' ∧ rest = rest'

theorem determined_optionalMark (m : Mark) (present : Bool) :
    Determined (optionalMarkKinds m) (Avoids [m]) present := by
  intro present' rest rest' hrest hrest' h
  cases present <;> cases present'
  · exact ⟨rfl, h⟩
  · have hhead := congrArg List.head? h
    exact absurd hhead (hrest m List.mem_cons_self)
  · have hhead := congrArg List.head? h
    exact absurd hhead.symm (hrest' m List.mem_cons_self)
  · exact ⟨rfl, List.tail_eq_of_cons_eq h⟩

/-- A part that may be left out is determined if the part is, and if nothing that can follow starts
with it. -/
theorem determined_optional {kinds : τ → List Token.Kind} {Follow : List Token.Kind → Prop}
    (hitem : ∀ t, Determined kinds Follow t) (hstop : ∀ t rest, ¬ Follow (kinds t ++ rest))
    (t? : Option τ) : Determined (optionalKinds kinds) Follow t? := by
  intro t'? rest rest' hrest hrest' h
  cases t? with
  | none =>
    cases t'? with
    | none => exact ⟨rfl, h⟩
    | some t' =>
      have hstarts : rest = kinds t' ++ rest' := h
      exact absurd (hstarts ▸ hrest) (hstop t' rest')
  | some t =>
    cases t'? with
    | none =>
      have hstarts : kinds t ++ rest = rest' := h
      exact absurd (hstarts ▸ hrest') (hstop t rest)
    | some t' =>
      obtain ⟨rfl, hend⟩ := hitem t hrest hrest' h
      exact ⟨rfl, hend⟩

/-- A list of items is determined if each item is, if an item can follow another, and if what ends
the list starts with no item. -/
theorem determined_flatMap {kinds : τ → List Token.Kind} {Follow Stop : List Token.Kind → Prop}
    (hfollow : ∀ t rest, Follow (kinds t ++ rest)) (hstop : ∀ rest, Stop rest → Follow rest)
    (hitem : ∀ t rest, ¬ Stop (kinds t ++ rest)) {items : List τ}
    (hitems : ∀ t ∈ items, Determined kinds Follow t) :
    Determined (fun items : List τ => items.flatMap kinds) Stop items := by
  have hafter : ∀ (ts : List τ) (rest : List Token.Kind), Stop rest →
      Follow (ts.flatMap kinds ++ rest) :=
    fun ts rest hrest => holds_flatMap_append hfollow (hstop rest hrest) ts
  -- By induction on one list. If the other ends first, what ends it would start with an item.
  induction items with
  | nil =>
    intro items' rest rest' hrest hrest' h
    cases items' with
    | nil => exact ⟨rfl, h⟩
    | cons t ts =>
      simp only [List.flatMap_nil, List.nil_append, List.flatMap_cons, List.append_assoc] at h
      exact absurd (h ▸ hrest) (hitem t _)
  | cons t ts ih =>
    intro items' rest rest' hrest hrest' h
    cases items' with
    | nil =>
      simp only [List.flatMap_nil, List.nil_append, List.flatMap_cons, List.append_assoc] at h
      exact absurd (h ▸ hrest') (hitem t _)
    | cons t' ts' =>
      simp only [List.flatMap_cons, List.append_assoc] at h
      obtain ⟨rfl, htail⟩ := hitems t List.mem_cons_self (hafter ts rest hrest)
        (hafter ts' rest' hrest') h
      obtain ⟨rfl, hend⟩ :=
        ih (fun u hu => hitems u (List.mem_cons_of_mem t hu)) hrest hrest' htail
      exact ⟨rfl, hend⟩

/-- Items with marks between them are determined if each item is, if the mark can follow an item,
and if it does not follow the last one. -/
theorem determined_separated {separator : Mark} {kinds : τ → List Token.Kind}
    {Follow : List Token.Kind → Prop} (hseparator : ∀ others, Follow (.mark separator :: others))
    {first : τ} {others : List τ} (hitems : ∀ t ∈ first :: others, Determined kinds Follow t)
    {first' : τ} {others' : List τ} {rest rest' : List Token.Kind}
    (hrest : Follow rest ∧ Avoids [separator] rest)
    (hrest' : Follow rest' ∧ Avoids [separator] rest')
    (h : separated separator kinds first others ++ rest =
      separated separator kinds first' others' ++ rest') :
    first = first' ∧ others = others' ∧ rest = rest' := by
  have hafter : ∀ (ts : List τ) {rest : List Token.Kind}, Follow rest →
      Follow (ts.flatMap (fun t => .mark separator :: kinds t) ++ rest) :=
    fun ts _ hrest => holds_flatMap_append (fun _ _ => hseparator _) hrest ts
  unfold separated at h
  rw [List.append_assoc, List.append_assoc] at h
  obtain ⟨rfl, htail⟩ := hitems first List.mem_cons_self (hafter others hrest.1)
    (hafter others' hrest'.1) h
  -- The mark and the item after it are an item of the remaining list.
  have hmarked : ∀ t ∈ others, Determined (fun t => .mark separator :: kinds t) Follow t := by
    intro t ht t' after after' hafter hafter' heq
    exact hitems t (List.mem_cons_of_mem first ht) hafter hafter' (List.tail_eq_of_cons_eq heq)
  have hitem : ∀ (t : τ) (rest : List Token.Kind),
      ¬ (Follow ((.mark separator :: kinds t) ++ rest) ∧
        Avoids [separator] ((.mark separator :: kinds t) ++ rest)) :=
    fun _ _ hstop => hstop.2 separator List.mem_cons_self rfl
  have hstop : ∀ rest, Follow rest ∧ Avoids [separator] rest → Follow rest := fun _ hrest => hrest.1
  have hall := determined_flatMap (fun _ _ => hseparator _) hstop hitem hmarked
  obtain ⟨rfl, hend⟩ := hall hrest hrest' htail
  exact ⟨rfl, rfl, hend⟩

end ObjectTransfer.Phrase
