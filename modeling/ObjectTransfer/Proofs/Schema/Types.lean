import ObjectTransfer.Proofs.Schema.Derivation

/-!
# Reading names and types

What a name and a type read is exactly what their rules derive, and no two types have the same
tokens. Reading is by induction on how deep types may be nested, as the phrase itself is; that tokens
determine a type is by induction on the type.
-/

namespace ObjectTransfer.Schema.Derivation

open Phrase

/-! ## Names -/

namespace Name

theorem nameOf?_kind (n : Name) : nameOf? n.kind = some n.text := by
  cases n <;> rfl

theorem exists_of_nameOf? {kind : Token.Kind} {text : String} (h : nameOf? kind = some text) :
    ∃ n : Name, n.kind = kind ∧ n.text = text := by
  cases kind with
  | identifier name => exact ⟨identifier name, rfl, Option.some.inj h⟩
  | keyword word => exact ⟨reserved word, rfl, Option.some.inj h⟩
  | literal => exact absurd h (by simp [nameOf?])
  | mark => exact absurd h (by simp [nameOf?])

theorem sound {expected : Expectation} {s s' : TokenStream} {text : String}
    (h : (Phrase.name expected).run s = .ok (text, s')) :
    ∃ n : Name, n.text = text ∧ s.kinds = n.kind :: s'.kinds := by
  obtain ⟨kind, hkind, hs⟩ := token_sound h
  obtain ⟨n, rfl, htext⟩ := exists_of_nameOf? hkind
  exact ⟨n, htext, hs⟩

theorem complete (expected : Expectation) (n : Name) {s : TokenStream} {rest : List Token.Kind}
    (hs : s.kinds = n.kind :: rest) :
    ∃ s', (Phrase.name expected).run s = .ok (n.text, s') ∧ s'.kinds = rest :=
  token_complete expected n.nameOf?_kind hs

theorem kind_injective {n n' : Name} (h : n.kind = n'.kind) : n = n' := by
  cases n <;> cases n' <;> simp_all [kind]

theorem kind_ne_mark (n : Name) (m : Mark) : n.kind ≠ .mark m := by
  cases n <;> simp [kind]

end Name

/-! ## Types -/

namespace TypeTree

/-- What can follow a type: no angle bracket, which would open its arguments. -/
abbrev Follow : List Token.Kind → Prop := Avoids [.less]

/-- What the phrase reads as a type is one. -/
theorem sound {depth : Nat} {s s' : TokenStream} {ref : TypeRef}
    (h : (TypeRef.phrase depth).run s = .ok (ref, s')) :
    ∃ t : TypeTree, t.depth ≤ depth ∧ t.ref = ref ∧ s.kinds = t.kinds ++ s'.kinds := by
  -- By induction on the depth that is left, as the phrase is defined.
  induction depth generalizing s s' ref with
  | zero => exact absurd h (by simp [TypeRef.phrase, run_bind])
  | succ depth ih =>
    rw [TypeRef.phrase] at h
    obtain ⟨text, s₁, hname, h⟩ := run_bind_eq_ok.mp h
    obtain ⟨name, rfl, hs⟩ := Name.sound hname
    obtain ⟨angle, s₂, hangle, h⟩ := run_bind_eq_ok.mp h
    have hs₁ := optionalMark_sound hangle
    cases angle with
    | false =>
      obtain ⟨rfl, rfl⟩ := run_pure_eq_ok.mp h
      refine ⟨mk name [], depth_le_succ.mpr (by simp), ref_mk name [], ?_⟩
      rw [hs, hs₁, kinds_nil]
      rfl
    | true =>
      obtain ⟨refs, s₃, harguments, h⟩ := run_bind_eq_ok.mp h
      obtain ⟨first, others, hdepth, hrefs, hs₂⟩ :=
        separatedBy_sound (fun hitem => ih hitem) harguments
      obtain ⟨u, s₄, hgreater, h⟩ := run_bind_eq_ok.mp h
      have hs₃ := mark_sound hgreater
      obtain ⟨rfl, rfl⟩ := run_pure_eq_ok.mp h
      refine ⟨mk name (first :: others), depth_le_succ.mpr hdepth, ?_, ?_⟩
      · rw [ref_mk, hrefs]
      · rw [hs, hs₁, hs₂, hs₃, kinds_cons]
        simp [optionalMarkKinds]

/-- A type that is nested no deeper than allowed is read. -/
theorem complete {depth : Nat} {t : TypeTree} (ht : t.depth ≤ depth) {s : TokenStream}
    {rest : List Token.Kind} (hs : s.kinds = t.kinds ++ rest) (hrest : Follow rest) :
    ∃ s', (TypeRef.phrase depth).run s = .ok (t.ref, s') ∧ s'.kinds = rest := by
  induction depth generalizing t s rest with
  | zero => exact absurd t.depth_pos (Nat.not_lt.mpr ht)
  | succ depth ih =>
    obtain ⟨name, arguments⟩ := t
    rw [depth_le_succ] at ht
    rw [TypeRef.phrase, ref_mk]
    cases arguments with
    | nil =>
      rw [kinds_nil] at hs
      obtain ⟨s₁, hname, hs₁⟩ := name.complete .typeName hs
      obtain ⟨s₂, hangle, hs₂⟩ := optionalMark_complete false hs₁ fun _ => hrest
      refine ⟨s₂, ?_, hs₂⟩
      rw [run_bind_of_ok hname, run_bind_of_ok hangle]
      rfl
    | cons first others =>
      rw [kinds_cons, List.cons_append, List.cons_append, List.append_assoc] at hs
      obtain ⟨s₁, hname, hs₁⟩ := name.complete .typeName hs
      obtain ⟨s₂, hangle, hs₂⟩ := optionalMark_complete true hs₁ nofun
      have harguments : ∀ t ∈ first :: others, ∀ {s rest}, s.kinds = t.kinds ++ rest →
          Follow rest → ∃ s', (TypeRef.phrase depth).run s = .ok (t.ref, s') ∧ s'.kinds = rest :=
        fun t hmem _ _ hs hrest => ih (ht t hmem) hs hrest
      obtain ⟨s₃, hrefs, hs₃⟩ := separatedBy_complete harguments
        (fun _ => avoids_mark_cons (by decide) _) (avoids_mark_cons (by decide) _)
        (avoids_mark_cons (by decide) _) hs₂
      obtain ⟨s₄, hgreater, hs₄⟩ := mark_complete hs₃
      refine ⟨s₄, ?_, hs₄⟩
      rw [run_bind_of_ok hname, run_bind_of_ok hangle, if_pos rfl, run_bind_of_ok hrefs,
        run_bind_of_ok hgreater]
      rfl

/-- The tokens of a type determine it. -/
theorem determined (t : TypeTree) : Determined kinds Follow t := by
  induction t using ofArguments with
  | _ name arguments ih =>
    rintro ⟨name', arguments'⟩ rest rest' hrest hrest' h
    cases arguments with
    | nil =>
      cases arguments' with
      | nil =>
        rw [kinds_nil, kinds_nil] at h
        obtain ⟨hname, htail⟩ := List.cons.inj h
        exact ⟨by rw [Name.kind_injective hname], htail⟩
      | cons first' others' =>
        rw [kinds_nil, kinds_cons] at h
        -- Only one of the two has an angle bracket, and it cannot be what follows the other.
        obtain ⟨-, htail⟩ := List.cons.inj h
        exact absurd (congrArg List.head? htail) (hrest .less List.mem_cons_self)
    | cons first others =>
      cases arguments' with
      | nil =>
        rw [kinds_nil, kinds_cons] at h
        obtain ⟨-, htail⟩ := List.cons.inj h
        exact absurd (congrArg List.head? htail).symm (hrest' .less List.mem_cons_self)
      | cons first' others' =>
        rw [kinds_cons, kinds_cons] at h
        simp only [List.cons_append, List.append_assoc, List.nil_append, List.cons.injEq,
          true_and] at h
        have hgreater : ∀ rest : List Token.Kind, Follow (.mark .greater :: rest) ∧
            Avoids [.comma] (.mark .greater :: rest) :=
          fun rest => ⟨avoids_mark_cons (by decide) rest, avoids_mark_cons (by decide) rest⟩
        obtain ⟨rfl, rfl, htail⟩ := determined_separated
          (fun rest => avoids_mark_cons (by decide) rest) ih (hgreater rest) (hgreater rest') h.2
        exact ⟨by rw [Name.kind_injective h.1], List.tail_eq_of_cons_eq htail⟩

end TypeTree

end ObjectTransfer.Schema.Derivation
