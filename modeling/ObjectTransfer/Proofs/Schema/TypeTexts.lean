import ObjectTransfer.Proofs.Procedure.Runs
import ObjectTransfer.Proofs.Schema.Printed
import ObjectTransfer.Proofs.Schema.Types

/-!
# Types as texts

A schema keeps its types as texts. The text of a type is that of its tokens with a space behind each
comma, whatever stood between them where the type was read (`TypeTree.toList_text`), and it reads as the
type again. So types that differ differ in their texts (`TypeTree.text_injective`). Reading a type passes
over its tokens and over nothing else, and leaves no more types open than there were
(`types_canonical`).
-/

namespace ObjectTransfer.Schema.Derivation

open Phrase

/-! ## The text of the tokens -/

/-- The tokens of a type in a row, with nothing between them but a space behind each comma. -/
def canonical (kinds : List Token.Kind) : List Char :=
  kinds.flatMap fun kind => if kind = .mark .comma then [',', ' '] else kind.text.toList

theorem canonical_append (kinds kinds' : List Token.Kind) :
    canonical (kinds ++ kinds') = canonical kinds ++ canonical kinds' := List.flatMap_append

/-- The text of a name is that of its token. -/
theorem Name.canonical_kind (n : Name) : canonical [n.kind] = n.text.toList := by
  have hcomma : n.kind ≠ .mark .comma := n.kind_ne_mark .comma
  have htext : n.kind.text = n.text := by cases n <;> rfl
  simp [canonical, hcomma, htext]

/-- Texts joined by commas and spaces are the text of their tokens with commas between them. -/
theorem canonical_separated {τ : Type} {text : τ → String} {kinds : τ → List Token.Kind} {first : τ}
    {others : List τ} (h : ∀ t ∈ first :: others, (text t).toList = canonical (kinds t)) :
    (", ".intercalate ((first :: others).map text)).toList =
      canonical (separated .comma kinds first others) := by
  induction others generalizing first with
  | nil =>
    rw [List.map_singleton, String.intercalate_singleton, h first List.mem_cons_self, separated,
      List.flatMap_nil, List.append_nil]
  | cons second others ih =>
    have htail := ih fun t ht => h t (List.mem_cons_of_mem first ht)
    have hkinds : separated .comma kinds first (second :: others) =
        kinds first ++ ([.mark .comma] ++ separated .comma kinds second others) := by
      simp [separated]
    rw [List.map_cons] at htail
    rw [List.map_cons, List.map_cons, String.intercalate_cons_cons, String.toList_append,
      String.toList_append, htail, h first List.mem_cons_self, hkinds, canonical_append,
      canonical_append, List.append_assoc]
    rfl

namespace TypeTree

/-- The text of a type is that of its tokens. -/
theorem toList_text (t : TypeTree) : t.ref.text.toList = canonical t.kinds := by
  induction t using ofArguments with
  | _ name arguments ih =>
    cases arguments with
    | nil => rw [text_nil, kinds_nil, name.canonical_kind]
    | cons first others =>
      have hkinds : (mk name (first :: others)).kinds =
          [name.kind] ++ ([.mark .less] ++ (separated .comma kinds first others ++ [.mark .greater])) :=
        kinds_cons name first others
      rw [text_cons, hkinds, canonical_append, canonical_append, canonical_append,
        name.canonical_kind, ← canonical_separated ih]
      simp only [String.toList_append, List.append_assoc]
      rfl

/-- A reserved word names a type too. -/
example : (mk (.identifier "Map") [mk (.identifier "Key") [], mk (.identifier "List")
    [mk (.reserved .typeWord) []]]).ref.text = "Map<Key, List<type>>" := by decide +kernel

/-! ## Reading a type from its text -/

variable {t t' : TypeTree}

/-- The text of a type has the tokens of the type. -/
theorem exists_tokenize_text (h : Lexical .schema t.kinds) :
    ∃ tokens, tokenize .schema t.ref.text = .ok tokens ∧ tokens.list.map (·.kind) = t.kinds :=
  exists_tokenize_of_spells ((writes_text h).spells fun _ hc => absurd hc (by simp))

/-- The text of a type reads as the type, up to the end. -/
theorem exists_read_text (h : Lexical .schema t.kinds) :
    ∃ tokens, tokenize .schema t.ref.text = .ok tokens ∧ tokens.list.map (·.kind) = t.kinds ∧
      ∀ depth, t.depth ≤ depth → ∃ place,
        (TypeRef.phrase depth).run tokens.stream = .ok (t.ref, place) ∧ place.rest = [] := by
  obtain ⟨tokens, htokens, hkinds⟩ := exists_tokenize_text h
  refine ⟨tokens, htokens, hkinds, ?_⟩
  intro depth hdepth
  have hstream : tokens.stream.kinds = t.kinds ++ [] := by
    rw [List.append_nil]
    exact hkinds
  obtain ⟨place, hrun, hplace⟩ := complete hdepth hstream (avoids_nil _)
  exact ⟨place, hrun, TokenStream.kinds_eq_nil.mp hplace⟩

/-- The text of a type tells which type it is. -/
theorem text_injective (h : Lexical .schema t.kinds) (h' : Lexical .schema t'.kinds)
    (htext : t'.ref.text = t.ref.text) : t' = t := by
  obtain ⟨tokens, htokens, hkinds⟩ := exists_tokenize_text h
  obtain ⟨tokens', htokens', hkinds'⟩ := exists_tokenize_text h'
  rw [htext, htokens] at htokens'
  obtain rfl := Except.ok.inj htokens'
  have hsame : t'.kinds ++ [] = t.kinds ++ [] := by rw [← hkinds, hkinds']
  exact (t'.determined (avoids_nil _) (avoids_nil _) hsame).1

end TypeTree

/-! ## Moments -/

/-- From one moment to the other tokens of the given kinds are passed over, and no others. As many types
are open as before. -/
structure PassesOver (now : Moment) (kinds : List Token.Kind) (after : Moment) : Prop where
  tokens : ∃ own, own.map (·.kind) = kinds ∧ now.place.Takes own after.place
  finish : after.place.finish = now.place.finish
  depth : after.depth = now.depth

section

variable {limit : Nat} {now after : Moment} {log : List Note} {t : TypeTree} {ref : TypeRef}

theorem passesOver_of_runs (h : Procedure.Runs limit (.type id) now log (.ok (ref, after)))
    (hkinds : now.place.kinds = t.kinds ++ after.place.kinds) : PassesOver now t.kinds after := by
  obtain ⟨hplace, hdepth⟩ := h.within.2
  obtain ⟨own, hown⟩ := hplace.takes
  exact ⟨⟨own, hown.map_kind hkinds, hown⟩, hplace.finish, hdepth⟩

/-- A type that may still be that deep is read, and the run can end in no other way. -/
theorem TypeTree.exists_runs {rest : List Token.Kind} (hkinds : now.place.kinds = t.kinds ++ rest)
    (hrest : Follow rest) (hdepth : now.depth + t.depth ≤ limit) :
    ∃ log after, (∀ log' o, Procedure.Runs limit (.type id) now log' o ↔
        log' = log ∧ o = .ok (t.ref, after)) ∧
      PassesOver now t.kinds after ∧ after.place.kinds = rest ∧
      (TypeRef.phrase (limit - now.depth)).run now.place = .ok (t.ref, after.place) := by
  have hlevels : now.depth + (limit - now.depth) = limit := by omega
  have hleft : t.depth ≤ limit - now.depth := by omega
  obtain ⟨place, hrun, hplace⟩ := complete hleft hkinds hrest
  obtain ⟨log, hlog⟩ := Procedure.exists_runs (.type id) now.place hlevels
  rw [Procedure.phrase_type, hrun] at hlog
  have hruns : Procedure.Runs limit (.type id) now log (.ok (t.ref, ⟨place, now.depth⟩)) := hlog
  refine ⟨log, ⟨place, now.depth⟩, ?_, ?_, hplace, hrun⟩
  · intro log' o
    constructor
    · intro h
      exact hruns.unique h
    · rintro ⟨rfl, rfl⟩
      exact hruns
  · apply passesOver_of_runs hruns
    rw [hkinds, hplace]

/-- Whatever a run reads as a type is one, and its tokens have been passed over. -/
theorem TypeTree.exists_of_runs
    (h : Procedure.Runs limit (.type id) now log (.ok (ref, after))) :
    ∃ t : TypeTree, t.ref = ref ∧ now.depth + t.depth ≤ limit ∧ PassesOver now t.kinds after := by
  have hdeep : now.depth < limit := by
    by_contra hdeep
    have hstops := Procedure.Runs.typeTooDeep (id : TypeRef → TypeRef) (Nat.not_lt.mp hdeep)
    exact absurd (hstops.unique h).2 (by simp)
  have hlevels : now.depth + (limit - now.depth) = limit := by omega
  obtain ⟨log', hlog⟩ := Procedure.exists_runs (.type id) now.place hlevels
  have houtcome := (hlog.unique h).2
  rw [Procedure.phrase_type] at houtcome
  cases hrun : (TypeRef.phrase (limit - now.depth)).run now.place with
  | error stop =>
    rw [hrun] at houtcome
    exact absurd houtcome (by simp [Moment.outcome])
  | ok found =>
    rw [hrun] at houtcome
    obtain ⟨rfl, rfl⟩ := Prod.mk.inj (Except.ok.inj houtcome)
    obtain ⟨t, ht, href, hkinds⟩ := TypeTree.sound hrun
    exact ⟨t, href, by omega, passesOver_of_runs h hkinds⟩

end

/-- A type that is not too deep is read wherever its tokens come next and no angle bracket follows them.
Its tokens are passed over and no others, and no more types are open than before. Its text is that of
its tokens, reads as the type again and tells which type it is. Whatever is read as a type is one, and
its tokens have been passed over. -/
theorem types_canonical :
    (∀ t : TypeTree, Lexical .schema t.kinds →
      (∀ limit now rest, now.place.kinds = t.kinds ++ rest → rest.head? ≠ some (.mark .less) →
        now.depth + t.depth ≤ limit →
          ∃ log after, (∀ log' o, Procedure.Runs limit (.type id) now log' o ↔
              log' = log ∧ o = .ok (t.ref, after)) ∧
            PassesOver now t.kinds after ∧ after.place.kinds = rest ∧
            (TypeRef.phrase (limit - now.depth)).run now.place = .ok (t.ref, after.place)) ∧
      t.ref.text.toList = canonical t.kinds ∧
      (∃ tokens, tokenize .schema t.ref.text = .ok tokens ∧ tokens.list.map (·.kind) = t.kinds ∧
        ∀ depth, t.depth ≤ depth → ∃ place,
          (TypeRef.phrase depth).run tokens.stream = .ok (t.ref, place) ∧ place.rest = []) ∧
      ∀ t' : TypeTree, Lexical .schema t'.kinds → t'.ref.text = t.ref.text → t' = t) ∧
    ∀ limit now log ref after, Procedure.Runs limit (.type id) now log (.ok (ref, after)) →
      Lexical .schema now.place.kinds →
        ∃ t : TypeTree, Lexical .schema t.kinds ∧ t.ref = ref ∧ now.depth + t.depth ≤ limit ∧
          PassesOver now t.kinds after := by
  constructor
  · intro t ht
    refine ⟨?_, t.toList_text, TypeTree.exists_read_text ht, fun t' => TypeTree.text_injective ht⟩
    intro limit now rest hkinds hrest hdepth
    exact TypeTree.exists_runs hkinds (List.forall_mem_singleton.mpr hrest) hdepth
  · intro limit now log ref after h hlexical
    obtain ⟨t, href, hdepth, hpasses⟩ := TypeTree.exists_of_runs h
    obtain ⟨own, hown, htakes⟩ := hpasses.tokens
    refine ⟨t, ?_, href, hdepth, hpasses⟩
    -- The tokens of the type are among those that were to be read.
    rw [TokenStream.kinds, htakes.rest, List.map_append, hown] at hlexical
    exact (lexical_append.mp hlexical).1

end ObjectTransfer.Schema.Derivation
