import ObjectTransfer.Proofs.Schema.Printed

/-!
# How deep types are nested

A schema has its types as texts. How deep a type is nested is seen from the angle brackets of its text
(`nesting`): no name has one, so they are those of the arguments (`TypeTree.nesting_text`).
-/

namespace ObjectTransfer.Schema

/-- The most angle brackets that are open at once in a text that stands inside of `opened` others. -/
def deepest (opened : Nat) : List Char → Nat
  | [] => opened
  | '<' :: cs => deepest (opened + 1) cs
  | '>' :: cs => max opened (deepest (opened - 1) cs)
  | _ :: cs => deepest opened cs

/-- How deep the type with the given text is nested: a name alone is one deep. -/
def nesting (text : String) : Nat := deepest 0 text.toList + 1

/-- The types of an action, from first to last. -/
def Action.types (a : Action) : List String := a.parameters.map (·.type) ++ [a.returnType]

/-- The types of a definition, from first to last. -/
def Definition.types : Definition → List String
  | .model m => m.attributes.map (·.type) ++ m.actions.flatMap Action.types
  | .union _ => []

/-- All types of a schema. -/
def Document.types (doc : Document) : List String := doc.flatMap Definition.types

example : nesting "Map<Key, List<List<User>>>" = 4 := by decide

/-! ## Texts -/

theorem le_deepest (opened : Nat) (cs : List Char) : opened ≤ deepest opened cs := by
  fun_induction deepest opened cs with
  | case1 => exact Nat.le_refl _
  | case2 opened cs ih => omega
  | case3 opened cs ih => exact Nat.le_max_left _ _
  | case4 opened c cs _ _ ih => exact ih

/-- Characters other than angle brackets open and close nothing. -/
theorem deepest_append_of_plain {cs : List Char} (h : ∀ c ∈ cs, c ≠ '<' ∧ c ≠ '>') (opened : Nat)
    (rest : List Char) : deepest opened (cs ++ rest) = deepest opened rest := by
  induction cs with
  | nil => rfl
  | cons c cs ih =>
    obtain ⟨hc, hcs⟩ := List.forall_mem_cons.mp h
    rw [List.cons_append, deepest, ih hcs]
    · exact hc.1
    · exact hc.2

theorem deepest_name_append {name : String} (h : IsName name) (opened : Nat) (rest : List Char) :
    deepest opened (name.toList ++ rest) = deepest opened rest := by
  refine deepest_append_of_plain (fun c hc => ?_) opened rest
  have hpart := List.all_eq_true.mp h.1.2 c hc
  constructor
  · rintro rfl
    exact absurd hpart (by decide)
  · rintro rfl
    exact absurd hpart (by decide)

namespace Derivation

namespace TypeTree

/-- Each type reaches as deep as it is nested, and with the last one the brackets are closed. -/
theorem deepest_intercalate_append {first : TypeTree} {others : List TypeTree} {opened : Nat}
    (hitems : ∀ t ∈ first :: others, ∀ rest, deepest opened (t.ref.text.toList ++ rest) =
      max (opened + t.depth - 1) (deepest opened rest)) (rest : List Char) :
    deepest opened ((", ".intercalate ((first :: others).map (·.ref.text))).toList ++ rest) =
      max (opened + depthOfAll (first :: others) - 1) (deepest opened rest) := by
  induction others generalizing first with
  | nil =>
    rw [List.map_singleton, String.intercalate_singleton, hitems first List.mem_cons_self]
    simp [depthOfAll]
  | cons second others ih =>
    have htail := ih fun t ht => hitems t (List.mem_cons_of_mem first ht)
    have hcomma : ∀ c ∈ ", ".toList, c ≠ '<' ∧ c ≠ '>' := by simp
    have hdepth : depthOfAll (first :: second :: others) =
        max first.depth (depthOfAll (second :: others)) := by rw [depthOfAll]
    rw [List.map_cons] at htail
    rw [List.map_cons, List.map_cons, String.intercalate_cons_cons, String.toList_append,
      String.toList_append, List.append_assoc, List.append_assoc, hitems first List.mem_cons_self,
      deepest_append_of_plain hcomma, htail, hdepth]
    omega

/-- A type reaches as deep as it is nested, and with its text all its brackets are closed. -/
theorem deepest_text_append {t : TypeTree} (hlexical : Lexical .schema t.kinds) (opened : Nat)
    (rest : List Char) : deepest opened (t.ref.text.toList ++ rest) =
      max (opened + t.depth - 1) (deepest opened rest) := by
  induction t using ofArguments generalizing opened rest with
  | _ name arguments ih =>
    obtain ⟨hname, harguments⟩ := lexical_mk.mp hlexical
    cases arguments with
    | nil =>
      have hle := le_deepest opened rest
      have hdepth : (mk name []).depth = 1 := rfl
      rw [ref_mk, List.map_nil, TypeRef.text, deepest_name_append (Name.isName_text hname), hdepth]
      omega
    | cons first others =>
      have hitems : ∀ t ∈ first :: others, ∀ rest, deepest (opened + 1) (t.ref.text.toList ++ rest) =
          max (opened + 1 + t.depth - 1) (deepest (opened + 1) rest) :=
        fun t ht rest => ih t ht (harguments t ht) (opened + 1) rest
      have hclose : deepest (opened + 1) ('>' :: rest) = max (opened + 1) (deepest opened rest) := by
        rw [deepest]
        rfl
      have hopen : ∀ cs, deepest opened ("<".toList ++ cs) = deepest (opened + 1) cs := fun cs => by
        rw [← deepest]
        rfl
      have hdepth : (mk name (first :: others)).depth = depthOfAll (first :: others) + 1 := rfl
      have hpos : 0 < depthOfAll (first :: others) :=
        Nat.lt_of_lt_of_le first.depth_pos (depthOfAll_le.mp (Nat.le_refl _) first List.mem_cons_self)
      rw [text_cons]
      simp only [String.toList_append, List.append_assoc]
      rw [deepest_name_append (Name.isName_text hname), hopen, deepest_intercalate_append hitems]
      rw [show ">".toList ++ rest = '>' :: rest from rfl, hclose, hdepth]
      omega

/-- The brackets of its text tell how deep a type is nested. -/
theorem nesting_text {t : TypeTree} (hlexical : Lexical .schema t.kinds) :
    nesting t.ref.text = t.depth := by
  have hdeepest := deepest_text_append hlexical 0 []
  have hdepth := t.depth_pos
  rw [List.append_nil, deepest] at hdeepest
  rw [nesting, hdeepest]
  omega

end TypeTree

/-! ## Schemas -/

theorem Attribute.within_iff {a : Attribute} (hlexical : Lexical .schema a.kinds) {depth : Nat} :
    a.Within depth ↔ nesting a.toSchema.type ≤ depth := by
  simp only [kinds, lexical_cons, lexical_append] at hlexical
  rw [Within, toSchema, TypeTree.nesting_text hlexical.2.2.1]

theorem Action.within_iff {a : Action} (hlexical : Lexical .schema a.kinds) {depth : Nat} :
    a.Within depth ↔ ∀ text ∈ a.toSchema.types, nesting text ≤ depth := by
  obtain ⟨name, parameters, type, terminator?⟩ := a
  simp only [kinds, lexical_cons, lexical_append] at hlexical
  obtain ⟨-, -, hparameters, -, -, htype, -⟩ := hlexical
  have hnested : ∀ p ∈ parameters, nesting p.type.ref.text = p.type.depth := by
    intro p hp
    cases parameters with
    | nil => exact absurd hp List.not_mem_nil
    | cons first others =>
      have hparameter := lexical_separated.mp hparameters p hp
      simp only [Parameter.kinds, lexical_cons, lexical_append] at hparameter
      exact TypeTree.nesting_text hparameter.2.2.1
  rw [toSchema, Schema.Action.types, List.map_map, List.forall_mem_append, List.forall_mem_map,
    List.forall_mem_singleton, TypeTree.nesting_text htype]
  refine and_congr_left' (forall₂_congr fun p hp => ?_)
  rw [Function.comp_apply, Parameter.toSchema, hnested p hp]

/-- How deep the types of a schema are nested is seen from their texts. -/
theorem Document.within_iff {doc : Document} (hlexical : Lexical .schema doc.kinds) {depth : Nat} :
    doc.Within depth ↔ ∀ text ∈ doc.toSchema.types, nesting text ≤ depth := by
  rw [Within, toSchema, Schema.Document.types, List.flatMap_map, List.forall_mem_flatMap]
  refine forall₂_congr fun definition hdefinition => ?_
  have hkinds := lexical_flatMap.mp hlexical definition hdefinition
  cases definition with
  | union u => simp [Definition.Within, Definition.toSchema, Schema.Definition.types]
  | model m =>
    simp only [Definition.kinds, Model.kinds, lexical_cons, lexical_append, lexical_flatMap] at hkinds
    obtain ⟨-, -, -, -, hattributes, hactions, -⟩ := hkinds
    simp only [Definition.Within, Model.Within, Definition.toSchema, Model.toSchema,
      Schema.Definition.types, List.forall_mem_append, List.map_map, List.flatMap_map,
      List.forall_mem_map, List.forall_mem_flatMap, Function.comp_apply]
    exact and_congr (forall₂_congr fun a ha => Attribute.within_iff (hattributes a ha))
      (forall₂_congr fun a ha => Action.within_iff (hactions a ha))

end Derivation
end ObjectTransfer.Schema
