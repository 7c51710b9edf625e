import ObjectTransfer.Proofs.Schema.Derivation
import ObjectTransfer.Proofs.Token.Written

/-!
# Well-formed schemas

A schema is well formed if each of its parts has a source form: names are names, types are spelled
as references are, numbers are finite. Well-formed are exactly the schemas that derivations with
lexical tokens stand for; this module has one half of that, `Derivation.Document.wellFormed`.
-/

namespace ObjectTransfer.Schema

/-! ## What is well formed -/

/-- All names of the reference are names, and it is nested at most `depth` deep. -/
inductive TypeRef.Proper : Nat → TypeRef → Prop where
  | mk {depth : Nat} {name : String} {arguments : List TypeRef} :
      IsName name → (∀ ref ∈ arguments, Proper depth ref) → Proper (depth + 1) (.mk name arguments)

/-- The text is how a proper reference is spelled. -/
def IsType (depth : Nat) (text : String) : Prop :=
  ∃ ref : TypeRef, ref.Proper depth ∧ ref.text = text

structure Attribute.WellFormed (depth : Nat) (a : Attribute) : Prop where
  name : IsName a.name
  type : IsType depth a.type
  required : a.default?.isSome → a.required = false
  value : ∀ value ∈ a.default?, value.IsFinite

structure Parameter.WellFormed (depth : Nat) (p : Parameter) : Prop where
  name : IsName p.name
  type : IsType depth p.type

structure Action.WellFormed (depth : Nat) (a : Action) : Prop where
  name : IsName a.name
  parameters : ∀ p ∈ a.parameters, p.WellFormed depth
  returnType : IsType depth a.returnType

structure Model.WellFormed (depth : Nat) (m : Model) : Prop where
  name : IsName m.name
  parent : ∀ parent ∈ m.parent?, IsName parent
  attributes : ∀ a ∈ m.attributes, a.WellFormed depth
  actions : ∀ a ∈ m.actions, a.WellFormed depth

/-- The values of a union are any strings, but there is one. -/
structure Union.WellFormed (u : Union) : Prop where
  name : IsName u.name
  values : u.values ≠ []

def Definition.WellFormed (depth : Nat) : Definition → Prop
  | .model m => m.WellFormed depth
  | .union u => u.WellFormed

/-- Every definition of the schema is well formed, with types nested at most `depth` deep. -/
def Document.WellFormed (depth : Nat) (doc : Document) : Prop := ∀ d ∈ doc, d.WellFormed depth

/-! ## Derivations stand for well-formed schemas -/

namespace Derivation

theorem Name.isName_text {n : Name} (h : n.kind.IsLexical .schema) : IsName n.text := by
  cases n with
  | identifier name => exact h.1
  | reserved word => exact word.isName_text

/-- The tokens of a type are lexical if its name and the tokens of its arguments are. -/
theorem TypeTree.lexical_mk {name : Name} {arguments : List TypeTree} :
    Lexical .schema (mk name arguments).kinds ↔
      name.kind.IsLexical .schema ∧ ∀ t ∈ arguments, Lexical .schema t.kinds := by
  cases arguments with
  | nil => simp [kinds_nil, Lexical]
  | cons first others =>
    have hmark : ∀ m : Mark, (Token.Kind.mark m).IsLexical .schema := fun _ => trivial
    have hnil : Lexical .schema [] := List.forall_mem_nil _
    rw [kinds_cons, lexical_cons, lexical_cons, lexical_append, lexical_cons, lexical_separated]
    simp only [hmark, hnil, true_and, and_true]

theorem TypeTree.proper {t : TypeTree} {depth : Nat} (ht : t.depth ≤ depth)
    (hlexical : Lexical .schema t.kinds) : t.ref.Proper depth := by
  -- By induction on the depth: the arguments are nested less deep than the type.
  induction depth generalizing t with
  | zero => exact absurd t.depth_pos (Nat.not_lt.mpr ht)
  | succ depth ih =>
    obtain ⟨name, arguments⟩ := t
    rw [depth_le_succ] at ht
    obtain ⟨hname, harguments⟩ := lexical_mk.mp hlexical
    rw [ref_mk]
    refine .mk (Name.isName_text hname) ?_
    intro ref href
    obtain ⟨t, hmem, rfl⟩ := List.mem_map.mp href
    exact ih (ht t hmem) (harguments t hmem)

theorem TypeTree.isType {t : TypeTree} {depth : Nat} (ht : t.depth ≤ depth)
    (hlexical : Lexical .schema t.kinds) : IsType depth t.ref.text := ⟨t.ref, t.proper ht hlexical, rfl⟩

theorem Default.isFinite {d : Default} (h : d.kind.IsLexical .schema) : d.value.IsFinite := by
  cases d with
  | literal value => exact h
  | word => trivial

theorem Attribute.wellFormed {a : Attribute} {depth : Nat} (ha : a.Within depth)
    (hlexical : Lexical .schema a.kinds) : a.toSchema.WellFormed depth := by
  obtain ⟨name, type, marked, default?, terminator?⟩ := a
  simp only [kinds, lexical_cons, lexical_append] at hlexical
  obtain ⟨hname, -, htype, -, hdefault, -⟩ := hlexical
  refine ⟨Name.isName_text hname, TypeTree.isType ha htype, ?_, ?_⟩
  · -- An attribute with a default is not required, whether or not a question mark is there.
    intro hsome
    rw [toSchema, Option.isSome_map] at hsome
    simp [toSchema, hsome]
  · intro value hvalue
    obtain ⟨d, rfl, rfl⟩ := Option.map_eq_some_iff.mp hvalue
    exact Default.isFinite (hdefault _ (by simp [Phrase.optionalKinds]))

theorem Parameter.wellFormed {p : Parameter} {depth : Nat} (hp : p.type.depth ≤ depth)
    (hlexical : Lexical .schema p.kinds) : p.toSchema.WellFormed depth := by
  simp only [kinds, lexical_cons, lexical_append] at hlexical
  exact ⟨Name.isName_text hlexical.1, TypeTree.isType hp hlexical.2.2.1⟩

theorem Action.wellFormed {a : Action} {depth : Nat} (ha : a.Within depth)
    (hlexical : Lexical .schema a.kinds) : a.toSchema.WellFormed depth := by
  obtain ⟨name, parameters, type, terminator?⟩ := a
  simp only [kinds, lexical_cons, lexical_append] at hlexical
  obtain ⟨hname, -, hparameters, -, -, htype, -⟩ := hlexical
  refine ⟨Name.isName_text hname, ?_, TypeTree.isType ha.2 htype⟩
  intro value hvalue
  obtain ⟨p, hmem, rfl⟩ := List.mem_map.mp hvalue
  refine Parameter.wellFormed (ha.1 p hmem) ?_
  cases parameters with
  | nil => exact absurd hmem List.not_mem_nil
  | cons first others => exact lexical_separated.mp hparameters p hmem

theorem Model.wellFormed {m : Model} {depth : Nat} (hm : m.Within depth)
    (hlexical : Lexical .schema m.kinds) : m.toSchema.WellFormed depth := by
  obtain ⟨name, parent?, attributes, actions⟩ := m
  simp only [kinds, lexical_cons, lexical_append, lexical_flatMap] at hlexical
  obtain ⟨-, hname, hparent, -, hattributes, hactions, -⟩ := hlexical
  refine ⟨Name.isName_text hname, ?_, ?_, ?_⟩
  · intro text htext
    obtain ⟨parent, rfl, rfl⟩ := Option.map_eq_some_iff.mp htext
    exact Name.isName_text (hparent _ (by simp [Phrase.optionalKinds]))
  · intro field hfield
    obtain ⟨a, hmem, rfl⟩ := List.mem_map.mp hfield
    exact Attribute.wellFormed (hm.1 a hmem) (hattributes a hmem)
  · intro action haction
    obtain ⟨a, hmem, rfl⟩ := List.mem_map.mp haction
    exact Action.wellFormed (hm.2 a hmem) (hactions a hmem)

theorem Union.wellFormed {u : Union} (hlexical : Lexical .schema u.kinds) : u.toSchema.WellFormed := by
  simp only [kinds, lexical_cons] at hlexical
  exact ⟨Name.isName_text hlexical.2.1, by simp [toSchema]⟩

theorem Document.wellFormed {doc : Document} {depth : Nat} (hdoc : doc.Within depth)
    (hlexical : Lexical .schema doc.kinds) : doc.toSchema.WellFormed depth := by
  intro definition hdefinition
  obtain ⟨d, hmem, rfl⟩ := List.mem_map.mp hdefinition
  have hd := lexical_flatMap.mp hlexical d hmem
  cases d with
  | model m => exact Model.wellFormed (hdoc _ hmem) hd
  | union u => exact Union.wellFormed hd

end Derivation
end ObjectTransfer.Schema
