import ObjectTransfer.Proofs.Schema.WellFormed
import ObjectTransfer.Schema.Printer

/-!
# The text of a well-formed schema

The text of a well-formed schema spells the tokens of a derivation that stands for the schema
(`Document.WellFormed.exists_derivation`). So does the text of each of its parts: where a part can
follow another, the text of the one does not prolong the last token of the other.
-/

namespace ObjectTransfer.Schema

open ObjectTransfer.Schema.Derivation Phrase

/-! ## Names -/

/-- The name that is spelled as the text. -/
def Derivation.Name.ofText (text : String) : Name :=
  match Dialect.schema.keyword? text with
  | some word => .reserved word
  | none => .identifier text

theorem Derivation.Name.text_ofText (text : String) : (ofText text).text = text := by
  unfold ofText
  split
  · rename_i hkeyword
    exact (Dialect.keyword?_eq_some hkeyword).2
  · rfl

theorem Derivation.Name.isLexical_ofText {text : String} (h : IsName text) :
    (ofText text).kind.IsLexical .schema := by
  unfold ofText
  split
  · rename_i hkeyword
    exact (Dialect.keyword?_eq_some hkeyword).1
  · rename_i hfree
    exact ⟨h, hfree⟩

/-- A name is written as its text. -/
theorem Derivation.Name.writes {n : Name} (h : n.kind.IsLexical .schema) :
    Writes .schema WordEnds n.text [n.kind] := by
  cases n with
  | identifier name => exact writes_token (.identifier name) h
  | reserved word => exact writes_token (.keyword word) h

theorem writes_name {text : String} (h : IsName text) :
    Writes .schema WordEnds text [(Name.ofText text).kind] := by
  have hwrites := Name.writes (Name.isLexical_ofText h)
  rwa [Name.text_ofText] at hwrites

/-! ## Types -/

theorem TypeRef.texts_eq_map (refs : List TypeRef) : texts refs = refs.map text := by
  induction refs with
  | nil => rfl
  | cons ref refs ih => rw [texts, ih, List.map_cons]

theorem Derivation.TypeTree.text_nil (name : Name) : (mk name []).ref.text = name.text := by
  rw [ref_mk, List.map_nil, TypeRef.text]

/-- The arguments of a type are told in angle brackets with commas and blanks between them. -/
theorem Derivation.TypeTree.text_cons (name : Name) (first : TypeTree) (others : List TypeTree) :
    (mk name (first :: others)).ref.text =
      name.text ++ "<" ++ ", ".intercalate ((first :: others).map (·.ref.text)) ++ ">" := by
  rw [ref_mk, List.map_cons, TypeRef.text, ← List.map_cons, TypeRef.texts_eq_map, List.map_map]
  rfl

/-- The text of a type writes its tokens. -/
theorem Derivation.TypeTree.writes_text {t : TypeTree} (h : Lexical .schema t.kinds) :
    Writes .schema Apart t.ref.text t.kinds := by
  -- By induction on the type: its text joins those of its arguments.
  induction t using ofArguments with
  | _ name arguments ih =>
    obtain ⟨hname, harguments⟩ := lexical_mk.mp h
    have hwrites := (Name.writes hname).mono fun _ hrest => Apart.wordEnds hrest
    cases arguments with
    | nil =>
      rw [text_nil, kinds_nil]
      exact hwrites
    | cons first others =>
      have hless : Writes .schema Anything "<" [.mark .less] := writes_marks _ (by decide)
      have hgreater : Writes .schema Anything ">" [.mark .greater] := writes_marks _ (by decide)
      have hitems := writes_intercalate writes_comma apart_comma
        fun t ht => ih t ht (harguments t ht)
      have hall := ((hwrites.append hless fun _ _ => apart_cons (by decide) (by decide) _).append
        hitems fun _ _ => trivial).append hgreater fun _ _ => apart_cons (by decide) (by decide) _
      rw [text_cons, kinds_cons]
      exact (hall.mono fun _ _ => trivial).of_eq (by simp [separated])

theorem TypeRef.Proper.exists_tree {depth : Nat} {ref : TypeRef} (h : ref.Proper depth) :
    ∃ t : TypeTree, t.ref = ref ∧ t.depth ≤ depth ∧ Lexical .schema t.kinds := by
  -- By induction on the reference: each argument has a tree.
  induction h with
  | @mk depth name arguments hname _ ih =>
    obtain ⟨trees, rfl, htrees⟩ := exists_items_of_forall ih
    refine ⟨.mk (.ofText name) trees, ?_, ?_, ?_⟩
    · rw [TypeTree.ref_mk, Name.text_ofText]
    · exact TypeTree.depth_le_succ.mpr fun t ht => (htrees t ht).1
    · exact TypeTree.lexical_mk.mpr ⟨Name.isLexical_ofText hname, fun t ht => (htrees t ht).2⟩

theorem IsType.exists_tree {depth : Nat} {type : String} (h : IsType depth type) :
    ∃ t : TypeTree, t.ref.text = type ∧ t.depth ≤ depth ∧
      Writes .schema Apart t.ref.text t.kinds := by
  obtain ⟨ref, hproper, rfl⟩ := h
  obtain ⟨t, rfl, hdepth, hlexical⟩ := hproper.exists_tree
  exact ⟨t, rfl, hdepth, TypeTree.writes_text hlexical⟩

/-! ## Members -/

/-- A name with its type, which attributes and parameters start with. -/
theorem writes_typed {name : String} (hname : IsName name) {t : TypeTree}
    (ht : Writes .schema Apart t.ref.text t.kinds) :
    Writes .schema Apart (name ++ ": " ++ t.ref.text)
      ((Name.ofText name).kind :: .mark .colon :: t.kinds) :=
  (((writes_name hname).append writes_colon fun rest _ => (apart_colon rest).wordEnds).append ht
    fun _ _ => trivial).of_eq rfl

theorem writes_question {d : Dialect} : Writes d Apart "?" [.mark .question] :=
  (writes_marks "?" (by decide)).mono fun _ _ => trivial

theorem apart_question (rest : List Char) : Apart ("?".toList ++ rest) :=
  apart_cons (by decide) (by decide) _

theorem Attribute.WellFormed.exists_derivation {depth : Nat} {a : Attribute}
    (h : a.WellFormed depth) :
    ∃ t : Derivation.Attribute, t.toSchema = a ∧ t.Within depth ∧
      Writes .schema Apart t.toSchema.text t.kinds := by
  obtain ⟨name, type, required, default?⟩ := a
  obtain ⟨hname, htype, hrequired, hvalue⟩ := h
  obtain ⟨tree, rfl, hdepth, hwrites⟩ := IsType.exists_tree htype
  have htyped := writes_typed hname hwrites
  -- What is written is a default, nothing, or a question mark; never two of them.
  cases default? with
  | some value =>
    obtain rfl : required = false := hrequired rfl
    refine ⟨⟨.ofText name, tree, false, some (.literal value), none⟩, ?_, hdepth, ?_⟩
    · simp [Derivation.Attribute.toSchema, Name.text_ofText, Default.value]
    · have hequals : Writes .schema Anything " = " [.mark .equals] := writes_marks _ (by decide)
      have hdefault := hequals.append (writes_literal (hvalue value rfl)) fun _ _ => trivial
      have hapart : ∀ rest : List Char, Apart ((" = " ++ value.text).toList ++ rest) := by
        intro rest
        rw [String.toList_append, List.append_assoc]
        exact apart_cons (by decide) (by decide) _
      have hall := htyped.append hdefault fun rest _ => hapart rest
      simp only [Derivation.Attribute.toSchema, Name.text_ofText]
      exact hall.of_eq (by simp [Derivation.Attribute.kinds, optionalMarkKinds, optionalKinds,
        Default.kind])
  | none =>
    cases required with
    | true =>
      refine ⟨⟨.ofText name, tree, false, none, none⟩, ?_, hdepth, ?_⟩
      · simp [Derivation.Attribute.toSchema, Name.text_ofText]
      · have hall := htyped.append (writes_empty.mono fun _ _ => trivial) fun rest hrest => hrest
        simp only [Derivation.Attribute.toSchema, Name.text_ofText]
        exact hall.of_eq (by simp [Derivation.Attribute.kinds, optionalMarkKinds, optionalKinds])
    | false =>
      refine ⟨⟨.ofText name, tree, true, none, none⟩, ?_, hdepth, ?_⟩
      · simp [Derivation.Attribute.toSchema, Name.text_ofText]
      · have hall := htyped.append writes_question fun rest _ => apart_question rest
        simp only [Derivation.Attribute.toSchema, Name.text_ofText]
        exact hall.of_eq (by simp [Derivation.Attribute.kinds, optionalMarkKinds, optionalKinds])

theorem Parameter.WellFormed.exists_derivation {depth : Nat} {p : Parameter}
    (h : p.WellFormed depth) :
    ∃ t : Derivation.Parameter, t.toSchema = p ∧ t.type.depth ≤ depth ∧
      Writes .schema Apart t.toSchema.text t.kinds := by
  obtain ⟨name, type, optional⟩ := p
  obtain ⟨tree, rfl, hdepth, hwrites⟩ := IsType.exists_tree h.type
  have htyped := writes_typed h.name hwrites
  refine ⟨⟨.ofText name, tree, optional⟩, ?_, hdepth, ?_⟩
  · rw [Derivation.Parameter.toSchema, Name.text_ofText]
  · rw [Derivation.Parameter.toSchema, Name.text_ofText]
    cases optional with
    | true =>
      have hall := htyped.append writes_question fun rest _ => apart_question rest
      exact hall.of_eq rfl
    | false =>
      have hall := htyped.append (writes_empty.mono fun _ _ => trivial) fun rest hrest => hrest
      exact hall.of_eq (by simp [Derivation.Parameter.kinds, optionalMarkKinds])

theorem Action.WellFormed.exists_derivation {depth : Nat} {a : Action} (h : a.WellFormed depth) :
    ∃ t : Derivation.Action, t.toSchema = a ∧ t.Within depth ∧
      Writes .schema Apart t.toSchema.text t.kinds := by
  obtain ⟨name, parameters, type⟩ := a
  obtain ⟨trees, rfl, htrees⟩ :=
    exists_items_of_forall fun p hp => (h.parameters p hp).exists_derivation
  obtain ⟨tree, rfl, hdepth, hwrites⟩ := IsType.exists_tree h.returnType
  have hopen : Writes .schema Anything "(" [.mark .openParen] := writes_marks _ (by decide)
  have hclose : Writes .schema Anything "): " [.mark .closeParen, .mark .colon] :=
    writes_marks _ (by decide)
  have hparameters : Writes .schema Apart
      (", ".intercalate (trees.map fun t => t.toSchema.text)) (parametersKinds trees) := by
    cases trees with
    | nil => exact writes_empty.mono fun _ _ => trivial
    | cons first others =>
      exact writes_intercalate writes_comma apart_comma fun t ht => (htrees t ht).2
  have hall := ((((writes_name h.name).append hopen fun rest _ =>
    wordEnds_cons (by decide) _).append hparameters fun _ _ => trivial).append
      hclose fun _ _ => apart_cons (by decide) (by decide) _).append hwrites fun _ _ => trivial
  refine ⟨⟨.ofText name, trees, tree, none⟩, ?_, ⟨fun t ht => (htrees t ht).1, hdepth⟩, ?_⟩
  · rw [Derivation.Action.toSchema, Name.text_ofText]
  · rw [Derivation.Action.toSchema, Name.text_ofText, Action.text, List.map_map]
    exact hall.of_eq (by simp [Derivation.Action.kinds, optionalKinds])

/-! ## Definitions -/

/-- A reserved word and the blank after it. -/
theorem writes_keyword_blank (word : Keyword) :
    Writes .schema Anything (word.text ++ " ") [.keyword word] := by
  have hblank : Writes .schema Anything " " [] := writes_marks _ (by decide)
  have hword : word ∈ Dialect.schema.keywords := by cases word <;> decide
  exact ((writes_keyword hword).append hblank
    fun _ _ => wordEnds_cons (by decide) _).of_eq rfl

/-- The parent of a model as its text shows it. -/
def Model.parentText (m : Model) : String :=
  match m.parent? with
  | some parent => " extends " ++ parent
  | none => ""

theorem Model.WellFormed.writes_parentText {depth : Nat} {m : Model} (h : m.WellFormed depth) :
    Writes .schema WordEnds m.parentText (parentKinds (m.parent?.map Name.ofText)) := by
  unfold Model.parentText
  split
  · rename_i parent hparent
    have hblank : Writes .schema Anything " " [] := writes_marks _ (by decide)
    have hall := (hblank.append (writes_keyword_blank .extendsWord) fun _ _ => trivial).append
      (writes_name (h.parent parent hparent)) fun _ _ => trivial
    rw [hparent]
    exact hall
  · rename_i hnone
    rw [hnone]
    exact writes_empty.mono fun _ _ => trivial

theorem Model.wordEnds_parentText (m : Model) {rest : List Char} (h : WordEnds rest) :
    WordEnds (m.parentText.toList ++ rest) := by
  unfold Model.parentText
  split
  · rw [String.toList_append, List.append_assoc]
    exact wordEnds_cons (by decide) _
  · exact h

/-- The texts of the members of a model. -/
def Model.memberTexts (m : Model) : List String :=
  m.attributes.map Attribute.text ++ m.actions.map Action.text

theorem writes_members {fields : List Derivation.Attribute}
    {operations : List Derivation.Action} {m : Model}
    (hattributes : m.attributes = fields.map Derivation.Attribute.toSchema)
    (hactions : m.actions = operations.map Derivation.Action.toSchema)
    (hfields : ∀ t ∈ fields, Writes .schema Apart t.toSchema.text t.kinds)
    (hoperations : ∀ t ∈ operations, Writes .schema Apart t.toSchema.text t.kinds) :
    Writes .schema Anything
      (if m.memberTexts = [] then "" else "\n" ++ String.join (m.memberTexts.map memberLine))
      (fields.flatMap Derivation.Attribute.kinds ++
        operations.flatMap Derivation.Action.kinds) := by
  apply writes_lines
  · rw [Model.memberTexts, hattributes, hactions, List.map_append, String.join_append,
      List.map_map, List.map_map, List.map_map, List.map_map]
    exact (writes_join fun t ht => writes_line (hfields t ht)).append
      (writes_join fun t ht => writes_line (hoperations t ht)) fun _ _ => trivial
  · intro hempty
    obtain ⟨hnone, hnone'⟩ := List.append_eq_nil_iff.mp hempty
    rw [hattributes, List.map_eq_nil_iff, List.map_eq_nil_iff] at hnone
    rw [hactions, List.map_eq_nil_iff, List.map_eq_nil_iff] at hnone'
    rw [hnone, hnone']
    rfl

theorem Model.WellFormed.exists_derivation {depth : Nat} {m : Model} (h : m.WellFormed depth) :
    ∃ t : Derivation.Model, t.toSchema = m ∧ t.Within depth ∧
      Writes .schema Anything t.toSchema.text t.kinds := by
  obtain ⟨fields, hattributes, hfields⟩ :=
    exists_items_of_forall fun a ha => (h.attributes a ha).exists_derivation
  obtain ⟨operations, hactions, hoperations⟩ :=
    exists_items_of_forall fun a ha => (h.actions a ha).exists_derivation
  have hmodel : (⟨.ofText m.name, m.parent?.map .ofText, fields, operations⟩ :
      Derivation.Model).toSchema = m := by
    simp [Derivation.Model.toSchema, hattributes, hactions, Name.text_ofText, Function.comp_def]
  refine ⟨⟨.ofText m.name, m.parent?.map .ofText, fields, operations⟩, hmodel,
    ⟨fun t ht => (hfields t ht).1, fun t ht => (hoperations t ht).1⟩, ?_⟩
  have hopen : Writes .schema Anything " \x7b" [.mark .openBrace] := writes_marks _ (by decide)
  have hclose : Writes .schema Anything "\x7d\n" [.mark .closeBrace] := writes_marks _ (by decide)
  have hname := (writes_keyword_blank .modelWord).append (writes_name h.name) fun _ _ => trivial
  have hhead := (hname.append h.writes_parentText fun _ hrest => m.wordEnds_parentText hrest).append
    hopen fun _ _ => wordEnds_cons (by decide) _
  have hbody := writes_members hattributes.symm hactions.symm (fun t ht => (hfields t ht).2)
    fun t ht => (hoperations t ht).2
  have hall := (hhead.append hbody fun _ _ => trivial).append hclose fun _ _ => trivial
  rw [hmodel]
  exact hall.of_eq (by simp [Derivation.Model.kinds])

theorem Union.WellFormed.exists_derivation {u : Union} (h : u.WellFormed) :
    ∃ t : Derivation.Union, t.toSchema = u ∧ Writes .schema Anything t.toSchema.text t.kinds := by
  obtain ⟨name, values⟩ := u
  obtain ⟨first, others, rfl⟩ := List.exists_cons_of_ne_nil h.values
  have hunion : (⟨.ofText name, .string first, others.map .string, false⟩ :
      Derivation.Union).toSchema = ⟨name, first :: others⟩ := by
    simp [Derivation.Union.toSchema, Name.text_ofText, Value.text, Function.comp_def]
  refine ⟨⟨.ofText name, .string first, others.map .string, false⟩, hunion, ?_⟩
  have hequals : Writes .schema Anything " = " [.mark .equals] := writes_marks _ (by decide)
  have hbar : Writes .schema Anything " | " [.mark .bar] := writes_marks _ (by decide)
  have hbreak : Writes .schema Anything "\n" [] := writes_marks _ (by decide)
  have hname := (writes_keyword_blank .typeWord).append (writes_name h.name) fun _ _ => trivial
  have hhead := hname.append hequals fun _ _ => wordEnds_cons (by decide) _
  have hvalues := writes_intercalate hbar (fun _ => trivial)
    fun (value : String) (_ : value ∈ first :: others) => writes_quote value
  have hall := (hhead.append hvalues fun _ _ => trivial).append hbreak fun _ _ => trivial
  rw [hunion]
  refine hall.of_eq ?_
  simp [Derivation.Union.kinds, separated, optionalMarkKinds, List.flatMap_map, Value.kind]

theorem Definition.WellFormed.exists_derivation {depth : Nat} {d : Definition}
    (h : d.WellFormed depth) :
    ∃ t : Derivation.Definition, t.toSchema = d ∧ t.Within depth ∧
      Writes .schema Anything t.toSchema.text t.kinds := by
  cases d with
  | model m =>
    obtain ⟨t, rfl, ht⟩ := Model.WellFormed.exists_derivation h
    exact ⟨.model t, rfl, ht⟩
  | union u =>
    obtain ⟨t, rfl, ht⟩ := Union.WellFormed.exists_derivation h
    exact ⟨.union t, rfl, trivial, ht⟩

/-- The text of a well-formed schema spells the tokens of a derivation of that schema. -/
theorem Document.WellFormed.exists_derivation {depth : Nat} {doc : Document}
    (h : doc.WellFormed depth) :
    ∃ t : Derivation.Document, t.toSchema = doc ∧ t.Within depth ∧
      Spells .schema doc.text.toList t.kinds := by
  obtain ⟨definitions, rfl, hdefinitions⟩ :=
    exists_items_of_forall fun d hd => (h d hd).exists_derivation
  refine ⟨definitions, rfl, fun t ht => (hdefinitions t ht).1, ?_⟩
  have hbreak : Writes .schema Anything "\n" [] := writes_marks _ (by decide)
  have hwrites : Writes .schema Anything (Document.text (definitions.map Definition.toSchema))
      (Derivation.Document.kinds definitions) := by
    rw [Document.text, List.map_map]
    cases definitions with
    | nil => exact writes_empty
    | cons first others =>
      exact writes_intercalate hbreak (fun _ => trivial) fun t ht => (hdefinitions t ht).2
  exact hwrites.spells trivial

end ObjectTransfer.Schema
