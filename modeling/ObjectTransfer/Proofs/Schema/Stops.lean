import ObjectTransfer.Proofs.Phrase.Completion
import ObjectTransfer.Proofs.Schema.Lookahead

/-!
# Where reading a schema stops

Wherever a schema stops, what was read before and a token that is named begin a schema
(`Document.explained_phrase`). What is read is nested at most `depth` deep, and what is completed at
most `bound`. If a type may be nested at all, a name can stand wherever a type is missing.
-/

namespace ObjectTransfer.Schema.Derivation

open Phrase

variable {depth bound : Nat} {s s' o : TokenStream} {stop : Stop}

/-! ## Types -/

/-- A type that is a name. -/
def TypeTree.plain : TypeTree := .mk (.identifier "Type") []

@[simp] theorem TypeTree.kinds_plain : plain.kinds = [.identifier "Type"] := kinds_nil _

theorem TypeTree.depth_plain_le (hbound : 0 < bound) : plain.depth ≤ bound := hbound

theorem after_name {expected : Expectation} {text : String}
    (h : (Phrase.name expected).run s = .ok (text, s')) :
    ∃ name : Name, name.text = text ∧ s'.After [name.kind] s := by
  obtain ⟨name, htext, hs⟩ := Name.sound h
  exact ⟨name, htext, hs, (Phrase.name expected).forward h⟩

theorem after_type (hdepth : depth ≤ bound) {ref : TypeRef}
    (h : (TypeRef.phrase depth).run s = .ok (ref, s')) :
    ∃ t : TypeTree, t.depth ≤ bound ∧ s'.After t.kinds s := by
  obtain ⟨t, ht, -, hs⟩ := TypeTree.sound h
  exact ⟨t, Nat.le_trans ht hdepth, hs, (TypeRef.phrase depth).forward h⟩

/-- A type is explained together with the mark in front of it, where it may be too deep already. -/
theorem explained_type (hdepth : depth ≤ bound) {m : Mark} (hm : m ≠ .dot)
    (hs : s.After [.mark m] o) (h : (TypeRef.phrase depth).run s = .error stop) :
    Explained (KindsOf (fun t : TypeTree => .mark m :: t.kinds) fun t => t.depth ≤ bound) o
      stop := by
  -- By induction on the depth that is left, as the phrase is defined.
  induction depth generalizing bound m s o stop with
  | zero =>
    have hafter : s.After ([] ++ [.mark m]) o := hs
    rw [TypeRef.phrase, run_bind_of_ok (run_place s), run_fail, Except.error.injEq] at h
    rw [← h]
    exact .tooDeep hm hafter
  | succ depth ih =>
    obtain ⟨bound, rfl⟩ := Nat.exists_eq_add_one.mpr (Nat.zero_lt_of_lt hdepth)
    have hdepth := Nat.le_of_succ_le_succ hdepth
    rw [TypeRef.phrase] at h
    rcases run_bind_eq_error.mp h with hname | ⟨text, s₁, hname, h⟩
    · exact explained_token hname hs (by decide) ⟨"Type", rfl⟩
        ⟨[], .plain, TypeTree.depth_plain_le (Nat.succ_pos _), by simp⟩
    obtain ⟨name, rfl, hs₁⟩ := after_name hname
    have hs₁ := hs₁.trans hs
    rcases run_bind_eq_error.mp h with hangle | ⟨angle, s₂, hangle, h⟩
    · exact absurd hangle (run_optionalMark_ne_error _ _ _)
    cases angle with
    | false => simp at h
    | true =>
      have hs₂ : s₂.After [.mark .less] s₁ := after_optionalMark hangle
      rcases run_bind_eq_error.mp h with harguments | ⟨refs, s₃, harguments, h⟩
      · have hitem : ∀ {s ref s'}, (TypeRef.phrase depth).run s = .ok (ref, s') →
            ∃ t : TypeTree, t.depth ≤ bound ∧ t.ref = ref ∧ s.kinds = t.kinds ++ s'.kinds := by
          intro s ref s' h
          obtain ⟨t, ht, href, hs⟩ := TypeTree.sound h
          exact ⟨t, Nat.le_trans ht hdepth, href, hs⟩
        refine (explained_separatedBy hitem (ih hdepth) (by decide) (by decide) hs₂
          harguments).within hs₁ ?_
        rintro _ ⟨first, others, hothers, rfl⟩
        exact ⟨[.mark .greater], .mk name (first :: others), TypeTree.depth_le_succ.mpr hothers, by
          simp [TypeTree.kinds_cons]⟩
      obtain ⟨first, others, hothers, -, hkinds⟩ :=
        separatedBy_sound (fun hitem => TypeTree.sound hitem) harguments
      have hs₃ := TokenStream.After.trans ⟨hkinds, (separatedBy _ _).forward harguments⟩
        (hs₂.trans hs₁)
      rcases run_bind_eq_error.mp h with hgreater | ⟨_, _, -, h⟩
      · refine explained_token hgreater hs₃ (by decide) rfl ⟨[], .mk name (first :: others), ?_, ?_⟩
        · exact TypeTree.depth_le_succ.mpr fun t ht => Nat.le_trans (hothers t ht) hdepth
        · simp [TypeTree.kinds_cons]
      · simp at h

/-! ## Attributes and actions -/

variable (hdepth : depth ≤ bound) (hbound : 0 < bound)
include hdepth hbound

theorem explained_attribute {name : Name} (hs : s.After [name.kind] o)
    (h : (Schema.Attribute.phrase depth name.text).run s = .error stop) :
    Explained (KindsOf Attribute.kinds (Attribute.Within bound)) o stop := by
  rcases run_bind_eq_error.mp h with hcolon | ⟨_, s₁, hcolon, h⟩
  · exact explained_token hcolon hs (by decide) rfl ⟨[.identifier "Type"],
      ⟨name, .plain, false, none, none⟩, TypeTree.depth_plain_le hbound, by
        simp [Attribute.kinds, optionalMarkKinds, optionalKinds]⟩
  rcases run_bind_eq_error.mp h with htype | ⟨ref, s₂, htype, h⟩
  · refine (explained_type hdepth (by decide) (after_mark hcolon) htype).within hs ?_
    rintro _ ⟨t, ht, rfl⟩
    exact ⟨[], ⟨name, t, false, none, none⟩, ht, by
      simp [Attribute.kinds, optionalMarkKinds, optionalKinds]⟩
  obtain ⟨t, ht, hs₂⟩ := after_type hdepth htype
  rcases run_bind_eq_error.mp h with hmarked | ⟨marked, s₃, hmarked, h⟩
  · exact absurd hmarked (run_optionalMark_ne_error _ _ _)
  rcases run_bind_eq_error.mp h with hgiven | ⟨given, s₄, hgiven, h⟩
  · exact absurd hgiven (run_optionalMark_ne_error _ _ _)
  cases given with
  | false => simp at h
  | true =>
    have hs₄ := (after_optionalMark hgiven).trans ((after_optionalMark hmarked).trans
      (hs₂.trans ((after_mark hcolon).trans hs)))
    rcases run_bind_eq_error.mp h with hvalue | ⟨_, _, -, h⟩
    · exact explained_token hvalue hs₄ (by decide) ⟨.null, rfl⟩
        ⟨[], ⟨name, t, marked, some (.literal .null), none⟩, ht, by
          simp [Attribute.kinds, optionalMarkKinds, optionalKinds, Default.kind]⟩
    · simp at h

theorem explained_parameter {m : Mark} (hs : s.After [.mark m] o)
    (h : (Schema.Parameter.phrase depth).run s = .error stop) :
    Explained (KindsOf (fun p : Parameter => .mark m :: p.kinds) fun p => p.type.depth ≤ bound) o
      stop := by
  rcases run_bind_eq_error.mp h with hname | ⟨text, s₁, hname, h⟩
  · exact explained_token hname hs (by decide) ⟨"parameter", rfl⟩
      ⟨[.mark .colon, .identifier "Type"],
      ⟨.identifier "parameter", .plain, false⟩, TypeTree.depth_plain_le hbound, by
        simp [Parameter.kinds, Name.kind, optionalMarkKinds]⟩
  obtain ⟨name, rfl, hs₁⟩ := after_name hname
  rcases run_bind_eq_error.mp h with hcolon | ⟨_, s₂, hcolon, h⟩
  · exact explained_token hcolon (hs₁.trans hs) (by decide) rfl ⟨[.identifier "Type"],
      ⟨name, .plain, false⟩, TypeTree.depth_plain_le hbound, by
        simp [Parameter.kinds, optionalMarkKinds]⟩
  rcases run_bind_eq_error.mp h with htype | ⟨ref, s₃, -, h⟩
  · refine (explained_type hdepth (by decide) (after_mark hcolon) htype).within (hs₁.trans hs) ?_
    rintro _ ⟨t, ht, rfl⟩
    exact ⟨[], ⟨name, t, false⟩, ht, by simp [Parameter.kinds, optionalMarkKinds]⟩
  rcases run_bind_eq_error.mp h with hmarked | ⟨_, _, -, h⟩
  · exact absurd hmarked (run_optionalMark_ne_error _ _ _)
  · simp at h

theorem explained_parameters (hs : s.After [.mark .openParen] o)
    (h : (parametersPhrase depth).run s = .error stop) :
    Explained (KindsOf (fun ps : List Parameter => .mark .openParen :: parametersKinds ps)
      fun ps => ∀ p ∈ ps, p.type.depth ≤ bound) o stop := by
  unfold parametersPhrase at h
  rw [run_bind_of_ok (run_next? s)] at h
  split at h
  · simp at h
  · have hitem : ∀ {s parameter s'},
        (Schema.Parameter.phrase depth).run s = .ok (parameter, s') →
        ∃ p : Parameter, p.type.depth ≤ bound ∧ p.toSchema = parameter ∧
          s.kinds = p.kinds ++ s'.kinds := by
      intro s parameter s' h
      obtain ⟨p, hp, hvalue, hs⟩ := Parameter.sound h
      exact ⟨p, Nat.le_trans hp hdepth, hvalue, hs⟩
    refine (explained_separatedBy hitem (fun _ hs => explained_parameter hdepth hbound hs)
      (by decide) (by decide) hs h).mono ?_
    rintro _ ⟨first, others, hothers, rfl⟩
    exact ⟨[], first :: others, hothers, by simp [parametersKinds]⟩

theorem explained_action {name : Name} (hs : s.After [name.kind] o)
    (h : (Schema.Action.phrase depth name.text).run s = .error stop) :
    Explained (KindsOf Action.kinds (Action.Within bound)) o stop := by
  have hplain := TypeTree.depth_plain_le hbound
  have hnone : ∀ p ∈ ([] : List Parameter), p.type.depth ≤ bound := List.forall_mem_nil _
  rw [action_phrase_eq] at h
  rcases run_bind_eq_error.mp h with hopen | ⟨_, s₁, hopen, h⟩
  · exact explained_token hopen hs (by decide) rfl
      ⟨[.mark .closeParen, .mark .colon, .identifier "Type"], ⟨name, [], .plain, none⟩,
        ⟨hnone, hplain⟩, by simp [Action.kinds, parametersKinds, optionalKinds]⟩
  rcases run_bind_eq_error.mp h with hparameters | ⟨values, s₂, hparameters, h⟩
  · refine (explained_parameters hdepth hbound (after_mark hopen) hparameters).within hs ?_
    rintro _ ⟨ps, hps, rfl⟩
    exact ⟨[.mark .closeParen, .mark .colon, .identifier "Type"], ⟨name, ps, .plain, none⟩,
      ⟨hps, hplain⟩, by simp [Action.kinds, optionalKinds]⟩
  obtain ⟨ps, hps, -, hkinds⟩ := parametersPhrase_sound hparameters
  have hps : ∀ p ∈ ps, p.type.depth ≤ bound := fun p hp => Nat.le_trans (hps p hp) hdepth
  have hs₂ := TokenStream.After.trans ⟨hkinds, (parametersPhrase depth).forward hparameters⟩
    ((after_mark hopen).trans hs)
  rcases run_bind_eq_error.mp h with hclose | ⟨_, s₃, hclose, h⟩
  · exact explained_token hclose hs₂ (by decide) rfl ⟨[.mark .colon, .identifier "Type"],
      ⟨name, ps, .plain, none⟩, ⟨hps, hplain⟩, by simp [Action.kinds, optionalKinds]⟩
  have hs₃ := (after_mark hclose).trans hs₂
  rcases run_bind_eq_error.mp h with hcolon | ⟨_, s₄, hcolon, h⟩
  · exact explained_token hcolon hs₃ (by decide) rfl ⟨[.identifier "Type"],
      ⟨name, ps, .plain, none⟩, ⟨hps, hplain⟩, by simp [Action.kinds, optionalKinds]⟩
  rcases run_bind_eq_error.mp h with htype | ⟨_, _, -, h⟩
  · refine (explained_type hdepth (by decide) (after_mark hcolon) htype).within hs₃ ?_
    rintro _ ⟨t, ht, rfl⟩
    exact ⟨[], ⟨name, ps, t, none⟩, ⟨hps, ht⟩, by simp [Action.kinds, optionalKinds]⟩
  · simp at h

/-! ## Members of a model -/

/-- The kinds of a member that may come after those read so far. -/
def MemberKinds (bound : Nat) (seen : Members) (ks : List Token.Kind) : Prop :=
  seen.actions = [] ∧ KindsOf Attribute.kinds (Attribute.Within bound) ks ∨
    KindsOf Action.kinds (Action.Within bound) ks

theorem explained_member {seen : Members} {name : Name} (hnext : o.next? = some name.kind)
    (h : (Members.phrase depth seen name.text o).run o.drop = .error stop) :
    Explained (MemberKinds bound seen) o stop := by
  have hs := TokenStream.after_drop hnext
  -- What completes a member is an action: one may come at any time.
  have haction : ∀ name : Name, MemberKinds bound seen
      [name.kind, .mark .openParen, .mark .closeParen, .mark .colon, .identifier "Type"] :=
    fun name => .inr ⟨⟨name, [], .plain, none⟩,
      ⟨List.forall_mem_nil _, TypeTree.depth_plain_le hbound⟩, by
        simp [Action.kinds, parametersKinds, optionalKinds]⟩
  unfold Members.phrase at h
  rw [run_bind_of_ok (run_next? _)] at h
  split at h
  · rename_i hcolon
    split at h
    · rw [run_fail, Except.error.injEq] at h
      rw [← h]
      exact .unexpected o.after_refl (.inr ⟨rfl, ⟨_, hnext⟩, rfl, hcolon⟩) ⟨"action", rfl⟩
        ⟨_, haction (.identifier "action")⟩
    · rename_i hactions
      rcases run_bind_eq_error.mp h with hfield | ⟨_, s₁, -, h⟩
      · exact (explained_attribute hdepth hbound hs hfield).mono fun ks hks =>
          ⟨[], .inl ⟨not_not.mp hactions, by rwa [List.append_nil]⟩⟩
      rcases run_bind_eq_error.mp h with hterminator | ⟨_, _, -, h⟩
      · exact absurd hterminator (run_optionalTerminator_ne_error _ _)
      · simp at h
  · split at h
    · rcases run_bind_eq_error.mp h with hfail | ⟨_, s₁, -, h⟩
      · exact (explained_action hdepth hbound hs hfail).mono fun ks hks =>
          ⟨[], .inr (by rwa [List.append_nil])⟩
      rcases run_bind_eq_error.mp h with hterminator | ⟨_, _, -, h⟩
      · exact absurd hterminator (run_optionalTerminator_ne_error _ _)
      · simp at h
    · rw [run_expecting, Except.error.injEq] at h
      rw [← h]
      exact .unexpected hs (.inl ⟨by decide, rfl⟩) (.inr rfl) ⟨_, haction name⟩

/-- The kinds of attributes and then of actions. -/
def MembersKinds (bound : Nat) (ks : List Token.Kind) : Prop :=
  ∃ (attributes : List Attribute) (actions : List Action),
    (∀ a ∈ attributes, a.Within bound) ∧ (∀ a ∈ actions, a.Within bound) ∧
      attributes.flatMap Attribute.kinds ++ actions.flatMap Action.kinds = ks

theorem explained_members
    (h : (repeatWhile nameOf? (Members.phrase depth) ⟨[], []⟩).run s = .error stop) :
    Explained (MembersKinds bound) s stop := by
  have hstart : MembersRead depth s ⟨[], []⟩ s := ⟨[], [], by simp, by simp, rfl, rfl, rfl⟩
  obtain ⟨seen, text, place, hread, hfollows, hopens, hfail⟩ :=
    exists_turn_of_repeatWhile_eq_error (fun hseen hopens hrun => hseen.step hopens hrun) hstart h
  obtain ⟨attributes, actions, hattributes, hactions, -, hseen, hs⟩ := hread
  obtain ⟨kind, hnext, hkind⟩ := Option.bind_eq_some_iff.mp hopens
  obtain ⟨name, rfl, rfl⟩ := Name.exists_of_nameOf? hkind
  rw [← List.append_assoc] at hs
  have hattributes : ∀ a ∈ attributes, a.Within bound := fun a ha => (hattributes a ha).mono hdepth
  have hactions : ∀ a ∈ actions, a.Within bound := fun a ha => (hactions a ha).mono hdepth
  refine (explained_member hdepth hbound hnext hfail).within ⟨hs, hfollows⟩ ?_
  rintro _ (⟨hnone, a, ha, rfl⟩ | ⟨a, ha, rfl⟩)
  · -- An attribute comes in before the first action.
    rw [hnone, List.reverse_nil, eq_comm, List.map_eq_nil_iff] at hseen
    subst hseen
    exact ⟨[], attributes ++ [a], [],
      List.forall_mem_append.mpr ⟨hattributes, List.forall_mem_singleton.mpr ha⟩,
      List.forall_mem_nil _, by simp⟩
  · exact ⟨[], attributes, actions ++ [a], hattributes,
      List.forall_mem_append.mpr ⟨hactions, List.forall_mem_singleton.mpr ha⟩, by simp⟩

/-! ## Definitions -/

omit hdepth hbound in
theorem explained_parent (h : parentPhrase.run s = .error stop) :
    Explained (KindsOf (fun n : Name => [.keyword .extendsWord, n.kind]) fun _ => True) s stop := by
  unfold parentPhrase at h
  rw [run_bind_of_ok (run_next? s)] at h
  split at h
  · rename_i hextends
    rw [run_bind_of_ok (run_skip s), run_map_eq_error] at h
    exact explained_token h (TokenStream.after_drop hextends) (by decide) ⟨"Parent", rfl⟩
      ⟨[], .identifier "Parent", trivial, rfl⟩
  · simp at h

theorem explained_model (hs : s.After [.keyword .modelWord] o)
    (h : (Schema.Model.phrase depth).run s = .error stop) :
    Explained (KindsOf Model.kinds (Model.Within bound)) o stop := by
  have hempty : ∀ (name : Name) (parent? : Option Name),
      (⟨name, parent?, [], []⟩ : Model).Within bound :=
    fun _ _ => ⟨List.forall_mem_nil _, List.forall_mem_nil _⟩
  rw [model_phrase_eq] at h
  rcases run_bind_eq_error.mp h with hname | ⟨text, s₁, hname, h⟩
  · exact explained_token hname hs (by decide) ⟨"Model", rfl⟩
      ⟨[.mark .openBrace, .mark .closeBrace], ⟨.identifier "Model", none, [], []⟩, hempty _ _, rfl⟩
  obtain ⟨name, rfl, hs₁⟩ := after_name hname
  have hs₁ := hs₁.trans hs
  rcases run_bind_eq_error.mp h with hparent | ⟨text?, s₂, hparent, h⟩
  · refine (explained_parent hparent).within hs₁ ?_
    rintro _ ⟨parent, -, rfl⟩
    exact ⟨[.mark .openBrace, .mark .closeBrace], ⟨name, some parent, [], []⟩, hempty _ _, rfl⟩
  obtain ⟨parent?, -, hkinds⟩ := parentPhrase_sound hparent
  have hs₂ := TokenStream.After.trans ⟨hkinds, parentPhrase.forward hparent⟩ hs₁
  rcases run_bind_eq_error.mp h with hopen | ⟨_, s₃, hopen, h⟩
  · exact explained_token hopen hs₂ (by decide) rfl ⟨[.mark .closeBrace], ⟨name, parent?, [], []⟩,
      hempty _ _, by simp [Model.kinds]⟩
  have hs₃ := (after_mark hopen).trans hs₂
  rcases run_bind_eq_error.mp h with hmembers | ⟨members, s₄, hmembers, h⟩
  · refine (explained_members hdepth hbound hmembers).within hs₃ ?_
    rintro _ ⟨attributes, actions, hattributes, hactions, rfl⟩
    exact ⟨[.mark .closeBrace], ⟨name, parent?, attributes, actions⟩, ⟨hattributes, hactions⟩, by
      simp [Model.kinds]⟩
  obtain ⟨attributes, actions, hattributes, hactions, -, -, hkinds'⟩ := members_sound hmembers
  have hattributes : ∀ a ∈ attributes, a.Within bound := fun a ha => (hattributes a ha).mono hdepth
  have hactions : ∀ a ∈ actions, a.Within bound := fun a ha => (hactions a ha).mono hdepth
  rw [← List.append_assoc] at hkinds'
  have hs₄ := TokenStream.After.trans ⟨hkinds', (repeatWhile _ _ _).forward hmembers⟩ hs₃
  rcases run_bind_eq_error.mp h with hclose | ⟨_, _, -, h⟩
  · refine explained_closeBrace hclose hs₄ (by decide) ⟨"action", rfl⟩ ?_ ?_
    · exact ⟨[], ⟨name, parent?, attributes, actions⟩, ⟨hattributes, hactions⟩, by
        simp [Model.kinds]⟩
    · refine ⟨[.mark .openParen, .mark .closeParen, .mark .colon, .identifier "Type",
        .mark .closeBrace],
        ⟨name, parent?, attributes, actions ++ [⟨.identifier "action", [], .plain, none⟩]⟩,
        ⟨hattributes, List.forall_mem_append.mpr ⟨hactions, List.forall_mem_singleton.mpr ?_⟩⟩, ?_⟩
      · exact ⟨List.forall_mem_nil _, TypeTree.depth_plain_le hbound⟩
      · simp [Model.kinds, Action.kinds, parametersKinds, optionalKinds, Name.kind]
  · simp at h

omit hdepth hbound in
theorem explained_union (hs : s.After [.keyword .typeWord] o)
    (h : Schema.Union.phrase.run s = .error stop) :
    Explained (KindsOf Union.kinds fun _ => True) o stop := by
  rw [union_phrase_eq] at h
  rcases run_bind_eq_error.mp h with hname | ⟨text, s₁, hname, h⟩
  · exact explained_token hname hs (by decide) ⟨"Union", rfl⟩
      ⟨[.mark .equals, .identifier "value"], ⟨.identifier "Union", .word "value", [], false⟩,
        trivial, rfl⟩
  obtain ⟨name, rfl, hs₁⟩ := after_name hname
  have hs₁ := hs₁.trans hs
  rcases run_bind_eq_error.mp h with hequals | ⟨_, s₂, hequals, h⟩
  · exact explained_token hequals hs₁ (by decide) rfl ⟨[.identifier "value"],
      ⟨name, .word "value", [], false⟩, trivial, rfl⟩
  rcases run_bind_eq_error.mp h with hvalues | ⟨values, s₃, -, h⟩
  · have hvalue : ∀ {m s o stop}, m ≠ Mark.dot → s.After [.mark m] o →
        Value.phrase.run s = .error stop →
        Explained (KindsOf (fun v : Value => .mark m :: [v.kind]) fun _ => True) o stop :=
      fun _ hs h => explained_token h hs (by decide) (.inr ⟨"value", rfl⟩)
        ⟨[], .word "value", trivial, rfl⟩
    refine (explained_separatedBy Value.sound hvalue (by decide) (by decide) (after_mark hequals)
      hvalues).within hs₁ ?_
    rintro _ ⟨first, others, -, rfl⟩
    exact ⟨[], ⟨name, first, others, false⟩, trivial, by simp [Union.kinds, optionalMarkKinds]⟩
  rcases run_bind_eq_error.mp h with hended | ⟨_, _, -, h⟩
  · exact absurd hended (run_optionalMark_ne_error _ _ _)
  · simp at h

theorem explained_definition {kind : Schema.Definition.Kind}
    (hopens : o.next?.bind Schema.Definition.Kind.ofToken? = some kind)
    (h : (Schema.Definition.phrase depth kind).run o.drop = .error stop) :
    Explained (KindsOf Definition.kinds (Definition.Within bound)) o stop := by
  obtain ⟨word, hnext, hword⟩ := Option.bind_eq_some_iff.mp hopens
  have hs := TokenStream.after_drop hnext
  rw [ofToken?_eq_some.mp hword] at hs
  cases kind with
  | model =>
    refine (explained_model hdepth hbound hs (run_map_eq_error.mp h)).mono ?_
    rintro _ ⟨m, hm, rfl⟩
    exact ⟨[], .model m, hm, (List.append_nil _).symm⟩
  | union =>
    refine (explained_union hs (run_map_eq_error.mp h)).mono ?_
    rintro _ ⟨u, -, rfl⟩
    exact ⟨[], .union u, trivial, (List.append_nil _).symm⟩

theorem explained_definitions
    (h : (repeatWhile Schema.Definition.Kind.ofToken? (definitionTurn depth) []).run s =
      .error stop) :
    Explained (KindsOfAll Definition.kinds (Definition.Within bound)) s stop := by
  refine explained_collected (definitionTurn_sound hdepth) ?_ h
  intro seen kind place stop' hopens hrun
  rcases run_bind_eq_error.mp hrun with hdefinition | ⟨_, _, -, hpure⟩
  · exact explained_definition hdepth hbound hopens hdefinition
  · simp at hpure

theorem Document.explained_phrase (h : (Document.phrase depth).run s = .error stop) :
    Explained (KindsOf Document.kinds (Document.Within bound)) s stop := by
  rcases run_bind_eq_error.mp h with hdefinitions | ⟨seen, s₁, hdefinitions, h⟩
  · refine (explained_definitions hdepth hbound hdefinitions).mono ?_
    rintro _ ⟨doc, hdoc, rfl⟩
    exact ⟨[], doc, hdoc, (List.append_nil _).symm⟩
  obtain ⟨doc, hdoc, -, hkinds⟩ := definitions_sound (repeatWhile_eq_ok.mp hdefinitions)
  have hs₁ : s₁.After doc.kinds s := ⟨hkinds, (repeatWhile _ _ _).forward hdefinitions⟩
  rcases run_bind_eq_error.mp h with hend | ⟨_, _, -, h⟩
  · -- One more model would do: a name and a pair of braces.
    obtain ⟨-, rfl⟩ := ending_eq_error.mp hend
    refine .unexpected hs₁ (.inl ⟨by decide, rfl⟩) (.inl rfl)
      ⟨[.identifier "Model", .mark .openBrace, .mark .closeBrace],
        doc ++ [.model ⟨.identifier "Model", none, [], []⟩], ?_, ?_⟩
    · exact List.forall_mem_append.mpr ⟨hdoc.mono hdepth, List.forall_mem_singleton.mpr
        ⟨List.forall_mem_nil _, List.forall_mem_nil _⟩⟩
    · simp [Document.kinds, Definition.kinds, Model.kinds, optionalKinds, Name.kind]
  · simp [run_map_eq_error] at h

end ObjectTransfer.Schema.Derivation
