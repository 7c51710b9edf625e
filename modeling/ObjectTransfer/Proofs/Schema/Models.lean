import ObjectTransfer.Proofs.Schema.Members

/-!
# Reading models

What a model reads is exactly what its rule derives, and its tokens determine it. The members are
read in one loop, which takes attributes until the first action and only actions from there on.
-/

namespace ObjectTransfer.Schema.Derivation

open Phrase

/-! ## Parents -/

/-- Reads the parent of a model, if there is one. -/
def parentPhrase : Phrase (Option String) := do
  if (← Phrase.next?) = some (.keyword .extendsWord) then
    Phrase.skip
    some <$> Phrase.name .parentName
  else return none

theorem parentPhrase_sound {s s' : TokenStream} {text? : Option String}
    (h : parentPhrase.run s = .ok (text?, s')) :
    ∃ parent? : Option Name, parent?.map Name.text = text? ∧
      s.kinds = parentKinds parent? ++ s'.kinds := by
  obtain ⟨next, s₁, hnext, h⟩ := run_bind_eq_ok.mp h
  rw [run_next?, Except.ok.injEq, Prod.mk.injEq] at hnext
  obtain ⟨rfl, rfl⟩ := hnext
  split at h
  · rename_i hextends
    obtain ⟨u, s₂, hskip, h⟩ := run_bind_eq_ok.mp h
    rw [run_skip, Except.ok.injEq, Prod.mk.injEq] at hskip
    obtain ⟨-, rfl⟩ := hskip
    obtain ⟨text, hname, rfl⟩ := run_map_eq_ok.mp h
    obtain ⟨parent, rfl, hs⟩ := Name.sound hname
    refine ⟨some parent, rfl, ?_⟩
    rw [TokenStream.kinds_eq_cons hextends, hs]
    rfl
  · obtain ⟨rfl, rfl⟩ := run_pure_eq_ok.mp h
    exact ⟨none, rfl, rfl⟩

theorem parentPhrase_complete (parent? : Option Name) {s : TokenStream} {rest : List Token.Kind}
    (hs : s.kinds = parentKinds parent? ++ .mark .openBrace :: rest) :
    ∃ s', parentPhrase.run s = .ok (parent?.map Name.text, s') ∧
      s'.kinds = .mark .openBrace :: rest := by
  unfold parentPhrase
  rw [run_bind_of_ok (run_next? s)]
  cases parent? with
  | none =>
    have hnext : s.next? ≠ some (.keyword .extendsWord) := by
      rw [(TokenStream.next?_of_kinds hs).1]
      decide
    exact ⟨s, by rw [if_neg hnext]; rfl, hs⟩
  | some parent =>
    obtain ⟨hnext, hdrop⟩ := TokenStream.next?_of_kinds hs
    obtain ⟨s', hname, hs'⟩ := parent.complete .parentName hdrop
    refine ⟨s', ?_, hs'⟩
    rw [if_pos hnext, run_bind_of_ok (run_skip s), run_map_eq_ok]
    exact ⟨parent.text, hname, rfl⟩

theorem determined_parent (parent? : Option Name) :
    Determined parentKinds (fun rest => rest.head? = some (.mark .openBrace)) parent? := by
  apply determined_optional
  · intro parent parent' rest rest' _ _ h
    obtain ⟨-, htail⟩ := List.cons.inj h
    obtain ⟨hkind, hend⟩ := List.cons.inj htail
    exact ⟨Name.kind_injective hkind, hend⟩
  · intro parent rest hrest
    exact absurd (Option.some.inj hrest) (by simp)

/-! ## Members -/

/-- The members read so far and one more attribute. -/
def withAttribute (seen : Members) (a : Attribute) : Members :=
  ⟨a.toSchema :: seen.attributes, seen.actions⟩

/-- The members read so far and one more action. -/
def withAction (seen : Members) (a : Action) : Members :=
  ⟨seen.attributes, a.toSchema :: seen.actions⟩

/-- A turn reads an attribute, as long as there is no action yet, or an action. -/
theorem member_sound {depth : Nat} {seen seen' : Members} {name : Name}
    {opening s s' : TokenStream}
    (h : (Members.phrase depth seen name.text opening).run s = .ok (seen', s')) :
    (∃ a : Attribute, a.Within depth ∧ seen.actions = [] ∧ seen' = withAttribute seen a ∧
      name.kind :: s.kinds = a.kinds ++ s'.kinds) ∨
    (∃ a : Action, a.Within depth ∧ seen' = withAction seen a ∧
      name.kind :: s.kinds = a.kinds ++ s'.kinds) := by
  obtain ⟨next, s₁, hnext, h⟩ := run_bind_eq_ok.mp h
  rw [run_next?, Except.ok.injEq, Prod.mk.injEq] at hnext
  obtain ⟨rfl, rfl⟩ := hnext
  split at h
  · left
    split at h
    · exact absurd h (by simp)
    · rename_i hactions
      obtain ⟨field, s₁, hfield, h⟩ := run_bind_eq_ok.mp h
      obtain ⟨u, s₂, hterminator, h⟩ := run_bind_eq_ok.mp h
      obtain ⟨rfl, rfl⟩ := run_pure_eq_ok.mp h
      obtain ⟨a, ha, rfl, hs⟩ := Attribute.sound hfield hterminator
      exact ⟨a, ha, not_not.mp hactions, rfl, hs⟩
  · right
    split at h
    · obtain ⟨action, s₁, haction, h⟩ := run_bind_eq_ok.mp h
      obtain ⟨u, s₂, hterminator, h⟩ := run_bind_eq_ok.mp h
      obtain ⟨rfl, rfl⟩ := run_pure_eq_ok.mp h
      obtain ⟨a, ha, rfl, hs⟩ := Action.sound haction hterminator
      exact ⟨a, ha, rfl, hs⟩
    · exact absurd h (by simp)

/-- The tokens from `s` up to `place` are those of attributes and then of actions, and `seen` holds
these, latest first. -/
def MembersRead (depth : Nat) (s : TokenStream) (seen : Members) (place : TokenStream) : Prop :=
  ∃ (attributes : List Attribute) (actions : List Action),
    (∀ a ∈ attributes, a.Within depth) ∧ (∀ a ∈ actions, a.Within depth) ∧
    seen.attributes.reverse = attributes.map Attribute.toSchema ∧
    seen.actions.reverse = actions.map Action.toSchema ∧
    s.kinds = attributes.flatMap Attribute.kinds ++
      (actions.flatMap Action.kinds ++ place.kinds)

/-- A turn reads one more member. -/
theorem MembersRead.step {depth : Nat} {s place place' : TokenStream} {seen seen' : Members}
    (h : MembersRead depth s seen place) {text : String}
    (hopens : place.next?.bind nameOf? = some text)
    (hrun : (Members.phrase depth seen text place).run place.drop = .ok (seen', place')) :
    MembersRead depth s seen' place' := by
  obtain ⟨attributes, actions, hattributes, hactions, hseen, hseen', hs⟩ := h
  obtain ⟨kind, hnext, hkind⟩ := Option.bind_eq_some_iff.mp hopens
  obtain ⟨name, rfl, rfl⟩ := Name.exists_of_nameOf? hkind
  rw [TokenStream.kinds_eq_cons hnext] at hs
  rcases member_sound hrun with ⟨a, ha, hnone, rfl, hread⟩ | ⟨a, ha, rfl, hread⟩
  · -- No action was read before an attribute, so the attribute is the last member so far.
    rw [hnone, List.reverse_nil] at hseen'
    have hempty : actions = [] := List.map_eq_nil_iff.mp hseen'.symm
    subst hempty
    refine ⟨attributes ++ [a], [], ?_, hactions, ?_, ?_, ?_⟩
    · exact List.forall_mem_append.mpr ⟨hattributes, List.forall_mem_singleton.mpr ha⟩
    · rw [withAttribute, List.reverse_cons, hseen, List.map_append, List.map_singleton]
    · rw [withAttribute, hnone]
      rfl
    · rw [hs, hread]
      simp
  · refine ⟨attributes, actions ++ [a], hattributes, ?_, hseen, ?_, ?_⟩
    · exact List.forall_mem_append.mpr ⟨hactions, List.forall_mem_singleton.mpr ha⟩
    · rw [withAction, List.reverse_cons, hseen', List.map_append, List.map_singleton]
    · rw [hs, hread]
      simp

theorem members_sound {depth : Nat} {s s' : TokenStream} {members : Members}
    (h : (repeatWhile nameOf? (Members.phrase depth) ⟨[], []⟩).run s = .ok (members, s')) :
    MembersRead depth s members s' := by
  have hstart : MembersRead depth s ⟨[], []⟩ s := ⟨[], [], by simp, by simp, rfl, rfl, rfl⟩
  exact (invariant_of_turns_eq_ok (fun hseen hopens hrun => hseen.step hopens hrun) hstart
    (repeatWhile_eq_ok.mp h)).1

theorem Attribute.memberFollow (a : Attribute) (rest : List Token.Kind) :
    MemberFollow (a.kinds ++ rest) := avoids_cons a.name.kind_ne_mark _

theorem Action.memberFollow (a : Action) (rest : List Token.Kind) :
    MemberFollow (a.kinds ++ rest) := avoids_cons a.name.kind_ne_mark _

/-- Before the first action a turn reads an attribute. -/
theorem Attribute.readsItem {depth : Nat} {a : Attribute} (ha : a.Within depth) {seen : Members}
    (hseen : seen.actions = []) :
    ReadsItem nameOf? (Members.phrase depth) kinds MemberFollow seen a
      (· = withAttribute seen a) := by
  intro s rest hs hrest
  have hname : s.kinds = a.name.kind :: (a.kinds.tail ++ rest) := hs
  obtain ⟨hnext, hdrop⟩ := TokenStream.next?_of_kinds hname
  have hkinds : a.name.kind :: s.drop.kinds = a.kinds ++ rest := by
    rw [hdrop]
    rfl
  obtain ⟨s₁, s', hfield, hterminator, hs'⟩ := complete ha hkinds hrest
  have hcolon : s.drop.next? = some (.mark .colon) := by
    rw [TokenStream.next?_eq_head?, hdrop]
    rfl
  refine ⟨a.name.text, _, s', ?_, ?_, rfl, hs'⟩
  · rw [hnext, Option.bind_some, a.name.nameOf?_kind]
  · unfold Members.phrase
    rw [run_bind_of_ok (run_next? _), if_pos hcolon, if_neg (not_not.mpr hseen),
      run_bind_of_ok hfield, run_bind_of_ok hterminator, run_pure]
    rfl

/-- A turn reads an action at any time. -/
theorem Action.readsItem {depth : Nat} {a : Action} (ha : a.Within depth) (seen : Members) :
    ReadsItem nameOf? (Members.phrase depth) kinds MemberFollow seen a
      (· = withAction seen a) := by
  intro s rest hs hrest
  have hname : s.kinds = a.name.kind :: (a.kinds.tail ++ rest) := hs
  obtain ⟨hnext, hdrop⟩ := TokenStream.next?_of_kinds hname
  have hkinds : a.name.kind :: s.drop.kinds = a.kinds ++ rest := by
    rw [hdrop]
    rfl
  obtain ⟨s₁, s', haction, hterminator, hs'⟩ := complete ha hkinds hrest
  have hopen : s.drop.next? = some (.mark .openParen) := by
    rw [TokenStream.next?_eq_head?, hdrop]
    rfl
  have hcolon : s.drop.next? ≠ some (.mark .colon) := by
    rw [hopen]
    decide
  refine ⟨a.name.text, _, s', ?_, ?_, rfl, hs'⟩
  · rw [hnext, Option.bind_some, a.name.nameOf?_kind]
  · unfold Members.phrase
    rw [run_bind_of_ok (run_next? _), if_neg hcolon, if_pos hopen, run_bind_of_ok haction,
      run_bind_of_ok hterminator, run_pure]
    rfl

/-- Attributes are read as long as there is no action yet. -/
theorem attributes_complete {depth : Nat} {attributes : List Attribute}
    (hwithin : ∀ a ∈ attributes, a.Within depth) {rest : List Token.Kind}
    (hrest : MemberFollow rest) {seen : Members} (hseen : seen.actions = []) {s : TokenStream}
    (hs : s.kinds = attributes.flatMap Attribute.kinds ++ rest) :
    ∃ seen' s', turns nameOf? (Members.phrase depth) seen s =
        turns nameOf? (Members.phrase depth) seen' s' ∧
      seen'.actions = [] ∧ seen'.attributes.reverse =
        seen.attributes.reverse ++ attributes.map Attribute.toSchema ∧
      s'.kinds = rest := by
  induction attributes generalizing seen s with
  | nil => exact ⟨seen, s, rfl, hseen, (List.append_nil _).symm, hs⟩
  | cons a as ih =>
    rw [List.flatMap_cons, List.append_assoc] at hs
    rw [List.forall_mem_cons] at hwithin
    have hfollow := holds_flatMap_append Attribute.memberFollow hrest as
    obtain ⟨_, s₁, hturn, rfl, hs₁⟩ := (Attribute.readsItem hwithin.1 hseen).turns_eq hs hfollow
    have hnone : (withAttribute seen a).actions = [] := hseen
    obtain ⟨seen', s', hturns, hnone', hread, hs'⟩ := ih hwithin.2 hnone hs₁
    refine ⟨seen', s', hturn.trans hturns, hnone', ?_, hs'⟩
    rw [hread, withAttribute, List.reverse_cons, List.append_assoc]
    rfl

/-- Actions are read after any members, and leave the attributes as they are. -/
theorem actions_complete {depth : Nat} {actions : List Action}
    (hwithin : ∀ a ∈ actions, a.Within depth) {rest : List Token.Kind}
    (hrest : MemberFollow rest) (seen : Members) {s : TokenStream}
    (hs : s.kinds = actions.flatMap Action.kinds ++ rest) :
    ∃ seen' s', turns nameOf? (Members.phrase depth) seen s =
        turns nameOf? (Members.phrase depth) seen' s' ∧
      seen'.attributes = seen.attributes ∧ seen'.actions.reverse =
        seen.actions.reverse ++ actions.map Action.toSchema ∧
      s'.kinds = rest := by
  induction actions generalizing seen s with
  | nil => exact ⟨seen, s, rfl, rfl, (List.append_nil _).symm, hs⟩
  | cons a as ih =>
    rw [List.flatMap_cons, List.append_assoc] at hs
    rw [List.forall_mem_cons] at hwithin
    have hfollow := holds_flatMap_append Action.memberFollow hrest as
    obtain ⟨_, s₁, hturn, rfl, hs₁⟩ := (Action.readsItem hwithin.1 seen).turns_eq hs hfollow
    obtain ⟨seen', s', hturns, hfields, hread, hs'⟩ := ih hwithin.2 (withAction seen a) hs₁
    refine ⟨seen', s', hturn.trans hturns, hfields, ?_, hs'⟩
    rw [hread, withAction, List.reverse_cons, List.append_assoc]
    rfl

/-- Attributes and then actions are read, up to the brace that closes the model. -/
theorem members_complete {depth : Nat} {attributes : List Attribute} {actions : List Action}
    (hattributes : ∀ a ∈ attributes, a.Within depth) (hactions : ∀ a ∈ actions, a.Within depth)
    {s : TokenStream} {rest : List Token.Kind}
    (hs : s.kinds = attributes.flatMap Attribute.kinds ++
      (actions.flatMap Action.kinds ++ .mark .closeBrace :: rest)) :
    ∃ members s', (repeatWhile nameOf? (Members.phrase depth) ⟨[], []⟩).run s =
        .ok (members, s') ∧
      members.attributes.reverse = attributes.map Attribute.toSchema ∧
      members.actions.reverse = actions.map Action.toSchema ∧
      s'.kinds = .mark .closeBrace :: rest := by
  have hclose : MemberFollow (.mark .closeBrace :: rest) := avoids_mark_cons (by decide) rest
  have hfollow := holds_flatMap_append Action.memberFollow hclose actions
  have hstart : (⟨[], []⟩ : Members).actions = [] := rfl
  obtain ⟨seen, s₁, hturns, hnone, hfields, hs₁⟩ :=
    attributes_complete hattributes hfollow hstart hs
  obtain ⟨members, s', hturns', hsame, hoperations, hs'⟩ :=
    actions_complete hactions hclose seen hs₁
  -- The actions start where the attributes end, in the same loop.
  rw [hturns', turns_of_stop hs' rfl] at hturns
  rw [← hsame] at hfields
  rw [hnone] at hoperations
  exact ⟨members, s', repeatWhile_eq_ok.mpr hturns, hfields, hoperations, hs'⟩

/-! ## Models -/

/-- A model is read as its name, its parent and its members in braces. -/
theorem model_phrase_eq (depth : Nat) :
    Schema.Model.phrase depth = do
      let name ← Phrase.name .modelName
      let parent? ← parentPhrase
      Phrase.mark .openBrace
      let members ← Phrase.repeatWhile Phrase.nameOf? (Members.phrase depth) ⟨[], []⟩
      Phrase.closeBrace .memberName
      return ⟨name, parent?, members.attributes.reverse, members.actions.reverse⟩ := by
  unfold Schema.Model.phrase parentPhrase
  congr 1
  funext name
  rw [bind_assoc]
  congr 1
  funext next
  split <;> rfl

namespace Model

theorem sound {depth : Nat} {opening s s' : TokenStream} {model : Schema.Model}
    (hopening : opening.kinds = .keyword .modelWord :: s.kinds)
    (h : (Schema.Model.phrase depth).run s = .ok (model, s')) :
    ∃ m : Model, m.Within depth ∧ m.toSchema = model ∧ opening.kinds = m.kinds ++ s'.kinds := by
  rw [model_phrase_eq] at h
  obtain ⟨text, s₁, hname, h⟩ := run_bind_eq_ok.mp h
  obtain ⟨text?, s₂, hparent, h⟩ := run_bind_eq_ok.mp h
  obtain ⟨u, s₃, hopen, h⟩ := run_bind_eq_ok.mp h
  obtain ⟨members, s₄, hmembers, h⟩ := run_bind_eq_ok.mp h
  obtain ⟨u, s₅, hclose, h⟩ := run_bind_eq_ok.mp h
  obtain ⟨name, rfl, hs⟩ := Name.sound hname
  obtain ⟨parent?, rfl, hs₁⟩ := parentPhrase_sound hparent
  obtain ⟨attributes, actions, hattributes, hactions, hseen, hseen', hs₃⟩ := members_sound hmembers
  obtain ⟨rfl, rfl⟩ := run_pure_eq_ok.mp h
  refine ⟨⟨name, parent?, attributes, actions⟩, ⟨hattributes, hactions⟩, ?_, ?_⟩
  · rw [hseen, hseen']
    rfl
  · rw [hopening, hs, hs₁, mark_sound hopen, hs₃, closeBrace_sound hclose]
    simp [kinds]

theorem complete {depth : Nat} {m : Model} (hm : m.Within depth) {s : TokenStream}
    {rest : List Token.Kind} (hs : .keyword .modelWord :: s.kinds = m.kinds ++ rest) :
    ∃ s', (Schema.Model.phrase depth).run s = .ok (m.toSchema, s') ∧ s'.kinds = rest := by
  obtain ⟨name, parent?, attributes, actions⟩ := m
  simp only [kinds, List.cons_append, List.cons.injEq, true_and, List.append_assoc] at hs
  obtain ⟨s₁, hname, hs₁⟩ := name.complete .modelName hs
  obtain ⟨s₂, hparent, hs₂⟩ := parentPhrase_complete parent? hs₁
  obtain ⟨s₃, hopen, hs₃⟩ := mark_complete hs₂
  obtain ⟨members, s₄, hmembers, hattributes, hactions, hs₄⟩ := members_complete hm.1 hm.2 hs₃
  obtain ⟨s', hclose, hs'⟩ := closeBrace_complete .memberName hs₄
  refine ⟨s', ?_, hs'⟩
  rw [model_phrase_eq, run_bind_of_ok hname, run_bind_of_ok hparent, run_bind_of_ok hopen,
    run_bind_of_ok hmembers, run_bind_of_ok hclose, run_pure, hattributes, hactions]
  rfl

/-- What ends the attributes of a model: the closing brace, or an action. -/
def AttributesEnd (rest : List Token.Kind) : Prop :=
  MemberFollow rest ∧
    (rest.head? = some (.mark .closeBrace) ∨ rest.tail.head? = some (.mark .openParen))

/-- What ends the actions of a model: the closing brace. -/
def ActionsEnd (rest : List Token.Kind) : Prop :=
  MemberFollow rest ∧ rest.head? = some (.mark .closeBrace)

theorem determined_attributes (attributes : List Attribute) :
    Determined (fun as : List Attribute => as.flatMap Attribute.kinds) AttributesEnd attributes := by
  apply determined_flatMap Attribute.memberFollow
  · exact fun _ hrest => hrest.1
  · rintro a rest ⟨-, hhead | hsecond⟩
    · exact a.name.kind_ne_mark _ (Option.some.inj hhead)
    · exact absurd (Option.some.inj hsecond) (by simp)
  · exact fun a _ => a.determined

theorem determined_actions (actions : List Action) :
    Determined (fun as : List Action => as.flatMap Action.kinds) ActionsEnd actions := by
  apply determined_flatMap Action.memberFollow
  · exact fun _ hrest => hrest.1
  · intro a rest hend
    exact a.name.kind_ne_mark _ (Option.some.inj hend.2)
  · exact fun a _ => a.determined

theorem determined (m : Model) : Determined kinds (fun _ => True) m := by
  obtain ⟨name, parent?, attributes, actions⟩ := m
  rintro ⟨name', parent'?, attributes', actions'⟩ rest rest' - - h
  simp only [kinds, List.cons_append, List.cons.injEq, true_and, List.append_assoc,
    List.nil_append] at h
  have hactions : ∀ rest : List Token.Kind, ActionsEnd (.mark .closeBrace :: rest) :=
    fun rest => ⟨avoids_mark_cons (by decide) rest, rfl⟩
  have hattributes : ∀ (as : List Action) (rest : List Token.Kind),
      AttributesEnd (as.flatMap Action.kinds ++ .mark .closeBrace :: rest) := by
    intro as rest
    have haction : ∀ (a : Action) (rest : List Token.Kind), AttributesEnd (a.kinds ++ rest) :=
      fun a rest => ⟨a.memberFollow rest, .inr rfl⟩
    exact holds_flatMap_append haction ⟨(hactions rest).1, .inl rfl⟩ as
  -- An attribute has a colon after its name, an action has a parenthesis there.
  obtain ⟨rfl, hopen⟩ := determined_parent parent? rfl rfl h.2
  obtain ⟨rfl, hmembers⟩ := determined_attributes attributes (hattributes actions rest)
    (hattributes actions' rest') (List.tail_eq_of_cons_eq hopen)
  obtain ⟨rfl, hclose⟩ := determined_actions actions (hactions rest) (hactions rest') hmembers
  exact ⟨by rw [Name.kind_injective h.1], List.tail_eq_of_cons_eq hclose⟩

end Model

end ObjectTransfer.Schema.Derivation
