import ObjectTransfer.Proofs.Schema.Types

/-!
# Reading members

What a member of a model reads is exactly what its rule derives, and its tokens determine it. A
member is read in two parts, its name and what `Members.phrase` makes of the tokens after it, so the
statements put the name before the kinds that are still to be read.
-/

namespace ObjectTransfer.Schema.Derivation

open Phrase

/-! ## Defaults -/

namespace Default

theorem sound {s s' : TokenStream} {value : Literal}
    (h : literalOrWord.run s = .ok (value, s')) :
    ∃ d : Default, d.value = value ∧ s.kinds = d.kind :: s'.kinds := by
  obtain ⟨kind, hkind, hs⟩ := token_sound h
  cases kind with
  | literal value' => exact ⟨literal value', Option.some.inj hkind, hs⟩
  | identifier name => exact ⟨word name, Option.some.inj hkind, hs⟩
  | keyword => exact absurd hkind (by simp)
  | mark => exact absurd hkind (by simp)

theorem complete (d : Default) {s : TokenStream} {rest : List Token.Kind}
    (hs : s.kinds = d.kind :: rest) :
    ∃ s', literalOrWord.run s = .ok (d.value, s') ∧ s'.kinds = rest := by
  cases d with
  | literal value => exact token_complete _ rfl hs
  | word name => exact token_complete _ rfl hs

theorem kind_injective {d d' : Default} (h : d.kind = d'.kind) : d = d' := by
  cases d <;> cases d' <;> simp_all [kind]

end Default

theorem determined_default (d? : Option Default) :
    Determined defaultKinds (Avoids [.equals]) d? := by
  apply determined_optional
  · intro d d' rest rest' _ _ h
    obtain ⟨-, htail⟩ := List.cons.inj h
    obtain ⟨hkind, hend⟩ := List.cons.inj htail
    exact ⟨Default.kind_injective hkind, hend⟩
  · intro d rest hrest
    exact hrest .equals List.mem_cons_self rfl

/-! ## Attributes -/

/-- What can follow a member: no mark that would prolong it. -/
abbrev MemberFollow : List Token.Kind → Prop :=
  Avoids [.less, .question, .equals, .semicolon, .comma]

namespace MemberFollow

variable {rest : List Token.Kind}

/-- What can follow the default of an attribute, or the type of an action. -/
theorem terminated (h : MemberFollow rest) (t? : Option Terminator) :
    Avoids [.less, .question, .equals] (terminatorKinds t? ++ rest) := by
  refine avoids_optionalKinds_append ?_ t? (h.mono (by simp))
  intro t rest'
  cases t <;> exact avoids_mark_cons (by decide) rest'

/-- What can follow the question mark of an attribute. -/
theorem defaulted (h : MemberFollow rest) (d? : Option Default) (t? : Option Terminator) :
    Avoids [.less, .question] (defaultKinds d? ++ (terminatorKinds t? ++ rest)) := by
  refine avoids_optionalKinds_append ?_ d? ((h.terminated t?).mono (by simp))
  intro d rest'
  exact avoids_mark_cons (by decide) _

/-- What can follow the type of an attribute. -/
theorem marked (h : MemberFollow rest) (present : Bool) (d? : Option Default)
    (t? : Option Terminator) : TypeTree.Follow (optionalMarkKinds .question present ++
      (defaultKinds d? ++ (terminatorKinds t? ++ rest))) :=
  avoids_optionalMarkKinds_append (by decide) present ((h.defaulted d? t?).mono (by simp))

end MemberFollow

namespace Attribute

theorem sound {depth : Nat} {name : Name} {s s₁ s' : TokenStream} {field : Schema.Attribute}
    {u : Unit} (h : (Schema.Attribute.phrase depth name.text).run s = .ok (field, s₁))
    (hterminator : optionalTerminator.run s₁ = .ok (u, s')) :
    ∃ a : Attribute, a.Within depth ∧ a.toSchema = field ∧
      name.kind :: s.kinds = a.kinds ++ s'.kinds := by
  obtain ⟨u, s₂, hcolon, h⟩ := run_bind_eq_ok.mp h
  obtain ⟨ref, s₃, htype, h⟩ := run_bind_eq_ok.mp h
  obtain ⟨marked, s₄, hmarked, h⟩ := run_bind_eq_ok.mp h
  obtain ⟨given, s₅, hgiven, h⟩ := run_bind_eq_ok.mp h
  obtain ⟨type, hdepth, rfl, hs₂⟩ := TypeTree.sound htype
  obtain ⟨terminator?, hs₁⟩ := optionalTerminator_sound hterminator
  have hs := mark_sound hcolon
  have hs₃ := optionalMark_sound hmarked
  have hs₄ := optionalMark_sound hgiven
  -- Only an attribute without a default can be required.
  cases given with
  | true =>
    obtain ⟨value, s₆, hvalue, h⟩ := run_bind_eq_ok.mp h
    obtain ⟨d, rfl, hs₅⟩ := Default.sound hvalue
    obtain ⟨rfl, rfl⟩ := run_pure_eq_ok.mp h
    refine ⟨⟨name, type, marked, some d, terminator?⟩, hdepth, ?_, ?_⟩
    · rw [toSchema, Option.isNone_some, Bool.and_false]
      rfl
    · rw [hs, hs₂, hs₃, hs₄, hs₅, hs₁]
      simp [kinds, optionalMarkKinds, optionalKinds]
  | false =>
    obtain ⟨rfl, rfl⟩ := run_pure_eq_ok.mp h
    refine ⟨⟨name, type, marked, none, terminator?⟩, hdepth, ?_, ?_⟩
    · rw [toSchema, Option.isNone_none, Bool.and_true]
      rfl
    · rw [hs, hs₂, hs₃, hs₄, hs₁]
      simp [kinds, optionalMarkKinds, optionalKinds]

theorem complete {depth : Nat} {a : Attribute} (ha : a.Within depth) {s : TokenStream}
    {rest : List Token.Kind} (hs : a.name.kind :: s.kinds = a.kinds ++ rest)
    (hrest : MemberFollow rest) :
    ∃ s₁ s', (Schema.Attribute.phrase depth a.name.text).run s = .ok (a.toSchema, s₁) ∧
      optionalTerminator.run s₁ = .ok ((), s') ∧ s'.kinds = rest := by
  obtain ⟨name, type, marked, default?, terminator?⟩ := a
  simp only [kinds, List.cons_append, List.cons.injEq, true_and, List.append_assoc] at hs
  obtain ⟨s₁, hcolon, hs₁⟩ := mark_complete hs
  obtain ⟨s₂, htype, hs₂⟩ := TypeTree.complete ha hs₁ (hrest.marked marked default? terminator?)
  obtain ⟨s₃, hmarked, hs₃⟩ := optionalMark_complete marked hs₂
    fun _ => (hrest.defaulted default? terminator?).mono (by simp)
  have hterminated : ∀ {place : TokenStream},
      place.kinds = terminatorKinds terminator? ++ rest →
      ∃ s', optionalTerminator.run place = .ok ((), s') ∧ s'.kinds = rest :=
    fun hplace => optionalTerminator_complete terminator? hplace (hrest.mono (by simp))
  unfold Schema.Attribute.phrase
  rw [run_bind_of_ok hcolon, run_bind_of_ok htype, run_bind_of_ok hmarked]
  cases default? with
  | some d =>
    obtain ⟨s₄, hgiven, hs₄⟩ := optionalMark_complete (m := .equals) true hs₃ nofun
    obtain ⟨s₅, hvalue, hs₅⟩ := d.complete hs₄
    obtain ⟨s', hterminator, hs'⟩ := hterminated hs₅
    refine ⟨s₅, s', ?_, hterminator, hs'⟩
    rw [run_bind_of_ok hgiven, if_pos rfl, run_bind_of_ok hvalue, run_pure, toSchema,
      Option.isNone_some, Bool.and_false]
    rfl
  | none =>
    obtain ⟨s₄, hgiven, hs₄⟩ := optionalMark_complete (m := .equals) false hs₃
      fun _ => (hrest.terminated terminator?).mono (by simp)
    obtain ⟨s', hterminator, hs'⟩ := hterminated hs₄
    refine ⟨s₄, s', ?_, hterminator, hs'⟩
    rw [run_bind_of_ok hgiven, if_neg Bool.false_ne_true, run_pure, toSchema, Option.isNone_none,
      Bool.and_true]
    rfl

theorem determined (a : Attribute) : Determined kinds MemberFollow a := by
  obtain ⟨name, type, marked, default?, terminator?⟩ := a
  rintro ⟨name', type', marked', default'?, terminator'?⟩ rest rest' hrest hrest' h
  simp only [kinds, List.cons_append, List.cons.injEq, true_and, List.append_assoc] at h
  obtain ⟨rfl, htype⟩ := type.determined (hrest.marked marked default? terminator?)
    (hrest'.marked marked' default'? terminator'?) h.2
  obtain ⟨rfl, hquestion⟩ := determined_optionalMark .question marked
    ((hrest.defaulted default? terminator?).mono (by simp))
    ((hrest'.defaulted default'? terminator'?).mono (by simp)) htype
  obtain ⟨rfl, hequals⟩ := determined_default default?
    ((hrest.terminated terminator?).mono (by simp))
    ((hrest'.terminated terminator'?).mono (by simp)) hquestion
  obtain ⟨rfl, hend⟩ := determined_terminator terminator? (hrest.mono (by simp))
    (hrest'.mono (by simp)) hequals
  exact ⟨by rw [Name.kind_injective h.1], hend⟩

end Attribute

/-! ## Parameters -/

namespace Parameter

/-- What can follow a parameter: no mark that would prolong it. -/
abbrev Follow : List Token.Kind → Prop := Avoids [.less, .question]

theorem sound {depth : Nat} {s s' : TokenStream} {parameter : Schema.Parameter}
    (h : (Schema.Parameter.phrase depth).run s = .ok (parameter, s')) :
    ∃ p : Parameter, p.type.depth ≤ depth ∧ p.toSchema = parameter ∧
      s.kinds = p.kinds ++ s'.kinds := by
  obtain ⟨text, s₁, hname, h⟩ := run_bind_eq_ok.mp h
  obtain ⟨u, s₂, hcolon, h⟩ := run_bind_eq_ok.mp h
  obtain ⟨ref, s₃, htype, h⟩ := run_bind_eq_ok.mp h
  obtain ⟨marked, s₄, hmarked, h⟩ := run_bind_eq_ok.mp h
  obtain ⟨name, rfl, hs⟩ := Name.sound hname
  obtain ⟨type, hdepth, rfl, hs₂⟩ := TypeTree.sound htype
  obtain ⟨rfl, rfl⟩ := run_pure_eq_ok.mp h
  refine ⟨⟨name, type, marked⟩, hdepth, rfl, ?_⟩
  rw [hs, mark_sound hcolon, hs₂, optionalMark_sound hmarked]
  simp [kinds]

theorem complete {depth : Nat} {p : Parameter} (hp : p.type.depth ≤ depth) {s : TokenStream}
    {rest : List Token.Kind} (hs : s.kinds = p.kinds ++ rest) (hrest : Follow rest) :
    ∃ s', (Schema.Parameter.phrase depth).run s = .ok (p.toSchema, s') ∧ s'.kinds = rest := by
  obtain ⟨name, type, marked⟩ := p
  rw [kinds, List.cons_append, List.cons_append, List.append_assoc] at hs
  obtain ⟨s₁, hname, hs₁⟩ := name.complete .parameterName hs
  obtain ⟨s₂, hcolon, hs₂⟩ := mark_complete hs₁
  obtain ⟨s₃, htype, hs₃⟩ := TypeTree.complete hp hs₂
    (avoids_optionalMarkKinds_append (by decide) marked (hrest.mono (by simp)))
  obtain ⟨s₄, hmarked, hs₄⟩ := optionalMark_complete marked hs₃ fun _ => hrest.mono (by simp)
  refine ⟨s₄, ?_, hs₄⟩
  unfold Schema.Parameter.phrase
  rw [run_bind_of_ok hname, run_bind_of_ok hcolon, run_bind_of_ok htype, run_bind_of_ok hmarked]
  rfl

theorem determined (p : Parameter) : Determined kinds Follow p := by
  obtain ⟨name, type, marked⟩ := p
  rintro ⟨name', type', marked'⟩ rest rest' hrest hrest' h
  simp only [kinds, List.cons_append, List.cons.injEq, true_and, List.append_assoc] at h
  have hmarked : ∀ (present : Bool) {rest : List Token.Kind}, Follow rest →
      TypeTree.Follow (optionalMarkKinds .question present ++ rest) := by
    intro present rest hrest
    exact avoids_optionalMarkKinds_append (by decide) present (hrest.mono (by simp))
  obtain ⟨rfl, htype⟩ := type.determined (hmarked marked hrest) (hmarked marked' hrest') h.2
  obtain ⟨rfl, hend⟩ := determined_optionalMark .question marked (hrest.mono (by simp))
    (hrest'.mono (by simp)) htype
  exact ⟨by rw [Name.kind_injective h.1], hend⟩

end Parameter

/-- Reads the parameters between the parentheses of an action. -/
def parametersPhrase (depth : Nat) : Phrase (List Schema.Parameter) := do
  if (← Phrase.next?) = some (.mark .closeParen) then return []
  else Phrase.separatedBy .comma (Schema.Parameter.phrase depth)

theorem parametersPhrase_sound {depth : Nat} {s s' : TokenStream} {values : List Schema.Parameter}
    (h : (parametersPhrase depth).run s = .ok (values, s')) :
    ∃ parameters : List Parameter, (∀ p ∈ parameters, p.type.depth ≤ depth) ∧
      parameters.map Parameter.toSchema = values ∧
      s.kinds = parametersKinds parameters ++ s'.kinds := by
  obtain ⟨next, s₁, hnext, h⟩ := run_bind_eq_ok.mp h
  rw [run_next?, Except.ok.injEq, Prod.mk.injEq] at hnext
  obtain ⟨rfl, rfl⟩ := hnext
  split at h
  · obtain ⟨rfl, rfl⟩ := run_pure_eq_ok.mp h
    exact ⟨[], by simp, rfl, rfl⟩
  · obtain ⟨first, others, hdepth, hvalues, hs⟩ := separatedBy_sound Parameter.sound h
    exact ⟨first :: others, hdepth, hvalues, hs⟩

theorem parametersPhrase_complete {depth : Nat} {parameters : List Parameter}
    (hdepth : ∀ p ∈ parameters, p.type.depth ≤ depth) {s : TokenStream} {rest : List Token.Kind}
    (hs : s.kinds = parametersKinds parameters ++ .mark .closeParen :: rest) :
    ∃ s', (parametersPhrase depth).run s = .ok (parameters.map Parameter.toSchema, s') ∧
      s'.kinds = .mark .closeParen :: rest := by
  unfold parametersPhrase
  rw [run_bind_of_ok (run_next? s), TokenStream.next?_eq_head?, hs]
  cases parameters with
  | nil =>
    have hhead : (parametersKinds [] ++ .mark .closeParen :: rest).head? =
        some (.mark .closeParen) := rfl
    refine ⟨s, ?_, hs⟩
    rw [if_pos hhead]
    rfl
  | cons first others =>
    -- A parameter starts with its name, so the parenthesis is not closed yet.
    have hhead : (parametersKinds (first :: others) ++ .mark .closeParen :: rest).head? ≠
        some (.mark .closeParen) := by
      intro h
      exact first.name.kind_ne_mark .closeParen (Option.some.inj h)
    rw [if_neg hhead]
    exact separatedBy_complete (fun p hp _ _ hs hrest => Parameter.complete (hdepth p hp) hs hrest)
      (fun _ => avoids_mark_cons (by decide) _) (avoids_mark_cons (by decide) _)
      (avoids_mark_cons (by decide) _) hs

theorem parametersKinds_inj {parameters parameters' : List Parameter}
    {rest rest' : List Token.Kind}
    (h : parametersKinds parameters ++ .mark .closeParen :: rest =
      parametersKinds parameters' ++ .mark .closeParen :: rest') :
    parameters = parameters' ∧ rest = rest' := by
  cases parameters with
  | nil =>
    cases parameters' with
    | nil => exact ⟨rfl, List.tail_eq_of_cons_eq h⟩
    | cons first' others' =>
      exact absurd (List.cons.inj h).1.symm (first'.name.kind_ne_mark .closeParen)
  | cons first others =>
    cases parameters' with
    | nil => exact absurd (List.cons.inj h).1 (first.name.kind_ne_mark .closeParen)
    | cons first' others' =>
      have hclose : ∀ rest : List Token.Kind, Parameter.Follow (.mark .closeParen :: rest) ∧
          Avoids [.comma] (.mark .closeParen :: rest) :=
        fun rest => ⟨avoids_mark_cons (by decide) rest, avoids_mark_cons (by decide) rest⟩
      obtain ⟨rfl, rfl, hend⟩ := determined_separated (fun _ => avoids_mark_cons (by decide) _)
        (fun p _ => p.determined) (hclose rest) (hclose rest') h
      exact ⟨rfl, List.tail_eq_of_cons_eq hend⟩

/-! ## Actions -/

/-- An action is read as its parameters in parentheses and its type. -/
theorem action_phrase_eq (depth : Nat) (name : String) :
    Schema.Action.phrase depth name = do
      Phrase.mark .openParen
      let parameters ← parametersPhrase depth
      Phrase.mark .closeParen
      Phrase.mark .colon
      return ⟨name, parameters, (← TypeRef.phrase depth).text⟩ := by
  unfold Schema.Action.phrase parametersPhrase
  congr 1
  funext _
  rw [bind_assoc]
  congr 1
  funext next
  split <;> rfl

namespace Action

theorem sound {depth : Nat} {name : Name} {s s₁ s' : TokenStream} {action : Schema.Action}
    {u : Unit} (h : (Schema.Action.phrase depth name.text).run s = .ok (action, s₁))
    (hterminator : optionalTerminator.run s₁ = .ok (u, s')) :
    ∃ a : Action, a.Within depth ∧ a.toSchema = action ∧
      name.kind :: s.kinds = a.kinds ++ s'.kinds := by
  rw [action_phrase_eq] at h
  obtain ⟨u, s₂, hopen, h⟩ := run_bind_eq_ok.mp h
  obtain ⟨values, s₃, hvalues, h⟩ := run_bind_eq_ok.mp h
  obtain ⟨u, s₄, hclose, h⟩ := run_bind_eq_ok.mp h
  obtain ⟨u, s₅, hcolon, h⟩ := run_bind_eq_ok.mp h
  obtain ⟨ref, s₆, htype, h⟩ := run_bind_eq_ok.mp h
  obtain ⟨parameters, hparameters, rfl, hs₂⟩ := parametersPhrase_sound hvalues
  obtain ⟨type, hdepth, rfl, hs₅⟩ := TypeTree.sound htype
  obtain ⟨terminator?, hs₁⟩ := optionalTerminator_sound hterminator
  obtain ⟨rfl, rfl⟩ := run_pure_eq_ok.mp h
  refine ⟨⟨name, parameters, type, terminator?⟩, ⟨hparameters, hdepth⟩, rfl, ?_⟩
  rw [mark_sound hopen, hs₂, mark_sound hclose, mark_sound hcolon, hs₅, hs₁]
  simp [kinds]

theorem complete {depth : Nat} {a : Action} (ha : a.Within depth) {s : TokenStream}
    {rest : List Token.Kind} (hs : a.name.kind :: s.kinds = a.kinds ++ rest)
    (hrest : MemberFollow rest) :
    ∃ s₁ s', (Schema.Action.phrase depth a.name.text).run s = .ok (a.toSchema, s₁) ∧
      optionalTerminator.run s₁ = .ok ((), s') ∧ s'.kinds = rest := by
  obtain ⟨name, parameters, type, terminator?⟩ := a
  simp only [kinds, List.cons_append, List.cons.injEq, true_and, List.append_assoc] at hs
  obtain ⟨s₁, hopen, hs₁⟩ := mark_complete hs
  obtain ⟨s₂, hparameters, hs₂⟩ := parametersPhrase_complete ha.1 hs₁
  obtain ⟨s₃, hclose, hs₃⟩ := mark_complete hs₂
  obtain ⟨s₄, hcolon, hs₄⟩ := mark_complete hs₃
  obtain ⟨s₅, htype, hs₅⟩ := TypeTree.complete ha.2 hs₄
    ((hrest.terminated terminator?).mono (by simp))
  obtain ⟨s', hterminator, hs'⟩ := optionalTerminator_complete terminator? hs₅
    (hrest.mono (by simp))
  refine ⟨s₅, s', ?_, hterminator, hs'⟩
  rw [action_phrase_eq, run_bind_of_ok hopen, run_bind_of_ok hparameters, run_bind_of_ok hclose,
    run_bind_of_ok hcolon, run_bind_of_ok htype]
  rfl

theorem determined (a : Action) : Determined kinds MemberFollow a := by
  obtain ⟨name, parameters, type, terminator?⟩ := a
  rintro ⟨name', parameters', type', terminator'?⟩ rest rest' hrest hrest' h
  simp only [kinds, List.cons_append, List.cons.injEq, true_and, List.append_assoc] at h
  obtain ⟨rfl, hcolon⟩ := parametersKinds_inj h.2
  obtain ⟨rfl, htype⟩ := type.determined ((hrest.terminated terminator?).mono (by simp))
    ((hrest'.terminated terminator'?).mono (by simp)) (List.tail_eq_of_cons_eq hcolon)
  obtain ⟨rfl, hend⟩ := determined_terminator terminator? (hrest.mono (by simp))
    (hrest'.mono (by simp)) htype
  exact ⟨by rw [Name.kind_injective h.1], hend⟩

end Action

end ObjectTransfer.Schema.Derivation
