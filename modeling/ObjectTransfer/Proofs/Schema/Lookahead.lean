import ObjectTransfer.Proofs.Phrase.Lookahead
import ObjectTransfer.Proofs.Schema.Documents

/-!
# How far reading schemas looks ahead

All phrases of the schema notation look at most at the token after those they have read, and none at
the value of a number (`Document.lockstep_phrase`). Only whether an action was read before decides
besides what may come next, so two loops over members are in step as long as that is the same in
both (`SameStage`).
-/

namespace ObjectTransfer.Schema.Derivation

open Phrase

variable {unseen : Nat}

/-! ## Types -/

theorem lockstep_name (expected : Expectation) :
    Lockstep unseen Any (Phrase.name expected) (Phrase.name expected) :=
  lockstep_token fun _ _ => rfl

theorem lockstep_type (depth : Nat) :
    Lockstep unseen Any (TypeRef.phrase depth) (TypeRef.phrase depth) := by
  -- By induction on the depth that is left, as the phrase is defined.
  induction depth with
  | zero =>
    rw [TypeRef.phrase]
    exact lockstep_tooDeep
  | succ depth ih =>
    rw [TypeRef.phrase]
    refine lockstep_token_bind (fun _ _ => rfl) fun _ _ => ?_
    refine lockstep_optionalMark_bind ?_ (lockstep_pure trivial) (looks_pure _)
    refine lockstep_bind (lockstep_separatedBy ih) ?_ fun _ => looks_token_bind
    exact fun _ => lockstep_token_bind (fun _ _ => rfl) fun _ _ => lockstep_pure trivial

/-! ## Members -/

theorem looks_attribute (depth : Nat) (name : String) :
    Looks (Schema.Attribute.phrase depth name) := looks_token_bind

theorem lockstep_attribute (depth : Nat) (name name' : String) :
    Lockstep unseen Any (Schema.Attribute.phrase depth name)
      (Schema.Attribute.phrase depth name') := by
  refine lockstep_token_bind (fun _ _ => rfl) fun _ _ => ?_
  have hdefault : ∀ (type : TypeRef) (optional : Bool), Looks (do
      if ← Phrase.optionalMark .equals then
        return ⟨name, type.text, false, some (← Phrase.literalOrWord)⟩
      else return ⟨name, type.text, !optional, none⟩ : Phrase Schema.Attribute) :=
    fun _ _ => looks_optionalMark_bind (looks_pure _)
  refine lockstep_bind (lockstep_type depth) ?_
    fun type => looks_bind (looks_optionalMark _) (hdefault type)
  intro type type' _
  refine lockstep_bind (lockstep_optionalMark _) ?_ (hdefault type)
  intro optional optional' _
  refine lockstep_optionalMark_bind ?_ (lockstep_pure trivial) (looks_pure _)
  exact lockstep_token_bind (fun _ _ => rfl) fun _ _ => lockstep_pure trivial

theorem looks_parameter (depth : Nat) : Looks (Schema.Parameter.phrase depth) := looks_token_bind

theorem lockstep_parameter (depth : Nat) :
    Lockstep unseen Any (Schema.Parameter.phrase depth) (Schema.Parameter.phrase depth) := by
  refine lockstep_token_bind (fun _ _ => rfl) fun _ _ => ?_
  refine lockstep_token_bind (fun _ _ => rfl) fun _ _ => ?_
  refine lockstep_bind (lockstep_type depth) ?_
    fun _ => looks_bind (looks_optionalMark _) fun _ => looks_pure _
  exact fun _ => lockstep_bind (lockstep_optionalMark _) (fun _ => lockstep_pure trivial)
    fun _ => looks_pure _

theorem lockstep_parameters (depth : Nat) :
    Lockstep unseen Any (parametersPhrase depth) (parametersPhrase depth) := by
  have hlooks : Looks (separatedBy .comma (Schema.Parameter.phrase depth)) :=
    looks_separatedBy (looks_parameter depth)
  refine lockstep_next?_bind (fun hnext => ?_) fun _ => looks_ite (looks_pure _) hlooks
  exact lockstep_ite (eq_some_iff_of_shape_eq (.mark .closeParen) nofun hnext)
    (fun _ => lockstep_pure trivial) fun _ => lockstep_separatedBy (lockstep_parameter depth)

theorem looks_action (depth : Nat) (name : String) :
    Looks (Schema.Action.phrase depth name) := looks_token_bind

theorem lockstep_action (depth : Nat) (name name' : String) :
    Lockstep unseen Any (Schema.Action.phrase depth name) (Schema.Action.phrase depth name') := by
  rw [action_phrase_eq, action_phrase_eq]
  refine lockstep_token_bind (fun _ _ => rfl) fun _ _ => ?_
  refine lockstep_bind (lockstep_parameters depth) ?_ fun _ => looks_token_bind
  intro _ _ _
  refine lockstep_token_bind (fun _ _ => rfl) fun _ _ => ?_
  refine lockstep_token_bind (fun _ _ => rfl) fun _ _ => ?_
  exact lockstep_bind (lockstep_type depth) (fun _ => lockstep_pure trivial) fun _ => looks_pure _

/-- Members are read in step after the same number of actions: none, or some. -/
def SameStage (seen seen' : Members) : Prop := seen.actions = [] ↔ seen'.actions = []

theorem lockstep_member (depth : Nat) {seen seen' : Members} (hseen : SameStage seen seen')
    (name name' : String) {opening opening' : TokenStream}
    (hopening : opening.Alike unseen opening') :
    Lockstep unseen SameStage (Members.phrase depth seen name opening)
      (Members.phrase depth seen' name' opening') := by
  refine lockstep_next?_bind (fun hnext => ?_) fun _ => ?_
  · refine lockstep_ite (eq_some_iff_of_shape_eq (.mark .colon) nofun hnext) (fun _ => ?_)
      fun _ => ?_
    · refine lockstep_ite hseen.not (fun _ => lockstep_fail _ hopening) fun _ => ?_
      refine lockstep_bind (lockstep_attribute depth name name') ?_
        fun _ => looks_bind looks_optionalTerminator fun _ => looks_pure _
      exact fun _ => lockstep_bind lockstep_optionalTerminator
        (fun _ => lockstep_pure hseen) fun _ => looks_pure _
    · refine lockstep_ite (eq_some_iff_of_shape_eq (.mark .openParen) nofun hnext) (fun _ => ?_)
        fun _ => lockstep_expecting _
      refine lockstep_bind (lockstep_action depth name name') ?_
        fun _ => looks_bind looks_optionalTerminator fun _ => looks_pure _
      exact fun _ => lockstep_bind lockstep_optionalTerminator
        (fun _ => lockstep_pure (iff_of_false nofun nofun)) fun _ => looks_pure _
  · refine looks_ite (looks_ite (looks_fail _ _) ?_) (looks_ite ?_ (looks_expecting _))
    · exact looks_bind (looks_attribute depth name) fun _ =>
        looks_bind looks_optionalTerminator fun _ => looks_pure _
    · exact looks_bind (looks_action depth name) fun _ =>
        looks_bind looks_optionalTerminator fun _ => looks_pure _

/-! ## Definitions -/

theorem lockstep_parent : Lockstep unseen Any parentPhrase parentPhrase := by
  refine lockstep_next?_bind (fun hnext => ?_) fun _ => looks_ite
    (looks_bind looks_skip fun _ => looks_map (looks_token _ _)) (looks_pure _)
  refine lockstep_ite (eq_some_iff_of_shape_eq (.keyword .extendsWord) nofun hnext) (fun _ => ?_)
    fun _ => lockstep_pure trivial
  exact lockstep_bind lockstep_skip (fun _ => lockstep_map (lockstep_name _) fun _ => trivial)
    fun _ => looks_map (looks_token _ _)

theorem lockstep_model (depth : Nat) :
    Lockstep unseen Any (Schema.Model.phrase depth) (Schema.Model.phrase depth) := by
  rw [model_phrase_eq]
  refine lockstep_token_bind (fun _ _ => rfl) fun _ _ => ?_
  refine lockstep_bind lockstep_parent ?_ fun _ => looks_token_bind
  intro _ _ _
  refine lockstep_token_bind (fun _ _ => rfl) fun _ _ => ?_
  refine lockstep_bind (lockstep_repeatWhile (R := SameStage) (fun _ _ => rfl) ?_ Iff.rfl) ?_
    fun _ => looks_bind (looks_closeBrace _) fun _ => looks_pure _
  · intro seen seen' text s s' hsame hs hseen
    exact lockstep_member depth hsame text text hs (hs.drop hseen)
  · exact fun _ => lockstep_bind (lockstep_closeBrace _) (fun _ => lockstep_pure trivial)
      fun _ => looks_pure _

theorem lockstep_union : Lockstep unseen Any Schema.Union.phrase Schema.Union.phrase := by
  rw [union_phrase_eq]
  refine lockstep_token_bind (fun _ _ => rfl) fun _ _ => ?_
  refine lockstep_token_bind (fun _ _ => rfl) fun _ _ => ?_
  have hvalue : Lockstep unseen Any Value.phrase Value.phrase := lockstep_token fun _ _ => rfl
  refine lockstep_bind (lockstep_separatedBy hvalue) ?_
    fun _ => looks_bind (looks_optionalMark _) fun _ => looks_pure _
  exact fun _ => lockstep_bind (lockstep_optionalMark _) (fun _ => lockstep_pure trivial)
    fun _ => looks_pure _

theorem lockstep_definition (depth : Nat) (kind : Schema.Definition.Kind) :
    Lockstep unseen Any (Schema.Definition.phrase depth kind)
      (Schema.Definition.phrase depth kind) := by
  cases kind with
  | model => exact lockstep_map (lockstep_model depth) fun _ => trivial
  | union => exact lockstep_map lockstep_union fun _ => trivial

/-! ## Schemas -/

/-- Two schemas are read in step. -/
theorem Document.lockstep_phrase (depth : Nat) :
    Lockstep unseen Any (Document.phrase depth) (Document.phrase depth) := by
  refine lockstep_turnsToEnd (fun _ _ => rfl) ?_
  intro _ _ kind s s' hs hseen
  exact lockstep_bind (lockstep_definition depth kind) (fun _ => lockstep_pure trivial)
    (fun _ => looks_pure _) (hs.drop hseen)

end ObjectTransfer.Schema.Derivation
