import ObjectTransfer.Proofs.Response.Reading

/-!
# Where reading a response stops

Responses that start alike stop alike, whatever the names of their sources (`lockstep_phrase`). Where
one stops, what was read before and a token that is named begin a response, or are one if the text
may end there (`explained_phrase`).
-/

namespace ObjectTransfer.Response.Derivation

open Phrase

variable {unseen : Nat} (source source' : String)

theorem lockstep_fieldsTurn (seen seen' : List Entry) (key key' : String)
    (opening opening' : TokenStream) :
    Lockstep unseen Any (fieldsTurn source seen key opening)
      (fieldsTurn source' seen' key' opening') := by
  refine lockstep_bind (Entry.lockstep_afterKey source source' key key' _ _) ?_
    fun _ => looks_bind looks_optionalTerminator fun _ => looks_pure _
  exact fun _ => lockstep_bind lockstep_optionalTerminator (fun _ => lockstep_pure trivial)
    fun _ => looks_pure _

theorem lockstep_fieldsPhrase :
    Lockstep unseen Any (fieldsPhrase source) (fieldsPhrase source') := by
  refine lockstep_bind (lockstep_repeatWhile (R := Any) (fun _ _ => rfl) ?_ trivial)
    (fun _ => lockstep_pure trivial) fun _ => looks_pure _
  intro seen seen' key s s' _ hs hseen
  exact lockstep_fieldsTurn source source' seen seen' key key s s' (hs.drop hseen)

/-- Two responses are read in step. -/
theorem lockstep_phrase : Lockstep unseen Any (phrase source) (phrase source') := by
  refine lockstep_place_bind fun s s' _ => ?_
  refine lockstep_token_bind (fun _ _ => rfl) fun _ _ => ?_
  refine lockstep_token_bind (fun _ _ => rfl) fun _ _ => ?_
  refine lockstep_bind (lockstep_fieldsPhrase source source') ?_ fun _ =>
    looks_bind (looks_closeBrace _) fun _ => looks_bind (looks_ending _) fun _ =>
      looks_bind (looks_locationFrom _ _) fun _ => looks_pure _
  intro _ _ _
  refine lockstep_bind (lockstep_closeBrace .fieldName) ?_ fun _ =>
    looks_bind (looks_ending _) fun _ => looks_bind (looks_locationFrom _ _) fun _ => looks_pure _
  intro _ _ _
  refine lockstep_bind (lockstep_ending .endOfInput) ?_ fun _ =>
    looks_bind (looks_locationFrom _ _) fun _ => looks_pure _
  intro _ _ _
  exact lockstep_bind (lockstep_locationFrom source source' s.position s'.position)
    (fun _ => lockstep_pure trivial) fun _ => looks_pure _

/-! ## What would have helped -/

variable {source}

theorem explained_fieldsPhrase {s : TokenStream} {stop : Stop}
    (h : (fieldsPhrase source).run s = .error stop) :
    Explained (KindsOfAll Field.kinds fun _ => True) s stop := by
  rcases run_bind_eq_error.mp h with hfields | ⟨_, _, -, h⟩
  · refine explained_collected fieldsTurn_sound ?_ hfields
    intro seen key place stop' hopens hrun
    obtain ⟨kind, hnext, hkind⟩ := Option.bind_eq_some_iff.mp hopens
    rw [fieldName?_eq_some.mp hkind] at hnext
    rcases run_bind_eq_error.mp hrun with hentry | ⟨_, s₁, -, hrun⟩
    · refine (Entry.explained_afterKey (TokenStream.after_drop hnext) hentry).mono ?_
      rintro _ ⟨p, -, rfl⟩
      exact ⟨[], ⟨p, none⟩, trivial, by simp [Field.kinds, optionalKinds]⟩
    rcases run_bind_eq_error.mp hrun with hterminator | ⟨_, _, -, hpure⟩
    · exact absurd hterminator (run_optionalTerminator_ne_error s₁ stop')
    · simp at hpure
  · simp at h

theorem explained_phrase {s : TokenStream} {stop : Stop}
    (h : (phrase source).run s = .error stop) :
    ExplainedToEnd (KindsOf Derivation.kinds fun _ => True) s stop := by
  unfold phrase at h
  rw [run_bind_of_ok (run_place s)] at h
  rcases run_bind_eq_error.mp h with htype | ⟨type, s₁, htype, h⟩
  · exact .inside (explained_token htype s.after_refl (by decide) ⟨"Model", rfl⟩
      ⟨[.mark .openBrace, .mark .closeBrace], ⟨"Model", []⟩, trivial, rfl⟩)
  have hs₁ := after_identifier htype
  rcases run_bind_eq_error.mp h with hopen | ⟨_, s₂, hopen, h⟩
  · exact .inside (explained_token hopen hs₁ (by decide) rfl
      ⟨[.mark .closeBrace], ⟨type, []⟩, trivial, rfl⟩)
  have hs₂ := (after_mark hopen).trans hs₁
  rcases run_bind_eq_error.mp h with hfields | ⟨entries, s₃, hfields, h⟩
  · refine .inside ((explained_fieldsPhrase hfields).within hs₂ ?_)
    rintro _ ⟨ts, -, rfl⟩
    exact ⟨[.mark .closeBrace], ⟨type, ts⟩, trivial, by simp [kinds]⟩
  obtain ⟨ts, -, hkinds⟩ := fields_sound hfields
  have hs₃ := TokenStream.After.trans ⟨hkinds, (fieldsPhrase source).forward hfields⟩ hs₂
  rcases run_bind_eq_error.mp h with hclose | ⟨_, s₄, hclose, h⟩
  · refine .inside (explained_closeBrace hclose hs₃ (by decide) ⟨"field", rfl⟩ ?_ ?_)
    · exact ⟨[], ⟨type, ts⟩, trivial, by simp [kinds]⟩
    · exact ⟨[.mark .colon, .literal .null, .mark .closeBrace],
        ⟨type, ts ++ [⟨⟨"field", .null⟩, none⟩]⟩, trivial, by
          simp [kinds, Field.kinds, Pair.kinds, optionalKinds]⟩
  have hs₄ := (after_closeBrace hclose).trans hs₃
  rcases run_bind_eq_error.mp h with hend | ⟨_, _, -, h⟩
  · obtain ⟨-, rfl⟩ := ending_eq_error.mp hend
    exact .ended hs₄ ⟨⟨type, ts⟩, trivial, by simp [kinds]⟩
  · exact absurd h (by simp [locationFrom, run_map_eq_error])

end ObjectTransfer.Response.Derivation
