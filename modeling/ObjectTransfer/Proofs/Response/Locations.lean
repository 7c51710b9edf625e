import ObjectTransfer.Proofs.Response.Reading

/-!
# Where the parts of a response are read

A response is read from all tokens of a text and each of its fields from tokens of its own
(`isAt_of_result`). The mark that may end a field does not belong to it.
-/

namespace ObjectTransfer.Response

open Phrase

variable {source : String}

theorem placed_fieldsTurn {seen seen' : List Entry} {key : String} {place place' : TokenStream}
    (hopens : place.next?.bind fieldName? = some key)
    (h : (Derivation.fieldsTurn source seen key place).run place.drop = .ok (seen', place')) :
    ∃ added, seen' = added ++ seen ∧ Placed (Entry.IsAt source) place added.reverse place' := by
  obtain ⟨kind, hnext, hkind⟩ := Option.bind_eq_some_iff.mp hopens
  rw [Derivation.fieldName?_eq_some.mp hkind] at hnext
  obtain ⟨e, s₁, hentry, h₁⟩ := run_bind_eq_ok.mp h
  obtain ⟨u, s₂, hterminator, h₂⟩ := run_bind_eq_ok.mp h₁
  obtain ⟨rfl, rfl⟩ := run_pure_eq_ok.mp h₂
  exact ⟨[e], rfl, (Entry.placed_afterKey hnext hentry).trans
    (placed_of_tracks tracks_optionalTerminator hterminator)⟩

theorem placed_fieldsPhrase {s s' : TokenStream} {entries : List Entry}
    (h : (fieldsPhrase source).run s = .ok (entries, s')) :
    Placed (Entry.IsAt source) s entries s' := by
  obtain ⟨all, s₁, hall, hpure⟩ := run_bind_eq_ok.mp h
  obtain ⟨rfl, rfl⟩ := run_pure_eq_ok.mp hpure
  exact placed_of_turns placed_fieldsTurn (placed_nil s.takes_refl) (repeatWhile_eq_ok.mp hall)

/-- The response is read from the tokens `own` of the text `source`, and its fields from some of
these, one after the other. -/
structure IsAt (source : String) (r : Response) (own : List Token) : Prop where
  kinds : ∃ t : Derivation, t.toResponse = r.erase ∧ own.map (·.kind) = t.kinds
  covers : r.location.Covers source own
  fields : Spread (Entry.IsAt source) r.fields own

/-- A response is read from all tokens. -/
theorem isAt_of_result {tokens : Tokens} {r : Response}
    (h : (Response.read source tokens.stream).result = .ok r) : r.IsAt source tokens.list := by
  obtain ⟨t, hkinds, ht⟩ := Derivation.sound h
  obtain ⟨s', hphrase⟩ := Derivation.result_eq_ok.mp h
  unfold phrase at hphrase
  rw [run_bind_of_ok (run_place _)] at hphrase
  obtain ⟨type, s₁, htype, h₁⟩ := run_bind_eq_ok.mp hphrase
  obtain ⟨u, s₂, hopen, h₂⟩ := run_bind_eq_ok.mp h₁
  obtain ⟨entries, s₃, hentries, h₃⟩ := run_bind_eq_ok.mp h₂
  obtain ⟨u, s₄, hclose, h₄⟩ := run_bind_eq_ok.mp h₃
  obtain ⟨u, s₅, hend, h₅⟩ := run_bind_eq_ok.mp h₄
  obtain ⟨location, s₆, hlocation, h₆⟩ := run_bind_eq_ok.mp h₅
  obtain ⟨rfl, rfl⟩ := run_pure_eq_ok.mp hlocation
  obtain ⟨rfl, rfl⟩ := run_pure_eq_ok.mp h₆
  obtain ⟨hnil, rfl⟩ := endOfInput_eq_ok.mp hend
  have hopened : Placed (Entry.IsAt source) tokens.stream [] s₂ :=
    (placed_of_tracks (tracks_token _ _) htype).trans (placed_of_tracks (tracks_token _ _) hopen)
  obtain ⟨own, htakes, hfields⟩ := (hopened.trans (placed_fieldsPhrase hentries)).trans
    (placed_of_tracks (tracks_closeBrace _) hclose)
  have hread : tokens.stream.kinds = t.kinds ++ s₄.kinds := by
    rw [hnil, List.append_nil, hkinds]
  obtain ⟨-, hcovers⟩ := htakes.kinds_covers hread source
  rw [List.nil_append, List.append_nil] at hfields
  rw [htakes.eq_list hnil]
  exact ⟨⟨t, ht, htakes.map_kind hread⟩, hcovers, hfields⟩

end ObjectTransfer.Response
