import ObjectTransfer.Proofs.Entry
import ObjectTransfer.Response.Grammar

/-!
# Reading responses

The grammar of responses, as trees. `kinds` are the tokens that a derivation spells, `toResponse` is
the response that it stands for, without locations.

    Response   := identifier '\x7b' Field* '\x7d'
    Field      := Pair Terminator?
    Pair       := identifier ':' literal
    Terminator := ';' | ','

A response is read exactly if its tokens have a derivation, and what is read is the response that
the derivation stands for, at the places of its tokens (`Derivation.sound`, `Derivation.complete`).
-/

namespace ObjectTransfer.Response

open Phrase

/-- The response without its locations. -/
def erase (r : Response) : Response := ⟨r.type, r.fields.map Entry.erase, .erased⟩

/-- A field of a record. -/
structure Derivation.Field where
  pair : Pair
  terminator? : Option Terminator

def Derivation.Field.kinds (t : Derivation.Field) : List Token.Kind :=
  t.pair.kinds ++ terminatorKinds t.terminator?

/-- A response: the name of its type and its fields. -/
structure Derivation where
  type : String
  fields : List Derivation.Field

namespace Derivation

def kinds (t : Derivation) : List Token.Kind :=
  .identifier t.type :: .mark .openBrace :: (t.fields.flatMap Field.kinds ++ [.mark .closeBrace])

def toResponse (t : Derivation) : Response :=
  ⟨t.type, t.fields.map fun field => field.pair.toEntry, .erased⟩

/-! ## Fields -/

/-- A turn of the loop over fields: reads one after its key and keeps it. -/
def fieldsTurn (source : String) (seen : List Entry) (key : String) (opening : TokenStream) :
    Phrase (List Entry) := do
  let entry ← Entry.afterKey source key opening.position
  Phrase.optionalTerminator
  return entry :: seen

/-- What can follow a field: no mark that would end it. -/
abbrev Field.Follow : List Token.Kind → Prop := Avoids [.semicolon, .comma]

theorem fieldName?_eq_some {kind : Token.Kind} {key : String} :
    fieldName? kind = some key ↔ kind = .identifier key := by
  cases kind <;> simp [fieldName?]

/-- A turn reads one field. -/
theorem fieldsTurn_sound {source : String} {seen seen' : List Entry} {key : String}
    {place place' : TokenStream} (hopens : place.next?.bind fieldName? = some key)
    (hrun : (fieldsTurn source seen key place).run place.drop = .ok (seen', place')) :
    ∃ e t, seen' = e :: seen ∧ True ∧ Field.pair t = Entry.pair e ∧
      place.kinds = Field.kinds t ++ place'.kinds := by
  obtain ⟨kind, hnext, hkind⟩ := Option.bind_eq_some_iff.mp hopens
  rw [fieldName?_eq_some.mp hkind] at hnext
  obtain ⟨e, s₂, hentry, hrun'⟩ := run_bind_eq_ok.mp hrun
  obtain ⟨u, s₃, hterminator, hpure'⟩ := run_bind_eq_ok.mp hrun'
  obtain ⟨rfl, rfl⟩ := run_pure_eq_ok.mp hpure'
  obtain ⟨terminator?, hs₂⟩ := optionalTerminator_sound hterminator
  refine ⟨e, ⟨e.pair, terminator?⟩, rfl, trivial, rfl, ?_⟩
  rw [TokenStream.kinds_eq_cons hnext, Entry.sound_afterKey hentry, hs₂, Field.kinds,
    List.append_assoc]

theorem fields_sound {source : String} {s s' : TokenStream} {entries : List Entry}
    (h : (fieldsPhrase source).run s = .ok (entries, s')) :
    ∃ ts : List Field, ts.map Field.pair = entries.map Entry.pair ∧
      s.kinds = ts.flatMap Field.kinds ++ s'.kinds := by
  obtain ⟨all, s₁, hall, hpure⟩ := run_bind_eq_ok.mp h
  obtain ⟨rfl, rfl⟩ := run_pure_eq_ok.mp hpure
  obtain ⟨ts, -, hseen, hs⟩ := collected_sound fieldsTurn_sound (repeatWhile_eq_ok.mp hall)
  exact ⟨ts, hseen.symm, hs⟩

theorem fields_complete (source : String) {ts : List Field} {s : TokenStream}
    {rest : List Token.Kind}
    (hs : s.kinds = ts.flatMap Field.kinds ++ .mark .closeBrace :: rest) :
    ∃ entries s', (fieldsPhrase source).run s = .ok (entries, s') ∧
      entries.map Entry.pair = ts.map Field.pair ∧ s'.kinds = .mark .closeBrace :: rest := by
  have hturn : ∀ t ∈ ts, ∀ seen : List Entry,
      ReadsItem fieldName? (fieldsTurn source) Field.kinds Field.Follow seen t
        fun seen' => ∃ e, seen' = e :: seen ∧ Entry.pair e = Field.pair t := by
    -- The turn is opened by the key, and the entry is read from behind it.
    rintro ⟨p, terminator?⟩ - seen place rest' hplace hrest'
    rw [Field.kinds, List.append_assoc] at hplace
    obtain ⟨hkey, -⟩ := TokenStream.next?_of_kinds hplace
    rw [TokenStream.kinds_eq_cons hkey] at hplace
    obtain ⟨e, s₁, hentry, rfl, hs₁⟩ := Entry.complete_afterKey source place.position hplace
    obtain ⟨s', hterminator, hs'⟩ := optionalTerminator_complete terminator? hs₁ hrest'
    refine ⟨e.key, e :: seen, s', ?_, ?_, ⟨e, rfl, rfl⟩, hs'⟩
    · rw [hkey]
      rfl
    · unfold fieldsTurn
      show (Entry.afterKey source e.pair.key place.position >>= fun entry => do
        Phrase.optionalTerminator
        return entry :: seen).run place.drop = _
      rw [run_bind_of_ok hentry, run_bind_of_ok hterminator, run_pure]
  have hfield : ∀ (t : Field) (rest : List Token.Kind), Field.Follow (t.kinds ++ rest) :=
    fun _ _ => avoids_cons (by simp) _
  have hclose : Field.Follow (.mark .closeBrace :: rest) := avoids_mark_cons (by decide) rest
  obtain ⟨all, s', hturns, hall, hs'⟩ :=
    collected_complete hturn (holds_flatMap_append hfield hclose) [] hs
  rw [turns_of_stop hs' rfl] at hturns
  refine ⟨all.reverse, s', ?_, hall, hs'⟩
  unfold fieldsPhrase
  exact run_bind_eq_ok.mpr ⟨all, s', repeatWhile_eq_ok.mpr hturns, rfl⟩

/-! ## Responses -/

theorem result_eq_ok {source : String} {s : TokenStream} {r : Response} :
    (Response.read source s).result = .ok r ↔ ∃ s', (phrase source).run s = .ok (r, s') := by
  show (·.1) <$> (phrase source).run s = _ ↔ _
  rw [map_fst_eq_ok]

theorem toResponse_eq {type : String} {ts : List Field} {entries : List Entry}
    (h : ts.map Field.pair = entries.map Entry.pair) (location : Location) :
    (⟨type, ts⟩ : Derivation).toResponse = erase ⟨type, entries, location⟩ := by
  have hentries : ts.map (fun field => field.pair.toEntry) = entries.map Entry.erase := by
    have hmap := congrArg (List.map Pair.toEntry) h
    rwa [List.map_map, List.map_map] at hmap
  rw [toResponse, hentries]
  rfl

theorem sound {source : String} {s : TokenStream} {r : Response}
    (h : (Response.read source s).result = .ok r) :
    ∃ t : Derivation, t.kinds = s.kinds ∧ t.toResponse = r.erase := by
  obtain ⟨s', hphrase⟩ := result_eq_ok.mp h
  unfold phrase at hphrase
  rw [run_bind_of_ok (run_place s)] at hphrase
  obtain ⟨type, s₁, htype, h₁⟩ := run_bind_eq_ok.mp hphrase
  obtain ⟨u, s₂, hopen, h₂⟩ := run_bind_eq_ok.mp h₁
  obtain ⟨entries, s₃, hentries, h₃⟩ := run_bind_eq_ok.mp h₂
  obtain ⟨u, s₄, hclose, h₄⟩ := run_bind_eq_ok.mp h₃
  obtain ⟨u, s₅, hend, h₅⟩ := run_bind_eq_ok.mp h₄
  obtain ⟨location, s₆, hlocation, h₆⟩ := run_bind_eq_ok.mp h₅
  obtain ⟨rfl, -⟩ := run_pure_eq_ok.mp h₆
  obtain ⟨ts, hpairs, hs₂⟩ := fields_sound hentries
  refine ⟨⟨type, ts⟩, ?_, toResponse_eq hpairs location⟩
  rw [identifier_sound htype, mark_sound hopen, hs₂, closeBrace_sound hclose,
    (endOfInput_eq_ok.mp hend).1]
  rfl

theorem complete (source : String) (t : Derivation) {s : TokenStream} (hs : s.kinds = t.kinds) :
    ∃ r, (Response.read source s).result = .ok r ∧ r.erase = t.toResponse := by
  obtain ⟨type, ts⟩ := t
  obtain ⟨s₁, htype, hs₁⟩ := identifier_complete .responseTypeName hs
  obtain ⟨s₂, hopen, hs₂⟩ := mark_complete hs₁
  obtain ⟨entries, s₃, hentries, hpairs, hs₃⟩ := fields_complete source hs₂
  obtain ⟨s₄, hclose, hs₄⟩ := closeBrace_complete .fieldName hs₃
  have hend : endOfInput.run s₄ = .ok ((), s₄) := endOfInput_eq_ok.mpr ⟨hs₄, rfl⟩
  refine ⟨⟨type, entries, ⟨source, s.position, s₄.behind⟩⟩,
    result_eq_ok.mpr ⟨s₄, ?_⟩, (toResponse_eq hpairs.symm _).symm⟩
  unfold phrase
  rw [run_bind_of_ok (run_place s)]
  show (identifier .responseTypeName >>= _).run s = _
  rw [run_bind_of_ok htype, run_bind_of_ok hopen, run_bind_of_ok hentries, run_bind_of_ok hclose,
    run_bind_of_ok hend]
  rfl

end Derivation
end ObjectTransfer.Response
