import ObjectTransfer.Proofs.Schema.Models

/-!
# Reading schemas

A schema is read exactly if its tokens have a derivation whose types are nested no deeper than
allowed, and what is read is the schema that the derivation stands for
(`Document.result_eq_ok_iff_derives`). No tokens have two derivations.
-/

namespace ObjectTransfer.Schema.Derivation

open Phrase

/-! ## Unions -/

namespace Value

/-- Reads a value of a union. -/
def phrase : Phrase String :=
  Phrase.token .unionValue fun kind => match kind with
    | .literal (.string value) => some value
    | .identifier value => some value
    | _ => none

theorem sound {s s' : TokenStream} {text : String} (h : phrase.run s = .ok (text, s')) :
    ∃ v : Value, True ∧ v.text = text ∧ s.kinds = [v.kind] ++ s'.kinds := by
  obtain ⟨kind, hkind, hs⟩ := token_sound h
  split at hkind
  · exact ⟨string _, trivial, Option.some.inj hkind, hs⟩
  · exact ⟨word _, trivial, Option.some.inj hkind, hs⟩
  · exact absurd hkind (by simp)

theorem complete (v : Value) {s : TokenStream} {rest : List Token.Kind}
    (hs : s.kinds = [v.kind] ++ rest) : ∃ s', phrase.run s = .ok (v.text, s') ∧ s'.kinds = rest := by
  cases v with
  | string content => exact token_complete _ rfl hs
  | word name => exact token_complete _ rfl hs

theorem determined (v : Value) : Determined (fun v => [kind v]) (fun _ => True) v := by
  intro v' rest rest' _ _ h
  obtain ⟨hkind, hend⟩ := List.cons.inj h
  refine ⟨?_, hend⟩
  cases v <;> cases v' <;> simp_all [kind]

end Value

/-- A union is read as its name and its values. -/
theorem union_phrase_eq :
    Schema.Union.phrase = do
      let name ← Phrase.name .typeName
      Phrase.mark .equals
      let values ← Phrase.separatedBy .bar Value.phrase
      let _ ← Phrase.optionalMark .semicolon
      return ⟨name, values⟩ := rfl

namespace Union

/-- What can follow a union: no mark that would prolong it. -/
abbrev Follow : List Token.Kind → Prop := Avoids [.bar, .semicolon]

theorem sound {opening s s' : TokenStream} {union : Schema.Union}
    (hopening : opening.kinds = .keyword .typeWord :: s.kinds)
    (h : Schema.Union.phrase.run s = .ok (union, s')) :
    ∃ u : Union, u.toSchema = union ∧ opening.kinds = u.kinds ++ s'.kinds := by
  rw [union_phrase_eq] at h
  obtain ⟨text, s₁, hname, h⟩ := run_bind_eq_ok.mp h
  obtain ⟨u, s₂, hequals, h⟩ := run_bind_eq_ok.mp h
  obtain ⟨texts, s₃, hvalues, h⟩ := run_bind_eq_ok.mp h
  obtain ⟨ended, s₄, hended, h⟩ := run_bind_eq_ok.mp h
  obtain ⟨name, rfl, hs⟩ := Name.sound hname
  obtain ⟨first, others, -, rfl, hs₂⟩ := separatedBy_sound Value.sound hvalues
  obtain ⟨rfl, rfl⟩ := run_pure_eq_ok.mp h
  refine ⟨⟨name, first, others, ended⟩, rfl, ?_⟩
  rw [hopening, hs, mark_sound hequals, hs₂, optionalMark_sound hended]
  simp [kinds]

theorem complete (u : Union) {s : TokenStream} {rest : List Token.Kind}
    (hs : .keyword .typeWord :: s.kinds = u.kinds ++ rest) (hrest : Follow rest) :
    ∃ s', Schema.Union.phrase.run s = .ok (u.toSchema, s') ∧ s'.kinds = rest := by
  obtain ⟨name, first, others, ended⟩ := u
  simp only [kinds, List.cons_append, List.cons.injEq, true_and, List.append_assoc] at hs
  obtain ⟨s₁, hname, hs₁⟩ := name.complete .typeName hs
  obtain ⟨s₂, hequals, hs₂⟩ := mark_complete hs₁
  have hvalue : ∀ v ∈ first :: others, ∀ {s rest}, s.kinds = [v.kind] ++ rest → True →
      ∃ s', Value.phrase.run s = .ok (v.text, s') ∧ s'.kinds = rest :=
    fun v _ _ _ hs _ => v.complete hs
  obtain ⟨s₃, hvalues, hs₃⟩ := separatedBy_complete hvalue (fun _ => trivial) trivial
    (avoids_optionalMarkKinds_append (by decide) ended (hrest.mono (by simp))) hs₂
  obtain ⟨s', hended, hs'⟩ := optionalMark_complete ended hs₃ fun _ => hrest.mono (by simp)
  refine ⟨s', ?_, hs'⟩
  rw [union_phrase_eq, run_bind_of_ok hname, run_bind_of_ok hequals, run_bind_of_ok hvalues,
    run_bind_of_ok hended]
  rfl

theorem determined (u : Union) : Determined kinds Follow u := by
  obtain ⟨name, first, others, ended⟩ := u
  rintro ⟨name', first', others', ended'⟩ rest rest' hrest hrest' h
  simp only [kinds, List.cons_append, List.cons.injEq, true_and, List.append_assoc] at h
  have hafter : ∀ (present : Bool) {rest : List Token.Kind}, Follow rest →
      True ∧ Avoids [.bar] (optionalMarkKinds .semicolon present ++ rest) := by
    intro present rest hrest
    exact ⟨trivial, avoids_optionalMarkKinds_append (by decide) present (hrest.mono (by simp))⟩
  obtain ⟨rfl, rfl, hended⟩ := determined_separated (fun _ => trivial) (fun v _ => v.determined)
    (hafter ended hrest) (hafter ended' hrest') h.2
  obtain ⟨rfl, hend⟩ := determined_optionalMark .semicolon ended (hrest.mono (by simp))
    (hrest'.mono (by simp)) hended
  exact ⟨by rw [Name.kind_injective h.1], hend⟩

end Union

/-! ## Definitions -/

/-- The tokens that open a definition, and no others. -/
theorem ofToken?_eq_some {word : Token.Kind} {kind : Schema.Definition.Kind} :
    Schema.Definition.Kind.ofToken? word = some kind ↔
      word = match kind with
        | .model => .keyword .modelWord
        | .union => .keyword .typeWord := by
  constructor
  · intro h
    unfold Schema.Definition.Kind.ofToken? at h
    split at h
    · rw [← Option.some.inj h]
    · rw [← Option.some.inj h]
    · exact absurd h (by simp)
  · rintro rfl
    cases kind <;> rfl

namespace Definition

/-- What can follow a definition: no mark that would prolong it. -/
abbrev Follow : List Token.Kind → Prop := Union.Follow

theorem sound {depth : Nat} {kind : Schema.Definition.Kind} {opening s' : TokenStream}
    {definition : Schema.Definition}
    (hopens : opening.next?.bind Schema.Definition.Kind.ofToken? = some kind)
    (h : (Schema.Definition.phrase depth kind).run opening.drop = .ok (definition, s')) :
    ∃ d : Definition, d.Within depth ∧ d.toSchema = definition ∧
      opening.kinds = d.kinds ++ s'.kinds := by
  obtain ⟨word, hnext, hword⟩ := Option.bind_eq_some_iff.mp hopens
  have hopening := TokenStream.kinds_eq_cons hnext
  rw [ofToken?_eq_some.mp hword] at hopening
  -- The token that opens the definition is the first of its kinds.
  cases kind with
  | model =>
    obtain ⟨parsed, hmodel, rfl⟩ := run_map_eq_ok.mp h
    obtain ⟨m, hm, rfl, hs⟩ := Model.sound hopening hmodel
    exact ⟨model m, hm, rfl, hs⟩
  | union =>
    obtain ⟨parsed, hunion, rfl⟩ := run_map_eq_ok.mp h
    obtain ⟨u, rfl, hs⟩ := Union.sound hopening hunion
    exact ⟨union u, trivial, rfl, hs⟩

/-- A definition is opened by its first token, and read from there. -/
theorem complete {depth : Nat} {d : Definition} (hd : d.Within depth) {s : TokenStream}
    {rest : List Token.Kind} (hs : s.kinds = d.kinds ++ rest) (hrest : Follow rest) :
    ∃ kind s', s.next?.bind Schema.Definition.Kind.ofToken? = some kind ∧
      (Schema.Definition.phrase depth kind).run s.drop = .ok (d.toSchema, s') ∧
      s'.kinds = rest := by
  cases d with
  | model m =>
    obtain ⟨hnext, -⟩ := TokenStream.next?_of_kinds hs
    rw [TokenStream.kinds_eq_cons hnext] at hs
    obtain ⟨s', hmodel, hs'⟩ := Model.complete hd hs
    refine ⟨.model, s', ?_, run_map_eq_ok.mpr ⟨m.toSchema, hmodel, rfl⟩, hs'⟩
    rw [hnext]
    rfl
  | union u =>
    obtain ⟨hnext, -⟩ := TokenStream.next?_of_kinds hs
    rw [TokenStream.kinds_eq_cons hnext] at hs
    obtain ⟨s', hunion, hs'⟩ := u.complete hs hrest
    refine ⟨.union, s', ?_, run_map_eq_ok.mpr ⟨u.toSchema, hunion, rfl⟩, hs'⟩
    rw [hnext]
    rfl

theorem determined (d : Definition) : Determined kinds Follow d := by
  intro d' rest rest' hrest hrest' h
  cases d with
  | model m =>
    cases d' with
    | model m' =>
      obtain ⟨rfl, hend⟩ := m.determined trivial trivial h
      exact ⟨rfl, hend⟩
    | union u' => exact absurd (List.cons.inj h).1 (by simp)
  | union u =>
    cases d' with
    | model m' => exact absurd (List.cons.inj h).1 (by simp)
    | union u' =>
      obtain ⟨rfl, hend⟩ := u.determined hrest hrest' h
      exact ⟨rfl, hend⟩

/-- A definition opens with a reserved word. -/
theorem exists_kinds_eq_cons (d : Definition) :
    ∃ word others, d.kinds = .keyword word :: others := by
  cases d with
  | model m => exact ⟨.modelWord, _, rfl⟩
  | union u => exact ⟨.typeWord, _, rfl⟩

theorem follow_kinds_append (d : Definition) (rest : List Token.Kind) :
    Follow (d.kinds ++ rest) := by
  obtain ⟨word, others, hkinds⟩ := d.exists_kinds_eq_cons
  rw [hkinds]
  exact avoids_cons (by simp) _

end Definition

/-! ## Schemas -/

/-- A turn of the loop over definitions: reads one and keeps it. -/
def definitionTurn (depth : Nat) (seen : List Schema.Definition) (kind : Schema.Definition.Kind)
    (_ : TokenStream) : Phrase (List Schema.Definition) := do
  return (← Schema.Definition.phrase depth kind) :: seen

/-- A turn reads one definition. -/
theorem definitionTurn_sound {depth bound : Nat} (hdepth : depth ≤ bound)
    {seen seen' : List Schema.Definition} {kind : Schema.Definition.Kind}
    {place place' : TokenStream}
    (hopens : place.next?.bind Schema.Definition.Kind.ofToken? = some kind)
    (hrun : (definitionTurn depth seen kind place).run place.drop = .ok (seen', place')) :
    ∃ definition d, seen' = definition :: seen ∧ Definition.Within bound d ∧
      d.toSchema = id definition ∧ place.kinds = d.kinds ++ place'.kinds := by
  obtain ⟨definition, s₁, hdefinition, hpure⟩ := run_bind_eq_ok.mp hrun
  obtain ⟨rfl, rfl⟩ := run_pure_eq_ok.mp hpure
  obtain ⟨d, hd, hvalue, hplace⟩ := Definition.sound hopens hdefinition
  exact ⟨definition, d, rfl, hd.mono hdepth, hvalue, hplace⟩

/-- The turns read the definitions of the tokens. -/
theorem definitions_sound {depth : Nat} {s s' : TokenStream} {seen : List Schema.Definition}
    (h : turns Schema.Definition.Kind.ofToken? (definitionTurn depth) [] s = (seen, .ok s')) :
    ∃ doc : Document, doc.Within depth ∧ doc.toSchema = seen.reverse ∧
      s.kinds = doc.kinds ++ s'.kinds := by
  obtain ⟨doc, hdoc, hschema, hs⟩ := collected_sound (definitionTurn_sound (Nat.le_refl depth)) h
  rw [List.map_id] at hschema
  exact ⟨doc, hdoc, hschema.symm, hs⟩

namespace Document

/-- Reads a schema to the end of the text. -/
def phrase (depth : Nat) : Phrase Schema.Document :=
  turnsToEnd Schema.Definition.Kind.ofToken? (definitionTurn depth) [] (fun seen _ => seen.reverse)
    .declaration

theorem result_eq_run (depth : Nat) (s : TokenStream) :
    (Schema.Document.read depth s).result = (·.1) <$> (phrase depth).run s :=
  ended_eq_run Schema.Definition.Kind.ofToken? (definitionTurn depth) []
    (fun seen _ => seen.reverse) .declaration s

/-- A schema is read if its definitions are read up to the end of the text. -/
theorem result_eq_ok {depth : Nat} {s : TokenStream} {schema : Schema.Document} :
    (Schema.Document.read depth s).result = .ok schema ↔
      ∃ s', turns Schema.Definition.Kind.ofToken? (definitionTurn depth) [] s =
        (schema.reverse, .ok s') ∧ s'.kinds = [] := by
  rw [result_eq_run, map_fst_eq_ok]
  constructor
  · rintro ⟨s', hrun⟩
    obtain ⟨seen, hturns, hend, rfl⟩ := turnsToEnd_eq_ok.mp hrun
    exact ⟨s', by rwa [List.reverse_reverse], hend⟩
  · rintro ⟨s', hturns, hend⟩
    exact ⟨s', turnsToEnd_eq_ok.mpr ⟨_, hturns, hend, List.reverse_reverse schema⟩⟩

theorem sound {depth : Nat} {s : TokenStream} {schema : Schema.Document}
    (h : (Schema.Document.read depth s).result = .ok schema) :
    ∃ doc : Document, doc.kinds = s.kinds ∧ doc.Within depth ∧ doc.toSchema = schema := by
  obtain ⟨s', hturns, hend⟩ := result_eq_ok.mp h
  obtain ⟨doc, hdoc, hschema, hs⟩ := definitions_sound hturns
  rw [hend, List.append_nil] at hs
  rw [List.reverse_reverse] at hschema
  exact ⟨doc, hs.symm, hdoc, hschema⟩

theorem complete {depth : Nat} {doc : Document} (hdoc : doc.Within depth) {s : TokenStream}
    (hs : s.kinds = doc.kinds) : (Schema.Document.read depth s).result = .ok doc.toSchema := by
  have hturn : ∀ d ∈ doc, ∀ seen : List Schema.Definition,
      ReadsItem Schema.Definition.Kind.ofToken? (definitionTurn depth) Definition.kinds
        Definition.Follow seen d
        fun seen' => ∃ definition, seen' = definition :: seen ∧ id definition = d.toSchema := by
    intro d hd seen place rest hplace hrest
    obtain ⟨kind, s', hopens, hrun, hs'⟩ := Definition.complete (hdoc d hd) hplace hrest
    refine ⟨kind, d.toSchema :: seen, s', hopens, ?_, ⟨_, rfl, rfl⟩, hs'⟩
    unfold definitionTurn
    rw [run_bind_of_ok hrun, run_pure]
  rw [← List.append_nil doc.kinds] at hs
  obtain ⟨seen, s', hturns, hseen, hs'⟩ :=
    collected_complete hturn (holds_flatMap_append Definition.follow_kinds_append (avoids_nil _)) [] hs
  rw [turns_of_stop hs' rfl] at hturns
  rw [List.map_id] at hseen
  refine result_eq_ok.mpr ⟨s', ?_, hs'⟩
  rw [hturns, toSchema, ← List.nil_append (doc.map _), ← List.reverse_reverse seen, hseen]
  rfl

theorem kinds_injective : Function.Injective kinds := by
  intro doc doc' h
  have hdetermined : Determined kinds (fun rest => rest = []) doc := by
    -- A definition opens with a reserved word, and nothing follows the last one.
    apply determined_flatMap Definition.follow_kinds_append
    · intro rest hend
      rw [hend]
      exact avoids_nil _
    · intro d rest hnil
      obtain ⟨word, others, hkinds⟩ := d.exists_kinds_eq_cons
      rw [hkinds] at hnil
      exact absurd hnil (by simp)
    · exact fun d _ => d.determined
  exact (hdetermined rfl rfl (congrArg (· ++ []) h)).1

/-- A schema is read from tokens exactly if the tokens derive it, with types nested no deeper than
allowed; and no tokens have two derivations. -/
theorem result_eq_ok_iff_derives (depth : Nat) (s : TokenStream) (schema : Schema.Document) :
    ((Schema.Document.read depth s).result = .ok schema ↔
      ∃ doc : Document, doc.kinds = s.kinds ∧ doc.Within depth ∧ doc.toSchema = schema) ∧
    Function.Injective Document.kinds := by
  refine ⟨⟨sound, ?_⟩, kinds_injective⟩
  rintro ⟨doc, hkinds, hdoc, rfl⟩
  exact complete hdoc hkinds.symm

end Document

end ObjectTransfer.Schema.Derivation
