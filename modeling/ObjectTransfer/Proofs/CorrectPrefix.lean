import ObjectTransfer.Proofs.Document
import ObjectTransfer.Proofs.Stops

/-!
# What a mismatch tells

A mismatch blames one token. The tokens before it were fine: followed by a token that the mismatch
names, they begin tokens that are accepted. With the token that is blamed they do not, whatever
comes after it. So no earlier token could have been blamed, and none that is expected is of no help
(`mismatch_blames`). One mismatch is found a token late: an attribute after an action is told from
an action by the colon behind its name, and its name is blamed.
-/

namespace ObjectTransfer

namespace TokenStream

/-- Where the tokens still to be read start, and where the text ends. -/
def starts (s : TokenStream) : List Position := s.rest.map (·.start) ++ [s.finish]

variable {s place : TokenStream} {before : List Token.Kind}

theorem head?_ended (s : TokenStream) : s.ended.head? = some s.next? := by
  rw [ended, next?_eq_head?]
  cases s.kinds <;> rfl

theorem head?_starts (s : TokenStream) : s.starts.head? = some s.position := by
  unfold starts position
  cases s.rest <;> rfl

theorem After.exists_rest_eq (h : place.After before s) :
    ∃ read : List Token, read.map (·.kind) = before ∧ s.rest = read ++ place.rest := by
  obtain ⟨read, hrest⟩ := h.follows.rest
  refine ⟨read, ?_, hrest.symm⟩
  have hkinds : s.rest.map (·.kind) = before ++ place.rest.map (·.kind) := h.kinds
  rw [← hrest, List.map_append] at hkinds
  exact List.append_cancel_right hkinds

theorem After.ended_eq (h : place.After before s) : s.ended = before.map some ++ place.ended := by
  rw [ended, h.kinds, List.map_append, List.append_assoc]
  rfl

/-- The next token of a place is the one after those that were read before. -/
theorem After.getElem?_ended (h : place.After before s) :
    s.ended[before.length]? = some place.next? := by
  rw [h.ended_eq, List.getElem?_append_right (by simp), List.length_map, Nat.sub_self,
    ← List.head?_eq_getElem?, head?_ended]

theorem After.getElem?_starts (h : place.After before s) :
    s.starts[before.length]? = some place.position := by
  obtain ⟨read, rfl, hrest⟩ := h.exists_rest_eq
  have hstarts : s.starts = read.map (·.start) ++ place.starts := by
    rw [starts, hrest, List.map_append, List.append_assoc, ← h.follows.finish]
    rfl
  rw [hstarts, List.getElem?_append_right (by simp), List.length_map, List.length_map, Nat.sub_self,
    ← List.head?_eq_getElem?, head?_starts]

theorem After.length_rest_eq (h : place.After before s) :
    s.rest.length = before.length + place.rest.length := by
  obtain ⟨read, rfl, hrest⟩ := h.exists_rest_eq
  rw [hrest, List.length_append, List.length_map]

/-- Streams whose first tokens are of the same kinds start alike. -/
theorem alike_of_ended {s s' : TokenStream} {n unseen : Nat} (h : s.ended.take n <+: s'.ended)
    (hunseen : s.ended.length = n + unseen) : s.Alike unseen s' := by
  obtain ⟨others, hothers⟩ := h
  refine ⟨(s.ended.take n).map (Option.map Token.Kind.shape),
    (s.ended.drop n).map (Option.map Token.Kind.shape), others.map (Option.map Token.Kind.shape),
    ?_, ?_, ?_⟩
  · rw [shapes, ← List.map_append, List.take_append_drop]
  · rw [shapes, ← hothers, List.map_append]
  · rw [List.length_map, List.length_drop, hunseen, Nat.add_sub_cancel_left]

end TokenStream

/-- How many tokens show that an expectation is not met: the next one, and for an action the colon
after it as well. -/
def Expectation.span (expected : Expectation) : Nat := if expected = .action then 2 else 1

namespace Dialect

open Phrase

variable {d : Dialect} {options : Options} {tokens : Tokens} {stop : Stop}

/-- Some tokens that are accepted start with the given kinds; none stands for the end of the
text. -/
def Viable (d : Dialect) (options : Options) (kinds : List (Option Token.Kind)) : Prop :=
  ∃ (tokens : Tokens) (document : d.Document),
    (d.read options tokens.stream).result = .ok document ∧ kinds <+: tokens.stream.ended

theorem viable_of_begins {kinds : List Token.Kind} (h : Begins (d.Accepts options) kinds) :
    d.Viable options (kinds.map some) := by
  obtain ⟨more, document, hread⟩ := h
  refine ⟨_, document, hread, ?_⟩
  rw [TokenStream.ended, Tokens.kinds_ofKinds, List.map_append, List.append_assoc]
  exact List.prefix_append _ _

theorem viable_of_accepts {kinds : List Token.Kind} (h : d.Accepts options kinds) :
    d.Viable options (kinds.map some ++ [none]) := by
  obtain ⟨document, hread⟩ := h
  have hended : (Tokens.ofKinds kinds).stream.ended = kinds.map some ++ [none] := by
    rw [TokenStream.ended, Tokens.kinds_ofKinds]
  exact ⟨_, document, hread, hended ▸ List.prefix_rfl⟩

/-- Tokens that were looked at before a stop begin no tokens that are accepted. -/
theorem not_viable_of_stop (h : (d.read options tokens.stream).result = .error stop) {n : Nat}
    (hn : tokens.stream.ended.length = n + stop.unseen) :
    ¬ d.Viable options (tokens.stream.ended.take n) := by
  rintro ⟨tokens', document, hread, hstarts⟩
  have hs := TokenStream.alike_of_ended hstarts hn
  have hdepth : options.maxDepth = options.maxDepth := rfl
  obtain ⟨stop', hstop, -⟩ := read_lockstep hdepth h (Nat.le_refl _) hs
  rw [hread] at hstop
  exact absurd hstop (by simp)

/-- What a mismatch tells about `tokens`: that the token at `index`, or the end of the text, is not
what is expected there. -/
structure Blames (d : Dialect) (options : Options) (tokens : Tokens) (stop : Stop) (m : Mismatch)
    (index : Nat) (expected : Expectation) : Prop where
  position : tokens.stream.starts[index]? = some m.position
  found : tokens.stream.ended[index]?.map Token.describeNext = some m.found
  text : m.expected = expected.text
  /-- The tokens before it can be completed, starting with a token that is named. -/
  completed : ∃ next, expected.Names next ∧
    d.Viable options (tokens.stream.ended.take index ++ [next])
  /-- With it they cannot. -/
  refuted : ¬ d.Viable options (tokens.stream.ended.take (index + expected.span))
  colon : expected = .action → tokens.stream.ended[index + 1]? = some (some (.mark .colon))
  /-- No token after it was read, so the mismatch is not placed before the last token read. -/
  consumed : ∃ read, tokens.list = read ++ stop.reached.rest ∧ read.length ≤ index + 1 ∧
    (tokens.stream.starts.Pairwise (·.offset ≤ ·.offset) →
      ∀ last ∈ read.getLast?, last.start.offset ≤ m.position.offset)

theorem offset_le_of_pairwise {positions : List Position}
    (h : positions.Pairwise (·.offset ≤ ·.offset)) {i j : Nat} (hij : i ≤ j) {p q : Position}
    (hp : positions[i]? = some p) (hq : positions[j]? = some q) : p.offset ≤ q.offset := by
  obtain ⟨hi, rfl⟩ := List.getElem?_eq_some_iff.mp hp
  obtain ⟨hj, rfl⟩ := List.getElem?_eq_some_iff.mp hq
  rcases Nat.lt_or_eq_of_le hij with hlt | rfl
  · exact List.pairwise_iff_getElem.mp h i j hi hj hlt
  · exact Nat.le_refl _

/-- No token after the one that is blamed was read. -/
theorem consumed_of_reached {reached : TokenStream} (hreached : reached.Follows tokens.stream)
    {index : Nat} (hindex : tokens.stream.rest.length ≤ index + 1 + reached.rest.length)
    {position : Position} (hposition : tokens.stream.starts[index]? = some position) :
    ∃ read, tokens.list = read ++ reached.rest ∧ read.length ≤ index + 1 ∧
      (tokens.stream.starts.Pairwise (·.offset ≤ ·.offset) →
        ∀ last ∈ read.getLast?, last.start.offset ≤ position.offset) := by
  obtain ⟨read, hrest⟩ := hreached.rest
  have hlength := congrArg List.length hrest
  rw [List.length_append] at hlength
  refine ⟨read, hrest.symm, by omega, ?_⟩
  intro hordered last hlast
  rw [Option.mem_def, List.getLast?_eq_getElem?] at hlast
  have hread : read.length - 1 ≤ index := by omega
  refine offset_le_of_pairwise hordered hread ?_ hposition
  obtain ⟨hbound, -⟩ := List.getElem?_eq_some_iff.mp hlast
  have hbound' : read.length - 1 < (read.map (·.start)).length := by rwa [List.length_map]
  rw [TokenStream.starts, ← hrest, List.map_append, List.append_assoc,
    List.getElem?_append_left hbound', List.getElem?_map, hlast, Option.map_some]

/-- What is known where an expectation is not met is what the mismatch tells. -/
theorem blames_of_unmet {expected : Expectation} {place reached : TokenStream}
    {before : List Token.Kind}
    (hread : (d.read options tokens.stream).result = .error ⟨.unexpected expected place, reached⟩)
    (hafter : place.After before tokens.stream) (hunmet : expected.UnmetAt place reached)
    (hcompleted : ∃ next, expected.Names next ∧ d.Viable options (before.map some ++ [next])) :
    d.Blames options tokens ⟨.unexpected expected place, reached⟩
      ⟨expected.text, Token.describeNext place.next?, place.position⟩ before.length expected := by
  have htake : tokens.stream.ended.take before.length = before.map some := by
    rw [hafter.ended_eq, List.take_left' (List.length_map _)]
  have hseen : place.rest.length + 1 = expected.span + reached.rest.length := by
    rcases hunmet with ⟨hexpected, rfl⟩ | ⟨rfl, ⟨kind, hnext⟩, rfl, -⟩
    · rw [Expectation.span, if_neg hexpected, Nat.add_comm]
    · rw [TokenStream.length_rest_eq_succ hnext, Expectation.span, if_pos rfl]
      omega
  have hspan : expected.span ≤ 2 := by
    unfold Expectation.span
    split <;> omega
  have hlength := hafter.length_rest_eq
  have hreached := (d.phrase options).stopped (result_eq_error.mp hread)
  have hindex : tokens.stream.rest.length ≤ before.length + 1 + reached.rest.length := by omega
  refine ⟨hafter.getElem?_starts, ?_, rfl, htake ▸ hcompleted, ?_, ?_, ?_⟩
  · rw [hafter.getElem?_ended, Option.map_some]
  · refine not_viable_of_stop hread ?_
    show _ = before.length + expected.span + reached.rest.length
    rw [TokenStream.length_ended]
    omega
  · rintro rfl
    rcases hunmet with ⟨hexpected, -⟩ | ⟨-, ⟨kind, hnext⟩, rfl, hcolon⟩
    · exact absurd rfl hexpected
    · have hnextAfter := (TokenStream.after_drop hnext).trans hafter
      have hended := hnextAfter.getElem?_ended
      rwa [List.length_append, hcolon] at hended
  · exact consumed_of_reached hreached hindex hafter.getElem?_starts

/-- A mismatch blames one of the tokens or the end of the text. -/
theorem mismatch_blames (d : Dialect) {options : Options} (hdepth : 1 ≤ options.maxDepth)
    {tokens : Tokens} {stop : Stop} {m : Mismatch}
    (hread : (d.read options tokens.stream).result = .error stop)
    (hm : stop.toError options.maxDepth = .mismatch m) :
    ∃ index expected, d.Blames options tokens stop m index expected := by
  have hexplained := read_explained (Nat.le_refl options.maxDepth) hdepth hread
  cases hexplained with
  | inside hinside =>
    cases hinside with
    | @unexpected expected place reached before next hafter hunmet hnamed hbegins =>
      obtain rfl := ParseError.mismatch.inj hm
      refine ⟨before.length, expected, blames_of_unmet hread hafter hunmet ⟨some next, hnamed, ?_⟩⟩
      have hviable := viable_of_begins hbegins
      rwa [List.map_append] at hviable
    | tooDeep => exact absurd hm (by simp [Stop.toError, Failure.toError])
  | @ended place before hafter hwhole =>
    obtain rfl := ParseError.mismatch.inj hm
    exact ⟨before.length, .endOfInput, blames_of_unmet hread hafter (.inl ⟨by decide, rfl⟩)
      ⟨none, rfl, viable_of_accepts hwhole⟩⟩

/-- A model with an attribute after an action. -/
def lateAttribute : Tokens := .ofKinds
  [.keyword .modelWord, .identifier "User", .mark .openBrace, .identifier "close",
    .mark .openParen, .mark .closeParen, .mark .colon, .identifier "Void", .identifier "name",
    .mark .colon, .identifier "Text", .mark .closeBrace]

/-- The name of the late attribute is blamed when the colon behind it is seen. -/
theorem lateAttribute_blamed :
    let place : TokenStream := ⟨lateAttribute.list.drop 8, .start, .start⟩
    let stop : Stop := ⟨.unexpected .action place, place.drop⟩
    let m : Mismatch :=
      ⟨"action (attributes must precede actions)", "identifier `name`", .start⟩
    (Dialect.schema.read .standard lateAttribute.stream).result = .error stop ∧
      stop.toError Options.standard.maxDepth = .mismatch m ∧
      ∃ index expected, Dialect.schema.Blames .standard lateAttribute stop m index expected := by
  intro place stop m
  have hdepth : 1 ≤ Options.standard.maxDepth := by decide
  have hread : (Dialect.schema.read .standard lateAttribute.stream).result = .error stop := by
    decide +kernel
  have hm : stop.toError Options.standard.maxDepth = .mismatch m := by decide +kernel
  exact ⟨hread, hm, mismatch_blames .schema hdepth hread hm⟩

end Dialect
end ObjectTransfer
