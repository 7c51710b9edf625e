import ObjectTransfer.Proofs.CorrectPrefix

/-!
# What is read does not depend on the layout

Blanks and comments, the name of the text and the places of its tokens flow into locations and into
the positions of errors and nowhere else. Two texts with tokens of the same kinds are read as the same
document, locations aside, or fail for the same reason at the same token (`parse_of_same_kinds`).
-/

namespace ObjectTransfer

namespace TokenStream

variable {s s' : TokenStream}

theorem alike_of_kinds_eq (h : s.kinds = s'.kinds) : s.Alike 0 s' := by
  have hshapes : s'.shapes = s.shapes := by rw [shapes, shapes, ended, ended, h]
  exact ⟨s.shapes, [], [], (List.append_nil _).symm, by rw [hshapes, List.append_nil], rfl⟩

/-- The end of the text is told from any token, so streams that start alike to the end are of one
length. -/
theorem Alike.length_rest_eq (h : s.Alike 0 s') : s.rest.length = s'.rest.length := by
  obtain ⟨common, rest, rest', hs, hs', hrest⟩ := h
  rw [List.length_eq_zero_iff.mp hrest, List.append_nil] at hs
  have hend : s'.shapes[s.rest.length]? = some none := by
    have hlength : s.rest.length < common.length := by
      rw [← hs, length_shapes]
      exact Nat.lt_succ_self _
    rw [hs', List.getElem?_append_left hlength, ← hs, shapes_eq,
      List.getElem?_append_right (by simp [kinds])]
    simp [kinds]
  have hbound := (List.getElem?_eq_some_iff.mp hend).1
  rw [length_shapes] at hbound
  by_contra hne
  -- A place before the last one holds a token.
  have hlt : s.rest.length < ((s'.kinds.map Token.Kind.shape).map some).length := by
    rw [List.length_map, List.length_map, kinds, List.length_map]
    omega
  rw [shapes_eq, List.getElem?_append_left hlt, List.getElem?_map] at hend
  obtain ⟨shape, -, hshape⟩ := Option.map_eq_some_iff.mp hend
  exact absurd hshape (by simp)

end TokenStream

/-- Where a failure is. -/
def Failure.place : Failure → TokenStream
  | .unexpected _ place => place
  | .tooDeep place => place

/-- The same failures are at places that start alike. -/
theorem Failure.Alike.place {unseen : Nat} {failure failure' : Failure}
    (h : failure.Alike unseen failure') : failure.place.Alike unseen failure'.place := by
  cases failure with
  | unexpected =>
    cases failure' with
    | unexpected => exact h.2
    | tooDeep => exact absurd h id
  | tooDeep =>
    cases failure' with
    | unexpected => exact absurd h id
    | tooDeep => exact h

namespace Dialect

open Phrase

variable {d : Dialect} {options options' : Options} {s s' : TokenStream} {stop : Stop}

/-! ## Documents -/

/-- The document without its locations. A schema has none. -/
def erase (d : Dialect) (document : d.Document) : d.Document :=
  match d, document with
  | .schema, doc => doc
  | .request, r => r.erase
  | .response, r => r.erase

/-- Tokens of the same kinds are read as the same document. -/
theorem exists_read_of_kinds {document : d.Document}
    (h : (d.read options s).result = .ok document) (hdepth : options.maxDepth = options'.maxDepth)
    (hkinds : s.kinds = s'.kinds) :
    ∃ document', (d.read options' s').result = .ok document' ∧
      d.erase document' = d.erase document := by
  cases d with
  | schema =>
    obtain ⟨doc, hdoc, hwithin, rfl⟩ := Schema.Derivation.Document.sound h
    rw [hdepth] at hwithin
    exact ⟨_, Schema.Derivation.Document.complete hwithin (hkinds.symm.trans hdoc.symm), rfl⟩
  | request =>
    obtain ⟨t, ht, hr⟩ := Request.Derivation.sound h
    obtain ⟨r', hr', herase⟩ :=
      Request.Derivation.complete options'.sourceName t (hkinds.symm.trans ht.symm)
    exact ⟨r', hr', herase.trans hr⟩
  | response =>
    obtain ⟨t, ht, hr⟩ := Response.Derivation.sound h
    obtain ⟨r', hr', herase⟩ :=
      Response.Derivation.complete options'.sourceName t (hkinds.symm.trans ht.symm)
    exact ⟨r', hr', herase.trans hr⟩

/-! ## Failures -/

/-- A failure is at one of the tokens, or at the end of the text. -/
theorem exists_after_place (h : (d.read options s).result = .error stop) :
    ∃ before, stop.failure.place.After before s := by
  have hbound : 0 < options.maxDepth + 1 := Nat.succ_pos _
  cases read_explained (Nat.le_succ options.maxDepth) hbound h with
  | inside hinside =>
    cases hinside with
    | unexpected after => exact ⟨_, after⟩
    | tooDeep mark after => exact ⟨_, after⟩
  | ended after => exact ⟨_, after⟩

/-- The errors give the same reason at the token with the same index, or at the end of the texts. -/
def SameError (s s' : TokenStream) : ParseError → ParseError → Prop
  | .mismatch m, .mismatch m' => m.expected = m'.expected ∧ m.found = m'.found ∧
      ∃ index : Nat, s.starts[index]? = some m.position ∧ s'.starts[index]? = some m'.position
  | .nestingTooDeep limit p, .nestingTooDeep limit' p' => limit = limit' ∧
      ∃ index : Nat, s.starts[index]? = some p ∧ s'.starts[index]? = some p'
  | _, _ => False

/-- Tokens of the same kinds fail in the same way. -/
theorem exists_error_of_kinds (h : (d.read options s).result = .error stop)
    (hdepth : options.maxDepth = options'.maxDepth) (hkinds : s.kinds = s'.kinds) :
    ∃ stop', (d.read options' s').result = .error stop' ∧
      SameError s s' (stop.toError options.maxDepth) (stop'.toError options'.maxDepth) := by
  obtain ⟨stop', h', hfailure⟩ :=
    read_lockstep hdepth.symm h (Nat.zero_le _) (TokenStream.alike_of_kinds_eq hkinds)
  obtain ⟨before, hbefore⟩ := exists_after_place h
  obtain ⟨before', hbefore'⟩ := exists_after_place h'
  refine ⟨stop', h', ?_⟩
  -- The places are at the same distance from the end, and so from the start.
  have hindex : before'.length = before.length := by
    have hlength := congrArg List.length hkinds
    rw [TokenStream.kinds, TokenStream.kinds, List.length_map, List.length_map] at hlength
    have hplace := hfailure.place.length_rest_eq
    have hs := hbefore.length_rest_eq
    have hs' := hbefore'.length_rest_eq
    omega
  have hposition := hbefore.getElem?_starts
  have hposition' := hbefore'.getElem?_starts
  have hnext := hbefore.getElem?_ended
  have hnext' := hbefore'.getElem?_ended
  rw [hindex] at hposition' hnext'
  rw [TokenStream.ended, ← hkinds, ← TokenStream.ended, hnext, Option.some.injEq] at hnext'
  obtain ⟨failure, reached⟩ := stop
  obtain ⟨failure', reached'⟩ := stop'
  cases failure with
  | unexpected expected place =>
    cases failure' with
    | unexpected expected' place' =>
      obtain rfl : expected = expected' := hfailure.1
      exact ⟨rfl, congrArg Token.describeNext hnext', _, hposition, hposition'⟩
    | tooDeep => exact absurd hfailure id
  | tooDeep place =>
    cases failure' with
    | unexpected => exact absurd hfailure id
    | tooDeep place' => exact ⟨hdepth, _, hposition, hposition'⟩

/-! ## Texts -/

/-- What has come of reading two lists of tokens is the same: the same document, locations aside, or
the same error. -/
def SameOutcome (d : Dialect) (s s' : TokenStream) :
    Except ParseError d.Document → Except ParseError d.Document → Prop
  | .ok document, .ok document' => d.erase document = d.erase document'
  | .error e, .error e' => SameError s s' e e'
  | _, _ => False

/-- Two texts with tokens of the same kinds come to the same, whatever stands between the tokens and
whatever the texts are called, if both are admitted and the limit on nesting is the same. -/
theorem parse_of_same_kinds (d : Dialect) {options options' : Options} {source source' : String}
    {tokens tokens' : Tokens} (htokens : tokenize d source = .ok tokens)
    (htokens' : tokenize d source' = .ok tokens')
    (hkinds : tokens.list.map (·.kind) = tokens'.list.map (·.kind))
    (hdepth : options.maxDepth = options'.maxDepth)
    (hsize : source.utf8ByteSize ≤ options.maxInputBytes)
    (hsize' : source'.utf8ByteSize ≤ options'.maxInputBytes) :
    d.SameOutcome tokens.stream tokens'.stream (d.parse options source)
      (d.parse options' source') := by
  have hstreams : tokens.stream.kinds = tokens'.stream.kinds := hkinds
  rw [parse_of_size_le hsize, parse_of_size_le hsize', htokens, htokens']
  cases hread : (d.read options tokens.stream).result with
  | ok document =>
    obtain ⟨document', hread', herase⟩ := exists_read_of_kinds hread hdepth hstreams
    simp only [hread, hread']
    exact herase.symm
  | error stop =>
    obtain ⟨stop', hread', hsame⟩ := exists_error_of_kinds hread hdepth hstreams
    simp only [hread, hread']
    exact hsame

/-- The kinds of the tokens of `User(id: 1`, in which a parenthesis is not closed. -/
def openFilterKinds : List Token.Kind :=
  [.identifier "User", .mark .openParen, .identifier "id", .mark .colon,
    .literal (.number (.ofRatio false 1 1))]

/-- Tokens of the given kinds on the first line of a text, between these bytes. -/
def tokensOnFirstLine (kinds : List Token.Kind) (ends : List (Nat × Nat)) (finish : Nat) : Tokens :=
  ⟨(kinds.zip ends).map fun (kind, first, last) =>
    ⟨kind, ⟨first, 1, first + 1⟩, ⟨last, 1, last + 1⟩⟩, ⟨finish, 1, finish + 1⟩⟩

/-- The parenthesis is missed at the end of either text. -/
theorem openFilter_same :
    let compact := tokensOnFirstLine openFilterKinds [(0, 4), (4, 5), (5, 7), (7, 8), (9, 10)] 10
    let spaced :=
      tokensOnFirstLine openFilterKinds [(1, 5), (14, 15), (16, 18), (19, 20), (21, 24)] 29
    tokenize .request "User(id: 1" = .ok compact ∧
      tokenize .request " User /* a */ ( id : 1.0 // b" = .ok spaced ∧
      Dialect.request.SameOutcome compact.stream spaced.stream
        (Dialect.request.parse ⟨"a", 1, 10⟩ "User(id: 1")
        (Dialect.request.parse ⟨"b", 1, 29⟩ " User /* a */ ( id : 1.0 // b") ∧
      Dialect.request.parse ⟨"b", 1, 29⟩ " User /* a */ ( id : 1.0 // b" =
        .error (.mismatch ⟨"')'", "end of input", ⟨29, 1, 30⟩⟩) := by
  intro compact spaced
  have hcompact : tokenize .request "User(id: 1" = .ok compact := by decide +kernel
  have hspaced : tokenize .request " User /* a */ ( id : 1.0 // b" = .ok spaced := by
    decide +kernel
  refine ⟨hcompact, hspaced, ?_, by decide +kernel⟩
  exact parse_of_same_kinds .request hcompact hspaced (by decide +kernel) rfl (by decide +kernel)
    (by decide +kernel)

end Dialect
end ObjectTransfer
