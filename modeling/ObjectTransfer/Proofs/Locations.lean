import ObjectTransfer.Proofs.Document
import ObjectTransfer.Proofs.Request.Locations
import ObjectTransfer.Proofs.Response.Locations
import ObjectTransfer.Proofs.Token.Positions
import ObjectTransfer.Proofs.Token.Reading

/-!
# What locations cover

Every location in a request or a response that was read from a text covers exactly the tokens that its
part was read from, and the part of the text at it decides what was read: read again, alone or where
such a part can stand, it is the same part (`locations_cover`).
-/

namespace ObjectTransfer

/-- The part of the text `source` at the location, put into `frame`, is read as a good document under
any options that admit the framed text. -/
def Location.Decides (l : Location) (d : Dialect) (source : String) (frame : String → String)
    (Good : d.Document → Prop) : Prop :=
  ∃ text, l.slice? source = some text ∧ ∀ options : Options,
    (frame text).utf8ByteSize ≤ options.maxInputBytes →
      ∃ document, d.parse options (frame text) = .ok document ∧ Good document

/-! ## The text at a location -/

section

variable {d : Dialect} {source name : String} {tokens : Tokens} {l : Location} {own : List Token}

/-- The text at a location that covers some of the tokens is read as these tokens. -/
theorem Location.Covers.exists_text (hl : l.Covers name own)
    (htokens : tokenize d source = .ok tokens) (hown : own <:+: tokens.list) :
    ∃ text, l.slice? source = some (String.ofList text) ∧ ReadsAs d Apart text (own.map (·.kind)) ∧
      ∀ m others, own.map (·.kind) = .mark m :: others → text.head? = some m.char := by
  obtain ⟨before, after, hparts⟩ := hown
  obtain ⟨first, last, hfirst, hlast, -, -, hstart, hfinish⟩ := hl.exists_ends
  obtain ⟨others, rfl⟩ := List.head?_eq_some_iff.mp hfirst
  obtain ⟨finish, -, hpasses, -⟩ := Cursor.passes_of_tokenize htokens
  rw [← hparts, List.append_assoc] at hpasses
  obtain ⟨c, hbefore, hpasses⟩ := Cursor.passes_append.mp hpasses
  obtain ⟨next, hpasses, -⟩ := Cursor.passes_append.mp hpasses
  obtain ⟨skipped, hskipped⟩ := hbefore.exists_reads
  -- The text starts at the first token, behind the gap in front of it.
  obtain ⟨gap, start, text, hgap, htext, hown, hposition, hmark⟩ := hpasses.exists_start
  refine ⟨text, ?_, hown.readsAs htext, fun m kinds hm => hmark m (List.cons.inj hm).1⟩
  rw [Location.slice?, hstart, hfinish, hposition, hpasses.finish_eq hlast]
  exact Cursor.byteSlice?_of_reads (hskipped.trans hgap) htext

/-- What is read of framed tokens decides what a text with these tokens is. -/
theorem Location.Covers.decides (hl : l.Covers name own) (htokens : tokenize d source = .ok tokens)
    (hown : own <:+: tokens.list) {frame : String → String} (kinds : List Token.Kind)
    {Good : d.Document → Prop}
    (hframe : ∀ text, ReadsAs d Apart text (own.map (·.kind)) →
      (∀ m others, own.map (·.kind) = .mark m :: others → text.head? = some m.char) →
      ReadsAs d Apart (frame (String.ofList text)).toList kinds)
    (hread : ∀ (options : Options) (s : TokenStream), s.kinds = kinds →
      ∃ document, (d.read options s).result = .ok document ∧ Good document) :
    l.Decides d source frame Good := by
  obtain ⟨text, hslice, htext, hmark⟩ := hl.exists_text htokens hown
  refine ⟨_, hslice, fun options hsize => Dialect.exists_parse_of_tokenize hsize ?_ (hread options)⟩
  have htokenize := (hframe text htext hmark).exists_tokenize apart_nil
  rwa [String.ofList_toList] at htokenize

/-- The text of all the tokens decides what the text they are from is. -/
theorem Location.Covers.decides_alone (hl : l.Covers name tokens.list)
    (htokens : tokenize d source = .ok tokens) {Good : d.Document → Prop}
    (hread : ∀ (options : Options) (s : TokenStream), s.kinds = tokens.list.map (·.kind) →
      ∃ document, (d.read options s).result = .ok document ∧ Good document) :
    l.Decides d source id Good := by
  refine hl.decides htokens List.infix_rfl _ (fun text htext _ => ?_) hread
  show ReadsAs d Apart (String.ofList text).toList _
  rwa [String.toList_ofList]

/-! ## Frames -/

theorem readsAs_framed {front back : String} {text : List Char}
    {frontKinds kinds backKinds : List Token.Kind}
    (hfront : ReadsAs d (fun _ => True) front.toList frontKinds) (htext : ReadsAs d Apart text kinds)
    (hback : ReadsAs d (fun _ => True) back.toList backKinds)
    (hapart : ∀ rest, Apart (back.toList ++ rest)) :
    ReadsAs d Apart (front ++ String.ofList text ++ back).toList
      (frontKinds ++ kinds ++ backKinds) := by
  rw [String.toList_append, String.toList_append, String.toList_ofList]
  intro rest _
  exact ((hfront.append htext fun _ _ => trivial).append hback fun rest _ => hapart rest) trivial

end

/-! ## Requests -/

namespace Request

/-- The filters and steps of a request lie inside it and the filters of a step inside the step, each
before the next one. -/
structure Nested (r : Request) : Prop where
  root : r.location.Nests (r.filters.map (·.location) ++ r.steps.map (·.location))
  steps : ∀ s ∈ r.steps, s.location.Nests (s.filters.map (·.location))

/-- The text at the location of the request is read as the same request, that of a step after a model
as a walk along this step, and that of a filter in parentheses as this filter on a model. -/
structure Rereads (source : String) (r : Request) : Prop where
  root : r.location.Decides .request source id fun found => found.erase = r.erase
  steps : ∀ s ∈ r.steps, s.location.Decides .request source (fun text => "X" ++ text)
    fun found => found.erase = ⟨"X", [], [s.erase], .erased⟩
  filters : ∀ e ∈ r.filters ++ r.steps.flatMap (·.filters),
    e.location.Decides .request source (fun text => "X(" ++ text ++ ")")
      fun found => found.erase = ⟨"X", [e.erase], [], .erased⟩

variable {source name : String} {tokens : Tokens} {own : List Token}

theorem IsAt.nested {r : Request} (h : r.IsAt name tokens.list) (htokens : InOrder tokens.list) :
    r.Nested := by
  obtain ⟨front, back, hall, hfilters, hsteps⟩ := h.parts
  refine ⟨?_, fun s hs => ?_⟩
  · have hspread := (Entry.spread_covers hfilters).append
      (Step.spread_covers hsteps)
    rw [← hall] at hspread
    exact hspread.nests htokens h.covers
  · obtain ⟨own, hown, hs⟩ := hsteps.exists_part s hs
    have hpart : own <:+: tokens.list := by
      rw [hall]
      exact hown.trans (List.suffix_append front back).isInfix
    exact (Entry.spread_covers hs.filters).nests (htokens.of_part hpart) hs.covers

theorem IsAt.decides {r : Request} (h : r.IsAt name tokens.list)
    (htokens : tokenize .request source = .ok tokens) :
    r.location.Decides .request source id fun found => found.erase = r.erase := by
  obtain ⟨t, ht, hkinds⟩ := h.kinds
  refine h.covers.decides_alone htokens fun options s hs => ?_
  rw [← ht]
  exact Derivation.complete options.sourceName t (hs.trans hkinds)

theorem Step.IsAt.decides {step : Step} (h : step.IsAt name own)
    (htokens : tokenize .request source = .ok tokens) (hown : own <:+: tokens.list) :
    step.location.Decides .request source (fun text => "X" ++ text)
      fun found => found.erase = ⟨"X", [], [step.erase], .erased⟩ := by
  obtain ⟨t, ht, hkinds⟩ := h.kinds
  -- The walk from a model `X` along this step.
  let walk : Derivation := ⟨"X", none, [t]⟩
  have hwalk : walk.kinds = .identifier "X" :: t.kinds := by
    simp [walk, Derivation.kinds, Phrase.optionalKinds]
  refine h.covers.decides htokens hown walk.kinds (fun text htext hmark => ?_) fun options s hs => ?_
  · have hmodel : ReadsAs .request WordEnds "X".toList [.identifier "X"] :=
      readsAs_identifier (by decide) rfl
    rw [String.toList_append, String.toList_ofList (l := text), hwalk, ← hkinds]
    refine hmodel.append htext fun rest _ => ?_
    obtain ⟨others, rfl⟩ := List.head?_eq_some_iff.mp (hmark .dot _ hkinds)
    exact wordEnds_cons (by decide) _
  · rw [← ht]
    exact Derivation.complete options.sourceName walk hs

/-- A filter in parentheses after a model `X`. -/
theorem decides_filter {e : Entry} (h : e.IsAt name own)
    (htokens : tokenize .request source = .ok tokens) (hown : own <:+: tokens.list) :
    e.location.Decides .request source (fun text => "X(" ++ text ++ ")")
      fun found => found.erase = ⟨"X", [e.erase], [], .erased⟩ := by
  let filtered : Derivation := ⟨"X", some (.filled e.pair [] false), []⟩
  have hfiltered : filtered.kinds =
      [.identifier "X", .mark .openParen] ++ e.pair.kinds ++ [.mark .closeParen] := by
    simp [filtered, Derivation.kinds, Derivation.Filters.kinds, Phrase.optionalKinds,
      Phrase.separated, Phrase.optionalMarkKinds]
  refine h.covers.decides htokens hown filtered.kinds (fun text htext _ => ?_) fun options s hs => ?_
  · have hfront : ReadsAs .request (fun _ => True) ("X".toList ++ ['('])
        ([.identifier "X"] ++ [.mark .openParen]) :=
      (readsAs_identifier (by decide) rfl).append (readsAs_mark .openParen)
        fun _ _ => wordEnds_cons (by decide) _
    rw [hfiltered, ← h.kinds]
    exact readsAs_framed hfront htext (readsAs_mark .closeParen)
      fun _ => apart_cons (by decide) (by decide) _
  · exact Derivation.complete options.sourceName filtered hs

theorem IsAt.rereads {r : Request} (h : r.IsAt name tokens.list)
    (htokens : tokenize .request source = .ok tokens) : r.Rereads source := by
  obtain ⟨front, back, hall, hfilters, hsteps⟩ := h.parts
  have hstep : ∀ s ∈ r.steps, ∃ own, own <:+: tokens.list ∧ s.IsAt name own := by
    intro s hs
    obtain ⟨own, hown, hs⟩ := hsteps.exists_part s hs
    exact ⟨own, hall ▸ hown.trans (List.suffix_append front back).isInfix, hs⟩
  refine ⟨h.decides htokens, fun s hs => ?_, fun e he => ?_⟩
  · obtain ⟨own, hown, hs⟩ := hstep s hs
    exact hs.decides htokens hown
  · rcases List.mem_append.mp he with he | he
    · obtain ⟨own, hown, he⟩ := hfilters.exists_part e he
      exact decides_filter he htokens (hall ▸ hown.trans (List.prefix_append front back).isInfix)
    · obtain ⟨s, hs, he⟩ := List.mem_flatMap.mp he
      obtain ⟨own, hown, hs⟩ := hstep s hs
      obtain ⟨own', hown', he⟩ := hs.filters.exists_part e he
      exact decides_filter he htokens (hown'.trans hown)

end Request

/-! ## Responses -/

namespace Response

/-- The text at the location of the response is read as the same response, and that of a field in
braces as this field of a record. -/
structure Rereads (source : String) (r : Response) : Prop where
  root : r.location.Decides .response source id fun found => found.erase = r.erase
  fields : ∀ e ∈ r.fields,
    e.location.Decides .response source (fun text => "X \x7b" ++ text ++ "\x7d")
      fun found => found.erase = ⟨"X", [e.erase], .erased⟩

variable {source name : String} {tokens : Tokens} {own : List Token}

theorem IsAt.decides {r : Response} (h : r.IsAt name tokens.list)
    (htokens : tokenize .response source = .ok tokens) :
    r.location.Decides .response source id fun found => found.erase = r.erase := by
  obtain ⟨t, ht, hkinds⟩ := h.kinds
  refine h.covers.decides_alone htokens fun options s hs => ?_
  rw [← ht]
  exact Derivation.complete options.sourceName t (hs.trans hkinds)

/-- A field in braces after a type `X`. -/
theorem decides_field {e : Entry} (h : e.IsAt name own)
    (htokens : tokenize .response source = .ok tokens) (hown : own <:+: tokens.list) :
    e.location.Decides .response source (fun text => "X \x7b" ++ text ++ "\x7d")
      fun found => found.erase = ⟨"X", [e.erase], .erased⟩ := by
  let record : Derivation := ⟨"X", [⟨e.pair, none⟩]⟩
  have hrecord : record.kinds =
      [.identifier "X", .mark .openBrace] ++ e.pair.kinds ++ [.mark .closeBrace] := by
    simp [record, Derivation.kinds, Derivation.Field.kinds, Phrase.optionalKinds]
  refine h.covers.decides htokens hown record.kinds (fun text htext _ => ?_) fun options s hs => ?_
  · have hbrace : ReadsAs .response (fun _ => True) ([' '] ++ ['\x7b']) ([] ++ [.mark .openBrace]) :=
      (readsAs_blank (by decide)).append (readsAs_mark .openBrace) fun _ _ => trivial
    have hfront : ReadsAs .response (fun _ => True) ("X".toList ++ ([' '] ++ ['\x7b']))
        ([.identifier "X"] ++ ([] ++ [.mark .openBrace])) :=
      (readsAs_identifier (by decide) rfl).append hbrace fun _ _ => wordEnds_cons (by decide) _
    rw [hrecord, ← h.kinds]
    exact readsAs_framed hfront htext (readsAs_mark .closeBrace)
      fun _ => apart_cons (by decide) (by decide) _
  · exact Derivation.complete options.sourceName record hs

theorem IsAt.rereads {r : Response} (h : r.IsAt name tokens.list)
    (htokens : tokenize .response source = .ok tokens) : r.Rereads source := by
  refine ⟨h.decides htokens, fun e he => ?_⟩
  obtain ⟨own, hown, he⟩ := h.fields.exists_part e he
  exact decides_field he htokens hown

end Response

/-- Whatever the options, in what is read from a text every location is named as the options say and
covers the tokens of its part: it starts where the first of them does and ends where the last one
does. Parts lie inside the whole, each before the next one, and the text at a location decides the
part. -/
theorem locations_cover (options : Options) (source : String) :
    (∀ r, Dialect.request.parse options source = .ok r →
      ∃ tokens, tokenize .request source = .ok tokens ∧ r.IsAt options.sourceName tokens.list ∧
        r.Nested ∧ r.Rereads source) ∧
    ∀ r, Dialect.response.parse options source = .ok r →
      ∃ tokens, tokenize .response source = .ok tokens ∧ r.IsAt options.sourceName tokens.list ∧
        r.location.Nests (r.fields.map (·.location)) ∧ r.Rereads source := by
  constructor
  · intro r hparse
    obtain ⟨-, tokens, htokens, hread⟩ := Dialect.parse_eq_ok.mp hparse
    have hr := Request.isAt_of_result hread
    exact ⟨tokens, htokens, hr, hr.nested (inOrder_of_tokenize htokens), hr.rereads htokens⟩
  · intro r hparse
    obtain ⟨-, tokens, htokens, hread⟩ := Dialect.parse_eq_ok.mp hparse
    have hr := Response.isAt_of_result hread
    exact ⟨tokens, htokens, hr,
      (Entry.spread_covers hr.fields).nests (inOrder_of_tokenize htokens) hr.covers,
      hr.rereads htokens⟩

/-- A request with blanks, comments and a comma that follows the last filter. -/
def spacedRequestText : String := " User ( id : 1, ) /* a */ . posts . x(a: 2) // b"

/-- What is read from `spacedRequestText`. -/
def spacedRequest : Request where
  model := "User"
  filters := [⟨"id", .number (.ofRatio false 1 1), .onFirstLine 8 14⟩]
  steps :=
    [⟨"posts", [], none, .onFirstLine 26 33⟩,
      ⟨"x", [⟨"a", .number (.ofRatio false 2 1), .onFirstLine 38 42⟩], none, .onFirstLine 34 43⟩]
  location := .onFirstLine 1 43

/-- A response with blanks, a comment and both marks that may end a field. -/
def spacedResponseText : String := "User \x7b a : 1 , b: 2; \x7d // c"

/-- What is read from `spacedResponseText`. -/
def spacedResponse : Response where
  type := "User"
  fields := [⟨"a", .number (.ofRatio false 1 1), .onFirstLine 7 12⟩,
    ⟨"b", .number (.ofRatio false 2 1), .onFirstLine 15 19⟩]
  location := .onFirstLine 0 22

theorem spaced_locations_cover :
    (Dialect.request.parse ⟨"", 1, 48⟩ spacedRequestText = .ok spacedRequest ∧
      ∃ tokens, tokenize .request spacedRequestText = .ok tokens ∧
        spacedRequest.IsAt "" tokens.list ∧ spacedRequest.Nested ∧
        spacedRequest.Rereads spacedRequestText) ∧
    Dialect.response.parse ⟨"", 1, 48⟩ spacedResponseText = .ok spacedResponse ∧
      ∃ tokens, tokenize .response spacedResponseText = .ok tokens ∧
        spacedResponse.IsAt "" tokens.list ∧
        spacedResponse.location.Nests (spacedResponse.fields.map (·.location)) ∧
        spacedResponse.Rereads spacedResponseText := by
  have hrequest : Dialect.request.parse ⟨"", 1, 48⟩ spacedRequestText = .ok spacedRequest := by
    decide +kernel
  have hresponse : Dialect.response.parse ⟨"", 1, 48⟩ spacedResponseText = .ok spacedResponse := by
    decide +kernel
  exact ⟨⟨hrequest, (locations_cover ⟨"", 1, 48⟩ spacedRequestText).1 _ hrequest⟩, hresponse,
    (locations_cover ⟨"", 1, 48⟩ spacedResponseText).2 _ hresponse⟩

end ObjectTransfer
