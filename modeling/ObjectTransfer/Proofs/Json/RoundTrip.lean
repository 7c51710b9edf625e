import ObjectTransfer.Proofs.Json.Errors
import ObjectTransfer.Proofs.Request.Locations
import ObjectTransfer.Proofs.Request.RoundTrip
import ObjectTransfer.Proofs.Response.Locations
import ObjectTransfer.Proofs.Response.RoundTrip
import ObjectTransfer.Proofs.Safety
import ObjectTransfer.Proofs.Schema.RoundTrip

/-!
# What is read survives JSON

A document is equal to what is read back from its JSON exactly if all its numbers are finite, and an
error always is (`Dialect.survives_json`). What comes of reading a text is of this kind: numbers that
are not finite are refused as tokens, and all counts are bounded by the size of the text and by the
limits, which fit into words.
-/

namespace ObjectTransfer

open Json (FitsWord)

/-! ## Counts of a text -/

theorem splitAtByte?_eq_some {seen part rest cs : List Char} {size : Nat}
    (h : splitAtByte? seen size cs = some (part, rest)) : seen.reverse ++ cs = part ++ rest := by
  induction cs generalizing seen size with
  | nil =>
    unfold splitAtByte? at h
    split at h
    · obtain ⟨rfl, rfl⟩ := Prod.mk.inj (Option.some.inj h)
      rfl
    · exact absurd h (by simp)
  | cons c cs ih =>
    unfold splitAtByte? at h
    split_ifs at h
    · obtain ⟨rfl, rfl⟩ := Prod.mk.inj (Option.some.inj h)
      rfl
    · rw [← ih h, List.reverse_cons, List.append_assoc]
      rfl

/-- What stands before a place is the front of the text. -/
theorem exists_of_byteSlice? {source before : String} {offset : Nat}
    (h : byteSlice? source 0 offset = some before) :
    ∃ rest, source.toList = before.toList ++ rest := by
  have hzero : splitAtByte? [] 0 source.toList = some ([], source.toList) := by
    cases source.toList <;> rfl
  unfold byteSlice? at h
  rw [if_neg (Nat.not_lt_zero _), hzero] at h
  obtain ⟨⟨front, whole⟩, hwhole, h⟩ := Option.bind_eq_some_iff.mp h
  obtain ⟨-, rfl⟩ := Prod.mk.inj (Option.some.inj hwhole)
  obtain ⟨⟨part, rest⟩, hpart, hbefore⟩ := Option.bind_eq_some_iff.mp h
  refine ⟨rest, ?_⟩
  rw [← Option.some.inj hbefore, String.toList_ofList]
  exact splitAtByte?_eq_some hpart

/-- A character has a byte at least. -/
theorem length_le_utf8Len (cs : List Char) : cs.length ≤ String.utf8Len cs := by
  induction cs with
  | nil => exact Nat.le_refl _
  | cons c cs ih =>
    have hsize := c.utf8Size_pos
    rw [List.length_cons, String.utf8Len_cons]
    omega

theorem length_afterLastFeed_le (cs : List Char) : (afterLastFeed cs).length ≤ cs.length := by
  unfold afterLastFeed
  rw [List.length_reverse]
  have hle := (List.takeWhile_prefix (· ≠ '\n') (l := cs.reverse)).length_le
  rwa [List.length_reverse] at hle

/-- The counts of a place are bounded by the size of the text. -/
theorem Position.IsPlaceOf.fitsWords {p : Position} {source : String} (h : p.IsPlaceOf source)
    (hsize : source.utf8ByteSize < Nat.pow 2 63) : p.FitsWords := by
  obtain ⟨before, hbefore, hline, hcolumn⟩ := h.counted
  obtain ⟨rest, hsource⟩ := exists_of_byteSlice? hbefore
  have hlength : before.toList.length ≤ source.utf8ByteSize := by
    have hle := length_le_utf8Len source.toList
    rw [String.utf8Len_toList, hsource, List.length_append] at hle
    omega
  have hcount : before.toList.count '\n' ≤ before.toList.length := List.count_le_length
  have hlast := length_afterLastFeed_le before.toList
  have hinside := h.inside
  have hwords : Nat.pow 2 63 + 1 ≤ Nat.pow 2 64 := by decide
  refine ⟨?_, ?_, ?_⟩
  · show p.offset < Nat.pow 2 64
    omega
  · show p.line < Nat.pow 2 64
    omega
  · show p.column < Nat.pow 2 64
    omega

/-- Every token of a text stands between places of it. -/
theorem fitsWords_of_tokenize {d : Dialect} {source : String} {tokens : Tokens}
    (h : tokenize d source = .ok tokens) (hsize : source.utf8ByteSize < Nat.pow 2 63) :
    ∀ t ∈ tokens.list, t.start.FitsWords ∧ t.finish.FitsWords := by
  obtain ⟨last, finish, hpasses, -⟩ := Cursor.passes_of_tokenize h
  intro t ht
  have hin := hpasses.isIn (Cursor.reads_refl _) t ht
  exact ⟨hin.start.fitsWords hsize, hin.finish.fitsWords hsize⟩

/-! ## Locations of a document -/

section

variable {name : String} {own : List Token}

theorem Location.Covers.fitsWords {l : Location} (h : l.Covers name own)
    (hown : ∀ t ∈ own, t.start.FitsWords ∧ t.finish.FitsWords) : l.FitsWords := by
  obtain ⟨first, last, -, -, hfirst, hlast, hstart, hfinish⟩ := h.exists_ends
  refine ⟨?_, ?_⟩
  · rw [hstart]
    exact (hown first hfirst).1
  · rw [hfinish]
    exact (hown last hlast).2

theorem Spread.fitsWords {ls : List Location} (h : Spread (fun l own => l.Covers name own) ls own)
    (hown : ∀ t ∈ own, t.start.FitsWords ∧ t.finish.FitsWords) : ∀ l ∈ ls, l.FitsWords := by
  intro l hl
  obtain ⟨part, hpart, hcovers⟩ := h.exists_part l hl
  exact hcovers.fitsWords fun t ht => hown t (hpart.subset ht)

theorem Request.IsAt.fitsWords {r : Request} (h : r.IsAt name own)
    (hown : ∀ t ∈ own, t.start.FitsWords ∧ t.finish.FitsWords) :
    ∀ l ∈ r.locations, l.FitsWords := by
  obtain ⟨front, back, rfl, hfilters, hsteps⟩ := h.parts
  obtain ⟨hfront, hback⟩ := List.forall_mem_append.mp hown
  have hstep : ∀ s ∈ r.steps, ∀ l ∈ s.locations, l.FitsWords := by
    intro s hs
    obtain ⟨part, hpart, hat⟩ := hsteps.exists_part s hs
    have hplaces : ∀ t ∈ part, t.start.FitsWords ∧ t.finish.FitsWords :=
      fun t ht => hback t (hpart.subset ht)
    exact List.forall_mem_cons.mpr ⟨hat.covers.fitsWords hplaces,
      (Entry.spread_covers hat.filters).fitsWords hplaces⟩
  exact List.forall_mem_cons.mpr ⟨h.covers.fitsWords hown, List.forall_mem_append.mpr
    ⟨(Entry.spread_covers hfilters).fitsWords hfront, List.forall_mem_flatMap.mpr hstep⟩⟩

theorem Response.IsAt.fitsWords {r : Response} (h : r.IsAt name own)
    (hown : ∀ t ∈ own, t.start.FitsWords ∧ t.finish.FitsWords) :
    ∀ l ∈ r.locations, l.FitsWords :=
  List.forall_mem_cons.mpr ⟨h.covers.fitsWords hown, (Entry.spread_covers h.fields).fitsWords hown⟩

end

/-! ## Equal documents -/

theorem Literal.equals_self {l : Literal} (h : l.IsFinite) : l.equals l := by
  cases l with
  | number x =>
    have hfinite : x.isFinite = true := h
    have hvalue : x.isNaN = false := by
      simp only [Double.isFinite, decide_eq_true_eq] at hfinite
      simp only [Double.isNaN, decide_eq_false_iff_not]
      omega
    simp [equals, Double.equals, hvalue]
  | string s => simp [equals]
  | boolean b => simp [equals]
  | null => simp [equals]

theorem isEqv_self {α : Type} {equals : α → α → Bool} {as : List α} (h : ∀ a ∈ as, equals a a) :
    as.isEqv as equals := by
  induction as with
  | nil => rfl
  | cons a as ih =>
    obtain ⟨hfirst, hothers⟩ := List.forall_mem_cons.mp h
    simp [List.isEqv, hfirst, ih hothers]

/-- Entries with finite numbers are equal to themselves. -/
theorem Entry.isEqv_self {entries : List Entry} (h : ∀ l ∈ entries.map (·.value), l.IsFinite) :
    entries.isEqv entries equals := by
  apply ObjectTransfer.isEqv_self
  intro e he
  simp [equals, Literal.equals_self (h e.value (List.mem_map_of_mem he))]

theorem Schema.Definition.equals_self {definition : Definition}
    (h : ∀ l ∈ definition.literals, l.IsFinite) : definition.equals definition := by
  cases definition with
  | model m =>
    have hattributes : m.attributes.isEqv m.attributes Attribute.equals := by
      apply isEqv_self
      intro a ha
      have hdefault := List.forall_mem_flatMap.mp h a ha
      cases hvalue : a.default? with
      | none => simp [Attribute.equals, hvalue]
      | some l =>
        have hfinite : l.IsFinite := hdefault l (by simp [hvalue])
        simp [Attribute.equals, hvalue, Literal.equals_self hfinite]
    simp [equals, hattributes]
  | union u => simp [equals]

theorem Request.equals_self {r : Request} (h : ∀ l ∈ r.literals, l.IsFinite) : r.equals r := by
  obtain ⟨hfilters, hsteps⟩ := List.forall_mem_append.mp h
  have hstep : r.steps.isEqv r.steps Step.equals := by
    apply isEqv_self
    intro s hs
    have hentries := Entry.isEqv_self (List.forall_mem_flatMap.mp hsteps s hs)
    simp [Step.equals, hentries]
  simp [equals, Entry.isEqv_self hfilters, hstep]

theorem Response.equals_self {r : Response} (h : ∀ l ∈ r.literals, l.IsFinite) : r.equals r := by
  simp [equals, Entry.isEqv_self h]

namespace Dialect

variable {d : Dialect} {options : Options} {source : String} {document : d.Document}

/-- A document with finite numbers is equal to itself. -/
theorem equals_self (h : ∀ l ∈ d.literals document, l.IsFinite) : d.equals document document := by
  cases d with
  | schema =>
    apply isEqv_self
    intro definition hmem
    exact Schema.Definition.equals_self (List.forall_mem_flatMap.mp h definition hmem)
  | request => exact Request.equals_self h
  | response => exact Response.equals_self h

/-! ## Texts -/

/-- All numbers that are read are finite. -/
theorem isFinite_of_parse (h : d.parse options source = .ok document) :
    ∀ l ∈ d.literals document, l.IsFinite := by
  cases d with
  | schema =>
    have hwell := Schema.wellFormed_of_parse h (Nat.le_refl _)
    refine List.forall_mem_flatMap.mpr fun definition hmem => ?_
    cases definition with
    | model m =>
      have hm : m.WellFormed options.maxDepth := hwell _ hmem
      refine List.forall_mem_flatMap.mpr fun a ha l hl => ?_
      exact (hm.attributes a ha).value l (Option.mem_toList.mp hl)
    | union u => exact List.forall_mem_nil _
  | request =>
    have hwell := Request.wellFormed_of_parse h
    refine List.forall_mem_append.mpr ⟨?_, List.forall_mem_flatMap.mpr fun s hs => ?_⟩
    · exact List.forall_mem_map.mpr fun e he => (hwell.filters e he).value
    · exact List.forall_mem_map.mpr fun e he => ((hwell.steps s hs).filters e he).value
  | response =>
    have hwell := Response.wellFormed_of_parse h
    exact List.forall_mem_map.mpr fun e he => (hwell.fields e he).value

/-- All locations of what is read are bounded by the text. -/
theorem fitsWords_of_parse (h : d.parse options source = .ok document)
    (hsize : source.utf8ByteSize < Nat.pow 2 63) : ∀ l ∈ d.locations document, l.FitsWords := by
  obtain ⟨-, tokens, htokens, hread⟩ := parse_eq_ok.mp h
  have hplaces := fitsWords_of_tokenize htokens hsize
  cases d with
  | schema => exact List.forall_mem_nil _
  | request => exact (Request.isAt_of_result hread).fitsWords hplaces
  | response => exact (Response.isAt_of_result hread).fitsWords hplaces

theorem fitsWords_of_parse_error {e : ParseError} (h : d.parse options source = .error e)
    (hdepth : FitsWord options.maxDepth) (hbytes : FitsWord options.maxInputBytes)
    (hsize : source.utf8ByteSize < Nat.pow 2 63) : e.FitsWords := by
  refine ⟨fun p hp => (isPlaceOf_of_parse h p hp).fitsWords hsize, ?_⟩
  rcases parse_error_cases h with ⟨-, rfl⟩ | ⟨lexical, -, rfl⟩ | ⟨tokens, stop, -, -, rfl⟩
  · have hactual : FitsWord source.utf8ByteSize := Nat.lt_trans hsize (by decide)
    exact List.forall_mem_cons.mpr ⟨hbytes, List.forall_mem_singleton.mpr hactual⟩
  · exact List.forall_mem_nil _
  · obtain ⟨failure, reached⟩ := stop
    cases failure with
    | unexpected expected place => exact List.forall_mem_nil _
    | tooDeep place => exact List.forall_mem_singleton.mpr hdepth

/-- A document is equal to what is read back from its JSON exactly if all its numbers are finite, and
else nothing is read back. An error is read back as it was. So whatever comes of reading a text is read
back. Counts are machine words, as the limits and the size of a text are. -/
theorem survives_json (d : Dialect) :
    (∀ document : d.Document, (∀ l ∈ d.locations document, l.FitsWords) →
      ((∃ found, d.decode? (d.encode document) = some found ∧ d.equals found document) ↔
        ∀ l ∈ d.literals document, l.IsFinite) ∧
      ((∃ l ∈ d.literals document, ¬ l.IsFinite) → d.decode? (d.encode document) = none)) ∧
    (∀ e : ParseError, e.FitsWords → ParseError.decode? e.encode = some e) ∧
    ∀ (options : Options) (source : String), FitsWord options.maxDepth →
      FitsWord options.maxInputBytes → source.utf8ByteSize < Nat.pow 2 63 →
      match d.parse options source with
      | .ok document =>
        d.decode? (d.encode document) = some document ∧ d.equals document document
      | .error e => ParseError.decode? e.encode = some e := by
  refine ⟨fun document hfits => ?_, fun e he => ParseError.decode?_encode he, ?_⟩
  · have hread := readsBack_document hfits
    refine ⟨⟨?_, fun hfinite => ⟨document, hread.found hfinite, equals_self hfinite⟩⟩, ?_⟩
    · rintro ⟨found, hfound, -⟩
      by_contra hinfinite
      rw [hread.missed hinfinite] at hfound
      exact absurd hfound (by simp)
    · rintro ⟨l, hl, hinfinite⟩
      exact hread.missed fun hfinite => hinfinite (hfinite l hl)
  · intro options source hdepth hbytes hsize
    cases hparse : d.parse options source with
    | ok document =>
      have hfinite := isFinite_of_parse hparse
      exact ⟨(readsBack_document (fitsWords_of_parse hparse hsize)).found hfinite,
        equals_self hfinite⟩
    | error e => exact ParseError.decode?_encode (fitsWords_of_parse_error hparse hdepth hbytes hsize)

/-- A response with an infinite number, which no text has. -/
def infiniteResponse : Response where
  type := "X"
  fields := [⟨"a", .number ⟨false, ⟨Double.infinityCode, by decide⟩⟩, .onFirstLine 3 7⟩]
  location := .onFirstLine 0 9

/-- A model with a name and an attribute that are named as the member that tells its kind. -/
def typedSchema : Schema.Document :=
  [.model ⟨"type", none, [⟨"type", "Int", false, some (.number (.ofRatio true 0 1))⟩], []⟩]

theorem typedSchema_survives_json :
    Dialect.schema.parse ⟨"", 1, 32⟩ "Model type \x7b type: Int = -0 \x7d" = .ok typedSchema ∧
      Dialect.schema.decode? (Dialect.schema.encode typedSchema) = some typedSchema ∧
      Dialect.response.decode? (Dialect.response.encode infiniteResponse) = none := by
  have hparse : Dialect.schema.parse ⟨"", 1, 32⟩ "Model type \x7b type: Int = -0 \x7d" =
      .ok typedSchema := by decide +kernel
  have hread := (survives_json .schema).2.2 ⟨"", 1, 32⟩ "Model type \x7b type: Int = -0 \x7d"
    (by decide) (by decide) (by decide)
  rw [hparse] at hread
  have hfits : ∀ l ∈ Dialect.response.locations infiniteResponse, l.FitsWords := by decide
  have hinfinite : ¬ (⟨false, ⟨Double.infinityCode, by decide⟩⟩ : Double).isFinite := by decide
  exact ⟨hparse, hread.1, ((survives_json .response).1 infiniteResponse hfits).2
    ⟨_, List.mem_cons_self, hinfinite⟩⟩

end Dialect
end ObjectTransfer
