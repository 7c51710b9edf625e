import ObjectTransfer.Proofs.Procedure.Levels
import ObjectTransfer.Proofs.Procedure.Limits
import ObjectTransfer.Proofs.Safety
import ObjectTransfer.Proofs.Schema.Nesting

/-!
# Limits are filters

The limit on the size of a text refuses the larger texts and makes no difference to the others. The
limit on nesting refuses the schemas in which a type is nested too deep, at the first such type, and
makes no difference to the others (`Dialect.limits_filter`).
-/

namespace ObjectTransfer

/-- The first type of the log that is begun with `bound` types open is begun at the moment `deep`. -/
def Moment.IsFirstDeep (bound : Nat) (log : List Note) (deep : Moment) : Prop :=
  ∃ seen others, log = seen ++ .begins deep :: others ∧ deep.depth = bound ∧
    ∀ note ∈ seen, ¬ note.IsDeep bound

theorem Moment.IsFirstDeep.mem {bound : Nat} {log : List Note} {deep : Moment}
    (h : deep.IsFirstDeep bound log) : .begins deep ∈ log := by
  obtain ⟨seen, others, rfl, -⟩ := h
  exact List.mem_append_right seen List.mem_cons_self

/-- A limit on nesting is told of only where a type is too deep. -/
theorem Stop.toError_eq_of_not_isTooDeep {stop : Stop} (h : ¬ stop.failure.IsTooDeep)
    (bound limit : Nat) : stop.toError limit = stop.toError bound := by
  obtain ⟨failure, reached⟩ := stop
  cases failure with
  | unexpected expected place => rfl
  | tooDeep place => exact absurd trivial h

theorem Stop.isTooDeep_of_toError {stop : Stop} {limit bound : Nat} {p : Position}
    (h : stop.toError limit = .nestingTooDeep bound p) : stop.failure.IsTooDeep := by
  obtain ⟨failure, reached⟩ := stop
  cases failure with
  | unexpected expected place => exact absurd h (by simp [toError, Failure.toError])
  | tooDeep place => trivial

/-- The tokens of a text start in order, and none starts behind the end of the text. -/
theorem pairwise_starts_of_tokenize {d : Dialect} {source : String} {tokens : Tokens}
    (h : tokenize d source = .ok tokens) :
    tokens.stream.starts.Pairwise (·.offset ≤ ·.offset) := by
  have horder := inOrder_of_tokenize h
  refine List.pairwise_append.mpr ⟨List.pairwise_map.mpr ?_, List.pairwise_singleton _ _, ?_⟩
  · refine horder.apart.imp_of_mem fun {t u} ht _ hle => ?_
    exact Nat.le_trans (Nat.le_of_lt (horder.size t ht)) hle
  · refine List.forall_mem_map.mpr fun t ht => List.forall_mem_singleton.mpr ?_
    exact offset_le_of_tokenize h t ht

namespace Dialect

variable {d : Dialect} {options : Options} {source : String} {tokens : Tokens} {limit : Nat}
  {log : List Note}

/-! ## Size -/

/-- The limit on the size of a text is checked first, and nowhere else. -/
theorem parse_eq_inputTooLarge {bytes actual : Nat} :
    d.parse options source = .error (.inputTooLarge bytes actual) ↔
      options.maxInputBytes < source.utf8ByteSize ∧ bytes = options.maxInputBytes ∧
        actual = source.utf8ByteSize := by
  constructor
  · intro h
    rcases parse_error_cases h with ⟨hlt, he⟩ | ⟨lexical, -, he⟩ | ⟨tokens, stop, -, -, he⟩
    · obtain ⟨rfl, rfl⟩ := ParseError.inputTooLarge.inj he
      exact ⟨hlt, rfl, rfl⟩
    · exact absurd he (by simp)
    · have hposition := stop.position?_toError options.maxDepth
      rw [← he] at hposition
      exact absurd hposition (by simp [ParseError.position?])
  · rintro ⟨hlt, rfl, rfl⟩
    unfold parse run
    rw [if_pos hlt]

theorem parse_of_maxInputBytes {bytes : Nat} (hsize : source.utf8ByteSize ≤ options.maxInputBytes)
    (hbytes : source.utf8ByteSize ≤ bytes) :
    d.parse { options with maxInputBytes := bytes } source = d.parse options source := by
  have hother : d.parse { options with maxInputBytes := bytes } source = _ := parse_of_size_le hbytes
  rw [parse_of_size_le hsize, hother]
  cases d <;> rfl

/-! ## Nesting -/

theorem parse_of_reads {o : Outcome d.Document} (h : d.Reads options tokens.stream log o)
    (htokens : tokenize d source = .ok tokens)
    (hsize : source.utf8ByteSize ≤ options.maxInputBytes) :
    d.parse options source = o.value.mapError (Stop.toError options.maxDepth) := by
  rw [parse_of_size_le hsize, htokens]
  simp only [result_eq_of_reads h]

/-- A lower limit on nesting makes no difference, or it refuses the tokens at the first type that is
nested too deep. -/
theorem reads_lower {s : TokenStream} {o : Outcome d.Document} (hlimit : options.maxDepth ≤ limit)
    (h : d.Reads { options with maxDepth := limit } s log o) :
    (d.Reads options s log o ∧ ¬ o.IsTooDeep) ∨
      ∃ deep : Moment, deep.IsFirstDeep options.maxDepth log ∧
        ∃ seen, d.Reads options s seen deep.tooDeep := by
  have hdepth : (Moment.mk s 0).depth ≤ options.maxDepth := Nat.zero_le _
  rcases h.lower hlimit hdepth with ⟨hshallow, hrun⟩ | ⟨seen, deep, others, hlog, hdeep, hseen, hcut⟩
  · refine .inl ⟨hrun, fun ho => ?_⟩
    obtain ⟨note, hnote, hnoteDeep⟩ := hrun.exists_isDeep ho
    exact hshallow note hnote hnoteDeep
  · exact .inr ⟨deep, ⟨seen, others, hlog, hdeep, hseen⟩, _, hcut⟩

/-- What a lower limit on nesting makes of a text: the same, or an error at the first type that is
nested too deep. -/
theorem parse_lower (hsize : source.utf8ByteSize ≤ options.maxInputBytes)
    (hlimit : options.maxDepth ≤ limit) :
    (d.parse { options with maxDepth := limit } source = d.parse options source ∧
      ∀ bound p, d.parse options source ≠ .error (.nestingTooDeep bound p)) ∨
    ∃ tokens log o deep, tokenize d source = .ok tokens ∧
      d.Reads { options with maxDepth := limit } tokens.stream log o ∧
      Moment.IsFirstDeep options.maxDepth log deep ∧
      d.parse options source = .error (.nestingTooDeep options.maxDepth deep.place.position) := by
  cases htokens : tokenize d source with
  | error e =>
    have hother : d.parse { options with maxDepth := limit } source = _ := parse_of_size_le hsize
    rw [hother, parse_of_size_le hsize, htokens]
    exact .inl ⟨rfl, fun bound p => by simp⟩
  | ok tokens =>
    obtain ⟨log, o, hrun, -⟩ := exists_run d { options with maxDepth := limit } tokens.stream
    rcases reads_lower hlimit hrun with ⟨hsame, hshallow⟩ | ⟨deep, hfirst, seen, hcut⟩
    · refine .inl ?_
      rw [parse_of_reads hrun htokens hsize, parse_of_reads hsame htokens hsize]
      cases o with
      | ok found => exact ⟨rfl, fun bound p => by simp [Outcome.value, Except.mapError]⟩
      | error stop =>
        refine ⟨congrArg _ (Stop.toError_eq_of_not_isTooDeep hshallow _ _), fun bound p h => ?_⟩
        exact hshallow (Stop.isTooDeep_of_toError (Except.error.inj h))
    · exact .inr ⟨tokens, log, o, deep, rfl, hrun, hfirst, parse_of_reads hcut htokens hsize⟩

/-- A run that is stopped is not stopped before a type that it has begun. -/
theorem offset_le_of_begins {stop : Stop} (htokens : tokenize d source = .ok tokens)
    (h : d.Reads options tokens.stream log (.error stop)) {deep : Moment}
    (hdeep : .begins deep ∈ log) :
    deep.place.position.offset ≤ stop.failure.place.position.offset := by
  obtain ⟨-, hpast⟩ := h.past deep hdeep
  rcases hpast with hfailure | hfailure | hlength
  · rw [hfailure]
    exact Nat.le_refl _
  · rw [hfailure]
    exact Nat.le_refl _
  · obtain ⟨⟨before, hbefore⟩, hreached⟩ := exists_after_stop (result_eq_of_reads h)
    have hblamed : stop.failure.place.rest.length ≤ deep.place.rest.length := by
      rcases hreached with heq | ⟨⟨kind, hnext⟩, heq⟩
      · rw [heq] at hlength
        exact Nat.le_of_lt hlength
      · have hdrop := TokenStream.length_rest_eq_succ hnext
        rw [heq] at hlength
        omega
    have hwithin : Note.Within ⟨tokens.stream, 0⟩ (.begins deep) := h.within.1 _ hdeep
    have hindex : tokens.list.length - deep.place.rest.length ≤ before.length := by
      have hrest : tokens.list.length = _ := hbefore.length_rest_eq
      omega
    exact offset_le_of_pairwise (pairwise_starts_of_tokenize htokens) hindex
      hwithin.place.isAt.position hbefore.getElem?_starts

end Dialect

/-! ## Schemas -/

namespace Schema

variable {options : Options} {limit : Nat} {source : String}

/-- A schema is read exactly if it is read with a larger limit on nesting and no type in it is nested
too deep. -/
theorem parse_eq_ok_iff_nesting (hlimit : options.maxDepth ≤ limit) {doc : Document} :
    Dialect.schema.parse options source = .ok doc ↔
      Dialect.schema.parse { options with maxDepth := limit } source = .ok doc ∧
        ∀ text ∈ doc.types, nesting text ≤ options.maxDepth := by
  constructor
  · intro h
    obtain ⟨hsize, tokens, htokens, hread⟩ := Dialect.parse_eq_ok.mp h
    obtain ⟨tree, hkinds, hwithin, rfl⟩ := Derivation.Document.sound hread
    have hlexical : Lexical .schema tree.kinds := hkinds ▸ lexical_of_tokenize htokens
    have hdeeper := Derivation.Document.complete (hwithin.mono hlimit) hkinds.symm
    exact ⟨Dialect.parse_eq_ok.mpr ⟨hsize, tokens, htokens, hdeeper⟩,
      (Derivation.Document.within_iff hlexical).mp hwithin⟩
  · rintro ⟨h, hnesting⟩
    obtain ⟨hsize, tokens, htokens, hread⟩ := Dialect.parse_eq_ok.mp h
    obtain ⟨tree, hkinds, -, rfl⟩ := Derivation.Document.sound hread
    have hlexical : Lexical .schema tree.kinds := hkinds ▸ lexical_of_tokenize htokens
    have hwithin := (Derivation.Document.within_iff hlexical).mpr hnesting
    exact Dialect.parse_eq_ok.mpr ⟨hsize, tokens, htokens,
      Derivation.Document.complete hwithin hkinds.symm⟩

/-- What the limit on nesting makes of a schema, compared with the larger limit `limit`. -/
structure Filtered (options : Options) (source : String) (limit : Nat) : Prop where
  /-- What is read is what is read with the larger limit, if no type of it is nested too deep. -/
  read : ∀ doc, Dialect.schema.parse options source = .ok doc ↔
    Dialect.schema.parse { options with maxDepth := limit } source = .ok doc ∧
      ∀ text ∈ doc.types, nesting text ≤ options.maxDepth
  /-- The limits come to the same, unless the lower one says that nesting is too deep. -/
  same : (∀ bound p, Dialect.schema.parse options source ≠ .error (.nestingTooDeep bound p)) →
    Dialect.schema.parse { options with maxDepth := limit } source =
      Dialect.schema.parse options source
  /-- If it does, it says so at the first type that is begun with as many types open as it allows. With
  the larger limit the text is read, or the error is not before that place. -/
  tooDeep : ∀ bound p, Dialect.schema.parse options source = .error (.nestingTooDeep bound p) →
    bound = options.maxDepth ∧
    (∃ tokens log o deep, tokenize .schema source = .ok tokens ∧
      Dialect.schema.Reads { options with maxDepth := limit } tokens.stream log o ∧
      Moment.IsFirstDeep options.maxDepth log deep ∧ p = deep.place.position) ∧
    match Dialect.schema.parse { options with maxDepth := limit } source with
      | .ok _ => True
      | .error e => ∃ q, e.position? = some q ∧ p.offset ≤ q.offset
  /-- Wherever a type is begun, as many types are open as angle brackets. -/
  levels : ∀ tokens log o, tokenize .schema source = .ok tokens →
    Dialect.schema.Reads { options with maxDepth := limit } tokens.stream log o →
      ∀ now, .begins now ∈ log →
        ∃ passed, tokens.list = passed ++ now.place.rest ∧ Opens passed now.depth

theorem filtered (hsize : source.utf8ByteSize ≤ options.maxInputBytes)
    (hlimit : options.maxDepth ≤ limit) : Filtered options source limit where
  read _ := parse_eq_ok_iff_nesting hlimit
  same h := by
    rcases Dialect.parse_lower hsize hlimit with ⟨hsame, -⟩ | ⟨_, _, _, _, -, -, -, hdeep⟩
    · exact hsame
    · exact absurd hdeep (h _ _)
  tooDeep bound p h := by
    rcases Dialect.parse_lower hsize hlimit with
      ⟨-, hshallow⟩ | ⟨tokens, log, o, deep, htokens, hrun, hfirst, hdeep⟩
    · exact absurd h (hshallow bound p)
    · obtain ⟨rfl, rfl⟩ := ParseError.nestingTooDeep.inj (Except.error.inj (h.symm.trans hdeep))
      refine ⟨rfl, ⟨tokens, log, o, deep, htokens, hrun, hfirst, rfl⟩, ?_⟩
      rw [Dialect.parse_of_reads hrun htokens hsize]
      cases o with
      | ok found => trivial
      | error stop =>
        exact ⟨_, stop.position?_toError limit, Dialect.offset_le_of_begins htokens hrun hfirst.mem⟩
  levels tokens log o htokens hrun now hnow := opens_of_begins hrun hnow

end Schema

/-- The limits are filters. A text is too large exactly if it has more bytes than allowed, and else its
size does not matter. A limit on nesting refuses the schemas with a type that is nested too deep, at the
first such type, and else it does not matter. -/
theorem Dialect.limits_filter (options : Options) (source : String) :
    (∀ d : Dialect,
      (∀ bytes actual, d.parse options source = .error (.inputTooLarge bytes actual) ↔
        options.maxInputBytes < source.utf8ByteSize ∧ bytes = options.maxInputBytes ∧
          actual = source.utf8ByteSize) ∧
      ∀ bytes, source.utf8ByteSize ≤ options.maxInputBytes → source.utf8ByteSize ≤ bytes →
        d.parse { options with maxInputBytes := bytes } source = d.parse options source) ∧
    (source.utf8ByteSize ≤ options.maxInputBytes → ∀ limit, options.maxDepth ≤ limit →
      Schema.Filtered options source limit) :=
  ⟨fun _ => ⟨fun _ _ => parse_eq_inputTooLarge, fun _ => parse_of_maxInputBytes⟩,
    fun hsize _ hlimit => Schema.filtered hsize hlimit⟩

/-- A model with a type that is nested four deep. -/
def nestedText : String := "Model M \x7b a: A<B<C<D>>> \x7d"

/-- Three levels are too few for it, and the innermost type is blamed. -/
theorem nested_filtered :
    let options : Options := { Options.standard with maxDepth := 3 }
    nestedText.utf8ByteSize ≤ options.maxInputBytes ∧
      Dialect.schema.parse options nestedText = .error (.nestingTooDeep 3 ⟨19, 1, 20⟩) ∧
      (∃ doc, Dialect.schema.parse { options with maxDepth := 4 } nestedText = .ok doc) ∧
      Schema.Filtered options nestedText 4 := by
  intro options
  have hsize : nestedText.utf8ByteSize ≤ options.maxInputBytes := by decide +kernel
  refine ⟨hsize, by decide +kernel, ⟨[.model ⟨"M", none, [⟨"a", "A<B<C<D>>>", true, none⟩], []⟩], ?_⟩,
    (Dialect.limits_filter options nestedText).2 hsize 4 (by decide)⟩
  decide +kernel

end ObjectTransfer
