import ObjectTransfer.Proofs.CorrectPrefix
import ObjectTransfer.Proofs.Token.Passing
import ObjectTransfer.Proofs.Token.Truncated

/-!
# Texts that are cut short

A text that is read may be cut anywhere. What is left has no tokens, or is read, or does not fit the
notation, and then its last token or the end of the text is blamed (`endsLate_of_append`). An
earlier token cannot be blamed: the whole text has the same tokens up to there, and a mismatch there
would have been one in the whole text. For the same reason nothing is nested too deep in what is
left.
-/

namespace ObjectTransfer

/-! ## Tokens in front of a cut -/

section

variable {cut whole : List Token.Kind}

/-- Only the last token in front of a cut can differ from that of the whole text, in more than the
value of a number. -/
theorem CutShort.exists_common (h : CutShort cut whole) (hcut : cut ≠ []) :
    ∃ common last others, cut.map Token.Kind.shape = common ++ [last] ∧
      whole.map Token.Kind.shape = common ++ others := by
  induction h with
  | ended => exact absurd rfl hcut
  | @same kind cut whole h ih =>
    by_cases hnil : cut = []
    · subst hnil
      exact ⟨[], _, _, rfl, rfl⟩
    · obtain ⟨common, last, others, hlast, hothers⟩ := ih hnil
      refine ⟨kind.shape :: common, last, others, ?_, ?_⟩
      · rw [List.map_cons, hlast, List.cons_append]
      · rw [List.map_cons, hothers, List.cons_append]
  | last => exact ⟨[], _, _, rfl, rfl⟩
  | point x y whole => exact ⟨[Token.Kind.shape (.literal (.number x))], _, _, rfl, rfl⟩

/-- Marks in front of a cut are those of the whole text, but for the point that a number leaves
over. -/
theorem CutShort.prefix_of_mark (h : CutShort cut whole) {before : List Token.Kind} {m : Mark}
    (hm : m ≠ .dot) (hlast : cut = before ++ [.mark m]) : cut <+: whole := by
  induction h generalizing before with
  | ended => exact List.nil_prefix
  | @same kind cut whole h ih =>
    refine List.cons_prefix_cons.mpr ⟨rfl, ?_⟩
    cases before with
    | nil =>
      obtain rfl := (List.cons.inj hlast).2
      exact List.nil_prefix
    | cons first others => exact ih (List.cons.inj hlast).2
  | @last kind hmark whole =>
    have hkind := congrArg List.getLast? hlast
    rw [List.getLast?_append] at hkind
    exact absurd (Option.some.inj hkind) (hmark m)
  | point x y whole =>
    have hkind := congrArg List.getLast? hlast
    rw [List.getLast?_append] at hkind
    exact absurd (Token.Kind.mark.inj (Option.some.inj hkind)).symm hm

end

namespace TokenStream

variable {s s' : TokenStream}

/-- The last token in front of a cut and the end of the text behind it can tell apart. -/
theorem alike_of_cutShort (h : CutShort s.kinds s'.kinds) (hcut : s.kinds ≠ []) :
    s.Alike 2 s' := by
  obtain ⟨common, last, others, hlast, hothers⟩ := h.exists_common hcut
  refine ⟨common.map some, [some last, none], others.map some ++ [none], ?_, ?_, rfl⟩
  · rw [shapes_eq, hlast, List.map_append, List.append_assoc]
    rfl
  · rw [shapes_eq, hothers, List.map_append, List.append_assoc]

/-- Where a mark stands last in front of a cut, only the end of the text can tell apart. -/
theorem alike_of_cutShort_of_mark (h : CutShort s.kinds s'.kinds) {before : List Token.Kind}
    {m : Mark} (hm : m ≠ .dot) (hlast : s.kinds = before ++ [.mark m]) : s.Alike 1 s' := by
  obtain ⟨others, hothers⟩ := h.prefix_of_mark hm hlast
  refine ⟨(s.kinds.map Token.Kind.shape).map some, [none],
    (others.map Token.Kind.shape).map some ++ [none], shapes_eq s, ?_, rfl⟩
  rw [shapes_eq, ← hothers, List.map_append, List.map_append, List.append_assoc]

/-- A place with at most one token left is at the last token or at the end of the text. -/
theorem offset_le_position {place : TokenStream} (h : place.Follows s)
    (hlength : place.rest.length ≤ 1) (hfinish : ∀ t ∈ s.rest, t.start.offset ≤ s.finish.offset) :
    ∀ last ∈ s.rest.getLast?, last.start.offset ≤ place.position.offset := by
  intro last hlast
  obtain ⟨read, hread⟩ := h.rest
  unfold position
  cases hrest : place.rest with
  | nil =>
    show last.start.offset ≤ place.finish.offset
    rw [h.finish]
    exact hfinish last (List.mem_of_getLast? hlast)
  | cons t ts =>
    have hts : ts = [] := by
      rw [hrest, List.length_cons] at hlength
      exact List.length_eq_zero_iff.mp (by omega)
    rw [← hread, hrest, hts, List.getLast?_append] at hlast
    obtain rfl := Option.some.inj hlast
    exact Nat.le_refl _

end TokenStream

/-! ## Stops in front of a cut -/

namespace Dialect

open Phrase

variable {d : Dialect} {options : Options} {s s' : TokenStream} {stop : Stop}
  {document : d.Document}

/-- Where one of two streams that start alike is read, the other is stopped at what tells them
apart. -/
theorem unseen_lt_of_alike (hstop : (d.read options s).result = .error stop)
    (hread : (d.read options s').result = .ok document) {unseen : Nat}
    (hs : s.Alike unseen s') : stop.unseen < unseen := by
  by_contra hseen
  obtain ⟨stop', hstop', -⟩ := read_lockstep rfl hstop (Nat.not_lt.mp hseen) hs
  rw [hread] at hstop'
  exact absurd hstop' (by simp)

theorem unseen_lt_two (hshort : CutShort s.kinds s'.kinds)
    (hstop : (d.read options s).result = .error stop)
    (hread : (d.read options s').result = .ok document) (hcut : s.kinds ≠ []) : stop.unseen < 2 :=
  unseen_lt_of_alike hstop hread (TokenStream.alike_of_cutShort hshort hcut)

/-- No stop in front of a cut is found at a mark, which the whole text would have as well. -/
theorem unseen_ne_of_after_mark (hshort : CutShort s.kinds s'.kinds)
    (hstop : (d.read options s).result = .error stop)
    (hread : (d.read options s').result = .ok document) {place : TokenStream}
    {before : List Token.Kind} {m : Mark} (hm : m ≠ .dot)
    (hafter : place.After (before ++ [.mark m]) s) : stop.unseen ≠ place.rest.length + 1 := by
  intro hunseen
  have hcut : s.kinds ≠ [] := by
    rw [hafter.kinds]
    simp
  have hlast := unseen_lt_two hshort hstop hread hcut
  have hnil : place.kinds = [] := by
    rw [TokenStream.kinds_eq_nil, ← List.length_eq_zero_iff]
    omega
  have hkinds : s.kinds = before ++ [.mark m] := by rw [hafter.kinds, hnil, List.append_nil]
  have hmark := unseen_lt_of_alike hstop hread
    (TokenStream.alike_of_cutShort_of_mark hshort hm hkinds)
  omega

/-- A text that is cut short is stopped at its last token or at its end, not by its nesting. -/
theorem exists_place_of_cutShort (hshort : CutShort s.kinds s'.kinds)
    (hstop : (d.read options s).result = .error stop)
    (hread : (d.read options s').result = .ok document) :
    ∃ expected place, stop.failure = .unexpected expected place ∧ place.Follows s ∧
      (s.kinds ≠ [] → place.rest.length ≤ 1) := by
  have hlast (hcut : s.kinds ≠ []) := Nat.lt_succ_iff.mp (unseen_lt_two hshort hstop hread hcut)
  -- Types may be forbidden altogether, and then nothing completes what stands before a type.
  have hexplained := read_explained (Nat.le_max_left options.maxDepth 1)
    (Nat.lt_of_lt_of_le Nat.one_pos (Nat.le_max_right _ _)) hstop
  cases hexplained with
  | ended hafter hwhole => exact ⟨_, _, rfl, hafter.follows, hlast⟩
  | inside hinside =>
    cases hinside with
    | unexpected hafter hunmet hnamed hbegins =>
      rcases hunmet with ⟨-, rfl⟩ | ⟨-, ⟨kind, hnext⟩, rfl, hcolon⟩
      · exact ⟨_, _, rfl, hafter.follows, hlast⟩
      · -- An action is missed at a colon.
        have hbehind := (TokenStream.after_drop hcolon).trans
          ((TokenStream.after_drop hnext).trans hafter)
        exact absurd (TokenStream.length_rest_eq_succ hcolon)
          (unseen_ne_of_after_mark hshort hstop hread (by decide) hbehind)
    | tooDeep hm hafter =>
      -- A type stands behind a mark.
      exact absurd rfl (unseen_ne_of_after_mark hshort hstop hread hm hafter)

/-- What may come of reading a text that is cut short. What does not fit the notation is its last
token or its end. -/
def EndsLate (d : Dialect) (text : String) : Except ParseError d.Document → Prop
  | .ok _ => True
  | .error (.lexical _) => True
  | .error (.mismatch m) => ∃ tokens, tokenize d text = .ok tokens ∧
      ∀ last ∈ tokens.list.getLast?, last.start.offset ≤ m.position.offset
  | .error (.nestingTooDeep _ _) => False
  | .error (.inputTooLarge _ _) => False

/-- A text that is read may be cut anywhere. -/
theorem endsLate_of_append (d : Dialect) {options : Options} {before after : String}
    {document : d.Document} (h : d.parse options (before ++ after) = .ok document) :
    d.EndsLate before (d.parse options before) := by
  obtain ⟨hsize, tokens', htokens', hread⟩ := parse_eq_ok.mp h
  rw [String.utf8ByteSize_append] at hsize
  rw [parse_of_size_le (Nat.le_of_add_right_le hsize)]
  cases htokens : tokenize d before with
  | error e => trivial
  | ok tokens =>
    show d.EndsLate before (Except.mapError _ (d.read options tokens.stream).result)
    cases hresult : (d.read options tokens.stream).result with
    | ok found => trivial
    | error stop =>
      have hshort : CutShort tokens.stream.kinds tokens'.stream.kinds :=
        cutShort_of_tokenize htokens htokens'
      obtain ⟨expected, place, hfailure, hfollows, hlength⟩ :=
        exists_place_of_cutShort hshort hresult hread
      show d.EndsLate before (.error (stop.toError options.maxDepth))
      rw [Stop.toError, hfailure]
      refine ⟨tokens, htokens, fun last hlast => ?_⟩
      have hcut : tokens.stream.kinds ≠ [] := by
        intro hnil
        rw [TokenStream.kinds_eq_nil] at hnil
        have hmem : last ∈ tokens.stream.rest := List.mem_of_getLast? hlast
        rw [hnil] at hmem
        exact absurd hmem List.not_mem_nil
      exact TokenStream.offset_le_position hfollows (hlength hcut) (offset_le_of_tokenize htokens)
        last hlast

/-- What is read from `User(id: 1.5)`. -/
def userById : Request :=
  ⟨"User", [⟨"id", .number (.ofRatio false 3 2), .onFirstLine 5 12⟩], [], .onFirstLine 0 13⟩

/-- Where the cut goes through a number behind its point, the point is blamed. -/
theorem point_blamed :
    Dialect.request.parse ⟨"", 1, 13⟩ ("User(id: 1." ++ "5)") = .ok userById ∧
      Dialect.request.parse ⟨"", 1, 13⟩ "User(id: 1." =
        .error (.mismatch ⟨"')'", "'.'", ⟨10, 1, 11⟩⟩) ∧
      Dialect.request.EndsLate "User(id: 1."
        (Dialect.request.parse ⟨"", 1, 13⟩ "User(id: 1.") := by
  have hread : Dialect.request.parse ⟨"", 1, 13⟩ ("User(id: 1." ++ "5)") = .ok userById := by
    decide +kernel
  exact ⟨hread, by decide +kernel, endsLate_of_append .request hread⟩

end Dialect
end ObjectTransfer
