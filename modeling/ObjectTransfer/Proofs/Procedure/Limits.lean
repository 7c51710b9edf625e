import ObjectTransfer.Proofs.Procedure.Runs

/-!
# Runs under another limit

A limit on nesting is a filter: it lets a run go on as it is, or cuts it short at the first type that
would be nested too deep (`Procedure.Runs.lower`). Whatever happens behind that type happens at a later
place (`Procedure.Runs.past`).
-/

namespace ObjectTransfer

open Schema (TypeRef)

variable {α β σ : Type}

/-- Where the type is begun that has more than `limit` types open. -/
def Note.IsDeep (limit : Nat) : Note → Prop
  | .begins now => limit ≤ now.depth
  | .at _ | .read _ _ => False

/-- The outcome of a run that is cut short at the moment `now`, since a type is too deep there. -/
abbrev Moment.tooDeep (now : Moment) : Outcome α := .error ⟨.tooDeep now.place, now.place⟩

theorem Outcome.not_isDeep_of_mem_notes {limit : Nat} {before : TokenStream} {o : Outcome α} :
    ∀ note ∈ o.notes before, ¬ note.IsDeep limit := by
  cases o with
  | error stop => exact List.forall_mem_nil _
  | ok found => exact List.forall_mem_singleton.mpr id

namespace Procedure

variable {limit bound : Nat} {p : Procedure α} {q : Procedure β} {now now' : Moment}
  {log : List Note} {o : Outcome α}

/-- The run with the given log is cut short by the limit `bound`, at the first type that is nested
deeper. -/
def Cut (bound : Nat) (p : Procedure α) (now : Moment) (log : List Note) : Prop :=
  ∃ seen deep others, log = seen ++ .begins deep :: others ∧ deep.depth = bound ∧
    (∀ note ∈ seen, ¬ note.IsDeep bound) ∧ Runs bound p now (seen ++ [.begins deep]) deep.tooDeep

/-- What is cut short inside is cut short as a whole. -/
theorem Cut.within (h : Cut bound q now' log) (front back : List Note) {whole : List Note}
    (hwhole : whole = front ++ (log ++ back)) (hfront : ∀ note ∈ front, ¬ note.IsDeep bound)
    (hrun : ∀ {log deep}, Runs bound q now' log (Moment.tooDeep deep) →
      Runs bound p now (front ++ log) deep.tooDeep) : Cut bound p now whole := by
  obtain ⟨seen, deep, others, rfl, hdepth, hseen, hcut⟩ := h
  refine ⟨front ++ seen, deep, others ++ back, ?_, hdepth,
    List.forall_mem_append.mpr ⟨hfront, hseen⟩, ?_⟩
  · rw [hwhole]
    simp only [List.append_assoc, List.cons_append]
  · rw [List.append_assoc]
    exact hrun hcut

theorem not_isDeep_at (now : Moment) : ∀ note ∈ [Note.at now], ¬ note.IsDeep bound :=
  List.forall_mem_singleton.mpr id

/-- A part that is stopped at is not read. -/
theorem Runs.partStopped {opens : Token.Kind → Option β} {body : β → Procedure α}
    {otherwise : Procedure α} {b : β} {stop : Stop} (opened : now.place.next?.bind opens = some b)
    (inside : Runs limit (body b) now.pass log (.error stop)) :
    Runs limit (.part opens body otherwise) now (.at now :: log) (.error stop) := by
  have hpart : Runs limit (.part opens body otherwise) now (.at now :: (log ++ [])) (.error stop) :=
    .part opened inside
  rwa [List.append_nil] at hpart

/-- A type that is stopped at is not read. -/
theorem Runs.typeStopped (make : TypeRef → α) {name : String} {stop : Stop}
    (deep : now.depth < limit) (opened : now.place.next?.bind Phrase.nameOf? = some name)
    (inside : Runs limit (arguments name) now.descend.pass log (.error stop)) :
    Runs limit (.type make) now (.begins now :: log) (.error stop) := by
  have htype : Runs limit (.type make) now (.begins now :: (log ++ [])) (.error stop) :=
    .type make deep opened inside
  rwa [List.append_nil] at htype

/-- Under a lower limit a run goes on as it is, or it is cut short. -/
theorem Runs.lower (h : Runs limit p now log o) (hle : bound ≤ limit) (hdepth : now.depth ≤ bound) :
    (∀ note ∈ log, ¬ note.IsDeep bound) ∧ Runs bound p now log o ∨ Cut bound p now log := by
  induction h with
  | done a now => exact .inl ⟨not_isDeep_at now, .done a now⟩
  | look see now => exact .inl ⟨not_isDeep_at now, .look see now⟩
  | fail expected place now => exact .inl ⟨not_isDeep_at now, .fail expected place now⟩
  | @chain _ _ _ _ _ _ log log' _ _ started _ ihstarted ihresumed =>
    rcases ihstarted hdepth with ⟨hshallow, hstarted⟩ | hcut
    · have hafter := started.within.2.2
      rcases ihresumed (by omega) with ⟨hshallow', hresumed⟩ | hcut
      · exact .inl ⟨List.forall_mem_append.mpr ⟨hshallow, hshallow'⟩, .chain hstarted hresumed⟩
      · exact .inr (hcut.within log [] (by simp) hshallow fun hrun => .chain hstarted hrun)
    · exact .inr (hcut.within [] log' rfl (List.forall_mem_nil _) fun hrun => .chainStopped hrun)
  | chainStopped _ ih =>
    rcases ih hdepth with ⟨hshallow, hstarted⟩ | hcut
    · exact .inl ⟨hshallow, .chainStopped hstarted⟩
    · exact .inr (hcut.within [] [] (by simp) (List.forall_mem_nil _) fun hrun => .chainStopped hrun)
  | @part _ _ _ _ _ now _ _ o opened _ ih =>
    rcases ih hdepth with ⟨hshallow, hinside⟩ | hcut
    · refine .inl ⟨List.forall_mem_cons.mpr ⟨id, ?_⟩, .part opened hinside⟩
      exact List.forall_mem_append.mpr ⟨hshallow, Outcome.not_isDeep_of_mem_notes⟩
    · exact .inr (hcut.within [.at now] (o.notes now.place) rfl (not_isDeep_at now)
        fun hrun => .partStopped opened hrun)
  | @partClosed _ _ _ _ _ now _ _ closed _ ih =>
    rcases ih hdepth with ⟨hshallow, hinstead⟩ | hcut
    · exact .inl ⟨List.forall_mem_cons.mpr ⟨id, hshallow⟩, .partClosed closed hinstead⟩
    · exact .inr (hcut.within [.at now] [] (by simp) (not_isDeep_at now)
        fun hrun => .partClosed closed hrun)
  | @typeTooDeep _ make now deep =>
    -- The run was cut short by the other limit, which is the same one then.
    exact .inr ⟨[], now, [], rfl, by omega, List.forall_mem_nil _, .typeTooDeep make (by omega)⟩
  | @typeClosed _ make now deep closed =>
    by_cases hdeep : now.depth < bound
    · exact .inl ⟨List.forall_mem_singleton.mpr (Nat.not_le.mpr hdeep), .typeClosed make hdeep closed⟩
    · exact .inr ⟨[], now, [], rfl, by omega, List.forall_mem_nil _, .typeTooDeep make (by omega)⟩
  | @type _ make now _ log o deep opened _ ih =>
    by_cases hdeep : now.depth < bound
    · have hfront : ∀ note ∈ [Note.begins now], ¬ note.IsDeep bound :=
        List.forall_mem_singleton.mpr (Nat.not_le.mpr hdeep)
      rcases ih hdeep with ⟨hshallow, hinside⟩ | hcut
      · refine .inl ⟨List.forall_mem_cons.mpr ⟨Nat.not_le.mpr hdeep, ?_⟩, .type make hdeep opened hinside⟩
        exact List.forall_mem_append.mpr ⟨hshallow, Outcome.not_isDeep_of_mem_notes⟩
      · exact .inr (hcut.within [.begins now] (o.notes now.place) rfl hfront
          fun hrun => .typeStopped make hdeep opened hrun)
    · exact .inr ⟨[], now, _, rfl, by omega, List.forall_mem_nil _, .typeTooDeep make (by omega)⟩
  | @loopEnded _ _ _ _ _ now closed => exact .inl ⟨not_isDeep_at now, .loopEnded closed⟩
  | @loop _ _ _ _ _ _ now after _ log log' _ opened once _ ihonce ihagain =>
    rcases ihonce hdepth with ⟨hshallow, honce⟩ | hcut
    · have hafter : after.depth = now.depth := once.within.2.2
      have hturn : ∀ note ∈ .at now :: (log ++ [.read now.place after.place]), ¬ note.IsDeep bound :=
        List.forall_mem_cons.mpr ⟨id, List.forall_mem_append.mpr
          ⟨hshallow, List.forall_mem_singleton.mpr id⟩⟩
      rcases ihagain (by omega) with ⟨hshallow', hagain⟩ | hcut
      · refine .inl ⟨?_, .loop opened honce hagain⟩
        have hall := List.forall_mem_append.mpr ⟨hturn, hshallow'⟩
        simpa only [List.cons_append, List.append_assoc, List.nil_append] using hall
      · refine .inr (hcut.within _ [] (by simp) hturn fun hrun => ?_)
        simpa only [List.cons_append, List.append_assoc, List.nil_append]
          using Runs.loop opened honce hrun
    · exact .inr (hcut.within [.at now] _ rfl (not_isDeep_at now)
        fun hrun => .loopStopped opened hrun)
  | @loopStopped _ _ _ _ _ now _ _ _ opened _ ih =>
    rcases ih hdepth with ⟨hshallow, honce⟩ | hcut
    · exact .inl ⟨List.forall_mem_cons.mpr ⟨id, hshallow⟩, .loopStopped opened honce⟩
    · exact .inr (hcut.within [.at now] [] (by simp) (not_isDeep_at now)
        fun hrun => .loopStopped opened hrun)

end Procedure

/-- The failure is that a type is nested too deep. -/
def Failure.IsTooDeep : Failure → Prop
  | .tooDeep _ => True
  | .unexpected _ _ => False

/-- The run is stopped since a type is nested too deep. -/
def Outcome.IsTooDeep : Outcome α → Prop
  | .ok _ => False
  | .error stop => stop.failure.IsTooDeep

theorem Outcome.isTooDeep_of_afterType {make : TypeRef → α} {o : Outcome TypeRef}
    (h : (o.afterType make).IsTooDeep) : o.IsTooDeep := by
  cases o with
  | ok found => exact h.elim
  | error stop => exact h

/-- A run that is stopped since a type is nested too deep has come to one. -/
theorem Procedure.Runs.exists_isDeep {limit : Nat} {p : Procedure α} {now : Moment} {log : List Note}
    {o : Outcome α} (h : Runs limit p now log o) (ho : o.IsTooDeep) :
    ∃ note ∈ log, note.IsDeep limit := by
  induction h with
  | done | look | fail | typeClosed | loopEnded => exact ho.elim
  | chain _ _ _ ihresumed =>
    obtain ⟨note, hnote, hdeep⟩ := ihresumed ho
    exact ⟨note, List.mem_append_right _ hnote, hdeep⟩
  | chainStopped _ ih => exact ih ho
  | part _ _ ih =>
    obtain ⟨note, hnote, hdeep⟩ := ih ho
    exact ⟨note, List.mem_cons_of_mem _ (List.mem_append_left _ hnote), hdeep⟩
  | partClosed _ _ ih | loopStopped _ _ ih =>
    obtain ⟨note, hnote, hdeep⟩ := ih ho
    exact ⟨note, List.mem_cons_of_mem _ hnote, hdeep⟩
  | typeTooDeep _ deep => exact ⟨_, List.mem_singleton_self _, deep⟩
  | type _ _ _ _ ih =>
    obtain ⟨note, hnote, hdeep⟩ := ih (Outcome.isTooDeep_of_afterType ho)
    exact ⟨note, List.mem_cons_of_mem _ (List.mem_append_left _ hnote), hdeep⟩
  | loop _ _ _ _ ihagain =>
    obtain ⟨note, hnote, hdeep⟩ := ihagain ho
    exact ⟨note, List.mem_cons_of_mem _ (List.mem_append_right _ (List.mem_cons_of_mem _ hnote)), hdeep⟩

/-! ## What happens behind a type -/

/-- The outcome is behind the first token of the type that is begun at `place`, or the type stops there
since it is too deep or has no name. -/
def Outcome.Past (place : TokenStream) : Outcome α → Prop
  | .ok (_, after) => place.Leaves after.place ∧ after.place.rest.length < place.rest.length
  | .error stop => place.Leaves stop.reached ∧
    (stop.failure = .tooDeep place ∨ stop.failure = .unexpected .typeName place ∨
      stop.reached.rest.length < place.rest.length)

/-- What comes later is behind the type as well. -/
theorem Outcome.past_of_within {place : TokenStream} {after : Moment} {o : Outcome α}
    (hplace : place.Leaves after.place) (hlength : after.place.rest.length < place.rest.length)
    (ho : o.Within after) : o.Past place := by
  cases o with
  | error stop =>
    have hle := TokenStream.Leaves.length_le ho
    exact ⟨hplace.trans ho, .inr (.inr (by omega))⟩
  | ok found =>
    have hle := ho.1.length_le
    exact ⟨hplace.trans ho.1, by omega⟩

namespace Procedure

variable {limit : Nat} {p : Procedure α} {now : Moment} {log : List Note} {o : Outcome α}

/-- A run ends behind every type that is begun in it, or at its first token. -/
theorem Runs.past (h : Runs limit p now log o) : ∀ m, .begins m ∈ log → o.Past m.place := by
  induction h with
  | done | look | fail | loopEnded => simp
  | chain _ resumed ihstarted ihresumed =>
    intro m hm
    rcases List.mem_append.mp hm with hm | hm
    · have hpast := ihstarted m hm
      exact Outcome.past_of_within hpast.1 hpast.2 resumed.within.2
    · exact ihresumed m hm
  | chainStopped _ ih => exact ih
  | part _ _ ih =>
    intro m hm
    rw [Note.begins_mem_cons_at, Note.begins_mem_append_notes] at hm
    exact ih m hm
  | partClosed _ _ ih =>
    intro m hm
    rw [Note.begins_mem_cons_at] at hm
    exact ih m hm
  | @typeTooDeep _ _ now =>
    simpa [Outcome.Past] using now.place.leaves_refl
  | @typeClosed _ _ now =>
    simpa [Outcome.Past] using now.place.leaves_refl
  | @type _ make now _ log o _ opened inside ih =>
    intro m hm
    have hpast : o.Past m.place := by
      rcases List.mem_cons.mp hm with hm | hm
      · have hdrop : now.place.Leaves now.descend.pass.place := now.place.leaves_drop
        rw [Note.begins.inj hm]
        exact Outcome.past_of_within hdrop (TokenStream.length_drop_lt opened) inside.within.2
      · exact ih m (Note.begins_mem_append_notes.mp hm)
    cases o with
    | error stop => exact hpast
    | ok found => exact hpast
  | loop _ _ again ihonce ihagain =>
    intro m hm
    rw [Note.begins_mem_cons_at, List.mem_append, Note.begins_mem_cons_read] at hm
    rcases hm with hm | hm
    · have hpast := ihonce m hm
      exact Outcome.past_of_within hpast.1 hpast.2 again.within.2
    · exact ihagain m hm
  | loopStopped _ _ ih =>
    intro m hm
    rw [Note.begins_mem_cons_at] at hm
    exact ih m hm

end Procedure
end ObjectTransfer
