import ObjectTransfer.Proofs.Phrase.Repetition
import ObjectTransfer.Proofs.Phrase.Spans
import ObjectTransfer.Proofs.Procedure.Basic

/-!
# Runs of procedures

A run of a procedure goes from moment to moment and keeps a log of them (`Procedure.Runs`). It counts
the types that are open: one more from where a type is begun, one less behind its end. No rule bounds
how long a loop or a type may go on, but every procedure has a run, which ends as its phrase does
(`exists_runs`), and no other (`Runs.unique`). On the way the run only moves forward, and each part,
turn and type takes a token at least (`Runs.within`).
-/

namespace ObjectTransfer

open Schema (TypeRef)

/-- The tokens still to be read, and how many types are open. -/
@[ext]
structure Moment where
  place : TokenStream
  depth : Nat

namespace Moment

/-- Behind the next token. -/
def pass (now : Moment) : Moment := ⟨now.place.drop, now.depth⟩

/-- With one more type open. -/
def descend (now : Moment) : Moment := ⟨now.place, now.depth + 1⟩

/-- With one type less open. -/
def ascend (now : Moment) : Moment := ⟨now.place, now.depth - 1⟩

end Moment

/-- What is noted in the course of a run. -/
inductive Note where
  /-- The run has come to a moment. -/
  | at (now : Moment)
  /-- A type is begun; it is not counted yet. -/
  | begins (now : Moment)
  /-- A part, a turn or a type has been read: the tokens that were to be read before and after it. -/
  | read (before after : TokenStream)

/-- How a run ends: with a value at some moment, or where it is stopped. -/
abbrev Outcome (α : Type) := Except Stop (α × Moment)

variable {α β σ : Type}

/-- What is noted at the end of something that was begun at `before`. -/
def Outcome.notes (before : TokenStream) : Outcome α → List Note
  | .ok (_, after) => [.read before after.place]
  | .error _ => []

/-! Only the beginnings of types tell of types. -/

theorem Note.begins_mem_cons_at {m now : Moment} {log : List Note} :
    .begins m ∈ .at now :: log ↔ .begins m ∈ log := by simp

theorem Note.begins_mem_cons_read {m : Moment} {before after : TokenStream} {log : List Note} :
    .begins m ∈ .read before after :: log ↔ .begins m ∈ log := by simp

theorem Note.begins_mem_append_notes {m : Moment} {before : TokenStream} {log : List Note}
    {o : Outcome α} : .begins m ∈ log ++ o.notes before ↔ .begins m ∈ log := by
  cases o <;> simp [Outcome.notes]

/-- The outcome behind a type, which is not open any more. -/
def Outcome.afterType (make : TypeRef → α) : Outcome TypeRef → Outcome α
  | .ok (ref, after) => .ok (make ref, after.ascend)
  | .error stop => .error stop

/-- The outcome of what a phrase reads at the moment `now`. It leaves no type open. -/
def Moment.outcome (now : Moment) : Except Stop (α × TokenStream) → Outcome α
  | .ok (a, place) => .ok (a, ⟨place, now.depth⟩)
  | .error stop => .error stop

namespace Procedure

/-- A procedure runs from a moment to its outcome, if at most `limit` types may be open. The log is what
is noted on the way. -/
inductive Runs (limit : Nat) :
    {α : Type} → Procedure α → Moment → List Note → Outcome α → Prop where
  | done {α : Type} (a : α) (now : Moment) : Runs limit (.done a) now [.at now] (.ok (a, now))
  | chain {α β : Type} {first : Procedure β} {next : β → Procedure α} {now after : Moment}
      {log log' : List Note} {b : β} {o : Outcome α}
      (started : Runs limit first now log (.ok (b, after)))
      (resumed : Runs limit (next b) after log' o) :
      Runs limit (.chain first next) now (log ++ log') o
  | chainStopped {α β : Type} {first : Procedure β} {next : β → Procedure α} {now : Moment}
      {log : List Note} {stop : Stop} (started : Runs limit first now log (.error stop)) :
      Runs limit (.chain first next) now log (.error stop)
  | look {α : Type} (see : TokenStream → α) (now : Moment) :
      Runs limit (.look see) now [.at now] (.ok (see now.place, now))
  | fail {α : Type} (expected : Expectation) (place : TokenStream) (now : Moment) :
      Runs limit (.fail expected place : Procedure α) now [.at now]
        (.error ⟨.unexpected expected place, now.place⟩)
  | part {α β : Type} {opens : Token.Kind → Option β} {body : β → Procedure α}
      {otherwise : Procedure α} {now : Moment} {b : β} {log : List Note} {o : Outcome α}
      (opened : now.place.next?.bind opens = some b) (inside : Runs limit (body b) now.pass log o) :
      Runs limit (.part opens body otherwise) now (.at now :: (log ++ o.notes now.place)) o
  | partClosed {α β : Type} {opens : Token.Kind → Option β} {body : β → Procedure α}
      {otherwise : Procedure α} {now : Moment} {log : List Note} {o : Outcome α}
      (closed : now.place.next?.bind opens = none) (instead : Runs limit otherwise now log o) :
      Runs limit (.part opens body otherwise) now (.at now :: log) o
  | typeTooDeep {α : Type} (make : TypeRef → α) {now : Moment} (deep : limit ≤ now.depth) :
      Runs limit (.type make) now [.begins now] (.error ⟨.tooDeep now.place, now.place⟩)
  | typeClosed {α : Type} (make : TypeRef → α) {now : Moment} (deep : now.depth < limit)
      (closed : now.place.next?.bind Phrase.nameOf? = none) :
      Runs limit (.type make) now [.begins now]
        (.error ⟨.unexpected .typeName now.place, now.place⟩)
  | type {α : Type} (make : TypeRef → α) {now : Moment} {name : String} {log : List Note}
      {o : Outcome TypeRef} (deep : now.depth < limit)
      (opened : now.place.next?.bind Phrase.nameOf? = some name)
      (inside : Runs limit (arguments name) now.descend.pass log o) :
      Runs limit (.type make) now (.begins now :: (log ++ o.notes now.place)) (o.afterType make)
  | loopEnded {σ β : Type} {opens : Token.Kind → Option β} {turn : σ → β → TokenStream → Procedure σ}
      {state : σ} {now : Moment} (closed : now.place.next?.bind opens = none) :
      Runs limit (.loop opens turn state) now [.at now] (.ok (state, now))
  | loop {σ β : Type} {opens : Token.Kind → Option β} {turn : σ → β → TokenStream → Procedure σ}
      {state state' : σ} {now after : Moment} {b : β} {log log' : List Note} {o : Outcome σ}
      (opened : now.place.next?.bind opens = some b)
      (once : Runs limit (turn state b now.place) now.pass log (.ok (state', after)))
      (again : Runs limit (.loop opens turn state') after log' o) :
      Runs limit (.loop opens turn state) now
        (.at now :: (log ++ .read now.place after.place :: log')) o
  | loopStopped {σ β : Type} {opens : Token.Kind → Option β}
      {turn : σ → β → TokenStream → Procedure σ} {state : σ} {now : Moment} {b : β}
      {log : List Note} {stop : Stop} (opened : now.place.next?.bind opens = some b)
      (once : Runs limit (turn state b now.place) now.pass log (.error stop)) :
      Runs limit (.loop opens turn state) now (.at now :: log) (.error stop)

/-! ## Every procedure has a run -/

variable {limit levels : Nat} {now : Moment}

/-- The procedure has a run at the moment `now`, which ends as its phrase does. -/
def Mirrors (limit levels : Nat) (p : Procedure α) (now : Moment) : Prop :=
  ∃ log, Runs limit p now log (now.outcome ((p.phrase levels).run now.place))

theorem mirrors_chain {first : Procedure β} {next : β → Procedure α}
    (hfirst : Mirrors limit levels first now)
    (hnext : ∀ b place, Mirrors limit levels (next b) ⟨place, now.depth⟩) :
    Mirrors limit levels (.chain first next) now := by
  obtain ⟨log, hlog⟩ := hfirst
  unfold Mirrors
  rw [show (chain first next).phrase levels = _ from phrase_bind levels first next, Phrase.run_bind]
  cases hrun : (first.phrase levels).run now.place with
  | error stop =>
    rw [hrun] at hlog
    exact ⟨log, .chainStopped hlog⟩
  | ok found =>
    obtain ⟨b, place⟩ := found
    rw [hrun] at hlog
    obtain ⟨log', hlog'⟩ := hnext b place
    exact ⟨log ++ log', .chain hlog hlog'⟩

theorem mirrors_part {opens : Token.Kind → Option β} {body : β → Procedure α}
    {otherwise : Procedure α} (hbody : ∀ b, Mirrors limit levels (body b) now.pass)
    (hotherwise : Mirrors limit levels otherwise now) :
    Mirrors limit levels (.part opens body otherwise) now := by
  unfold Mirrors
  rw [run_part]
  cases hopens : now.place.next?.bind opens with
  | none =>
    obtain ⟨log, hlog⟩ := hotherwise
    exact ⟨_, .partClosed hopens hlog⟩
  | some b =>
    obtain ⟨log, hlog⟩ := hbody b
    exact ⟨_, .part hopens hlog⟩

/-- Turns run as long as the next token opens one, and each passes over a token. -/
theorem mirrors_loop {opens : Token.Kind → Option β} {turn : σ → β → TokenStream → Procedure σ}
    {depth : Nat} (hturn : ∀ state b s place, Mirrors limit levels (turn state b s) ⟨place, depth⟩)
    (state : σ) (s : TokenStream) : Mirrors limit levels (.loop opens turn state) ⟨s, depth⟩ := by
  induction hlength : s.rest.length using Nat.strong_induction_on generalizing state s with
  | _ length ih =>
    subst hlength
    unfold Mirrors
    rw [phrase_loop]
    cases hopens : s.next?.bind opens with
    | none =>
      rw [Phrase.run_repeatWhile_of_closed hopens]
      exact ⟨_, .loopEnded hopens⟩
    | some b =>
      obtain ⟨log, hlog⟩ := hturn state b s s.drop
      rw [Phrase.run_repeatWhile_of_opened hopens, Phrase.run_bind]
      cases hrun : ((turn state b s).phrase levels).run s.drop with
      | error stop =>
        rw [hrun] at hlog
        exact ⟨_, .loopStopped hopens hlog⟩
      | ok found =>
        obtain ⟨state', place⟩ := found
        rw [hrun] at hlog
        obtain ⟨kind, hnext, -⟩ := Option.bind_eq_some_iff.mp hopens
        have hdrop := TokenStream.length_rest_eq_succ hnext
        have hturns := (((turn state b s).phrase levels).forward hrun).rest.length_le
        obtain ⟨log', hlog'⟩ := ih place.rest.length (by omega) state' place rfl
        exact ⟨_, .loop hopens hlog hlog'⟩

/-- A procedure has a run if the types in it do. -/
theorem mirrors_of_types {depth : Nat} (htypes : ∀ {τ : Type} (make : TypeRef → τ) place,
    Mirrors limit levels (.type make) ⟨place, depth⟩) (p : Procedure α) (s : TokenStream) :
    Mirrors limit levels p ⟨s, depth⟩ := by
  induction p generalizing s with
  | done a => exact ⟨_, .done a _⟩
  | chain first next ihfirst ihnext => exact mirrors_chain (ihfirst s) ihnext
  | look see => exact ⟨_, .look see _⟩
  | fail expected place => exact ⟨_, .fail expected place _⟩
  | part opens body otherwise ihbody ihotherwise =>
    exact mirrors_part (fun b => ihbody b s.drop) (ihotherwise s)
  | type make => exact htypes make s
  | loop opens turn state ihturn => exact mirrors_loop ihturn state s

theorem run_type (make : TypeRef → α) (s : TokenStream) :
    ((type make).phrase levels).run s =
      match (TypeRef.phrase levels).run s with
      | .ok (ref, s') => .ok (make ref, s')
      | .error stop => .error stop := by
  rw [phrase, ← bind_pure_comp, Phrase.run_bind]
  cases (TypeRef.phrase levels).run s <;> rfl

/-- Where no further type may be open, a type is too deep. -/
theorem mirrors_type_zero (make : TypeRef → α) (place : TokenStream) (depth : Nat) :
    Mirrors depth 0 (.type make) ⟨place, depth⟩ := by
  unfold Mirrors
  rw [run_type]
  exact ⟨_, .typeTooDeep make (Nat.le_refl depth)⟩

/-- A type has a run if its arguments do. -/
theorem mirrors_type_succ (make : TypeRef → α) (hdeep : now.depth < limit)
    (harguments : ∀ name, Mirrors limit levels (arguments name) now.descend.pass) :
    Mirrors limit (levels + 1) (.type make) now := by
  unfold Mirrors
  rw [run_type, phrase_arguments, Phrase.run_bind, Phrase.name, Phrase.run_token]
  cases hopens : now.place.next?.bind Phrase.nameOf? with
  | none => exact ⟨_, .typeClosed make hdeep hopens⟩
  | some name =>
    obtain ⟨log, hlog⟩ := harguments name
    dsimp only [Moment.pass, Moment.descend] at hlog ⊢
    cases hrun : ((arguments name).phrase levels).run now.place.drop with
    | error stop =>
      rw [hrun] at hlog
      exact ⟨_, .type make hdeep hopens hlog⟩
    | ok found =>
      rw [hrun] at hlog
      exact ⟨_, .type make hdeep hopens hlog⟩

/-- Every procedure has a run, which ends as its phrase does. -/
theorem exists_runs (p : Procedure α) (s : TokenStream) {depth : Nat}
    (hlevels : depth + levels = limit) : Mirrors limit levels p ⟨s, depth⟩ := by
  -- By induction on how deep types may still be nested.
  induction levels generalizing α p s depth with
  | zero =>
    subst hlevels
    exact mirrors_of_types (fun make place => mirrors_type_zero make place depth) p s
  | succ levels ih =>
    refine mirrors_of_types (fun make place => ?_) p s
    have hdeep : depth + 1 + levels = limit := by omega
    exact mirrors_type_succ make (show depth < limit by omega) fun name =>
      ih (arguments name) place.drop hdeep

/-! ## No procedure has two runs -/

section

variable {p : Procedure α} {log log' : List Note} {o o' : Outcome α}

/-- A run is determined by the moment where it starts. -/
theorem Runs.unique (h : Runs limit p now log o) (h' : Runs limit p now log' o') :
    log' = log ∧ o' = o := by
  induction h generalizing log' with
  | done | look | fail =>
    cases h'
    exact ⟨rfl, rfl⟩
  | chain _ _ ihstarted ihresumed =>
    cases h' with
    | chain started' resumed' =>
      obtain ⟨rfl, houtcome⟩ := ihstarted started'
      obtain ⟨rfl, rfl⟩ := Prod.mk.inj (Except.ok.inj houtcome)
      obtain ⟨rfl, rfl⟩ := ihresumed resumed'
      exact ⟨rfl, rfl⟩
    | chainStopped started' => exact absurd (ihstarted started').2 (by simp)
  | chainStopped _ ihstarted =>
    cases h' with
    | chain started' resumed' => exact absurd (ihstarted started').2 (by simp)
    | chainStopped started' =>
      obtain ⟨rfl, houtcome⟩ := ihstarted started'
      exact ⟨rfl, by rw [Except.error.inj houtcome]⟩
  | part opened _ ih =>
    cases h' with
    | part opened' inside' =>
      obtain rfl := Option.some.inj (opened.symm.trans opened')
      obtain ⟨rfl, rfl⟩ := ih inside'
      exact ⟨rfl, rfl⟩
    | partClosed closed' => exact absurd (opened.symm.trans closed') (by simp)
  | partClosed closed _ ih =>
    cases h' with
    | part opened' => exact absurd (closed.symm.trans opened') (by simp)
    | partClosed _ instead' =>
      obtain ⟨rfl, rfl⟩ := ih instead'
      exact ⟨rfl, rfl⟩
  | typeTooDeep make deep =>
    cases h' with
    | typeTooDeep => exact ⟨rfl, rfl⟩
    | typeClosed _ deep' | type _ deep' => exact absurd deep (Nat.not_le.mpr deep')
  | typeClosed make deep closed =>
    cases h' with
    | typeTooDeep _ deep' => exact absurd deep (Nat.not_lt.mpr deep')
    | typeClosed => exact ⟨rfl, rfl⟩
    | type _ _ opened' => exact absurd (closed.symm.trans opened') (by simp)
  | type make deep opened _ ih =>
    cases h' with
    | typeTooDeep _ deep' => exact absurd deep (Nat.not_lt.mpr deep')
    | typeClosed _ _ closed' => exact absurd (opened.symm.trans closed') (by simp)
    | type _ _ opened' inside' =>
      obtain rfl := Option.some.inj (opened.symm.trans opened')
      obtain ⟨rfl, rfl⟩ := ih inside'
      exact ⟨rfl, rfl⟩
  | loopEnded closed =>
    cases h' with
    | loopEnded => exact ⟨rfl, rfl⟩
    | loop opened' | loopStopped opened' => exact absurd (closed.symm.trans opened') (by simp)
  | loop opened _ _ ihonce ihagain =>
    cases h' with
    | loopEnded closed' => exact absurd (opened.symm.trans closed') (by simp)
    | loop opened' once' again' =>
      obtain rfl := Option.some.inj (opened.symm.trans opened')
      obtain ⟨rfl, houtcome⟩ := ihonce once'
      obtain ⟨rfl, rfl⟩ := Prod.mk.inj (Except.ok.inj houtcome)
      obtain ⟨rfl, rfl⟩ := ihagain again'
      exact ⟨rfl, rfl⟩
    | loopStopped opened' once' =>
      obtain rfl := Option.some.inj (opened.symm.trans opened')
      exact absurd (ihonce once').2 (by simp)
  | loopStopped opened _ ihonce =>
    cases h' with
    | loopEnded closed' => exact absurd (opened.symm.trans closed') (by simp)
    | loop opened' once' again' =>
      obtain rfl := Option.some.inj (opened.symm.trans opened')
      exact absurd (ihonce once').2 (by simp)
    | loopStopped opened' once' =>
      obtain rfl := Option.some.inj (opened.symm.trans opened')
      obtain ⟨rfl, houtcome⟩ := ihonce once'
      exact ⟨rfl, by rw [Except.error.inj houtcome]⟩

end

end Procedure

/-! ## Runs move forward -/

/-- What is left of `s` after some of its tokens is `s'`, which knows where the last of them ended. -/
structure TokenStream.Leaves (s s' : TokenStream) : Prop where
  takes : ∃ own, s.Takes own s'
  finish : s'.finish = s.finish

namespace TokenStream

variable {s s' s'' : TokenStream}

theorem leaves_refl (s : TokenStream) : s.Leaves s := ⟨⟨[], s.takes_refl⟩, rfl⟩

theorem Leaves.trans (h : s.Leaves s') (h' : s'.Leaves s'') : s.Leaves s'' := by
  obtain ⟨own, hown⟩ := h.takes
  obtain ⟨own', hown'⟩ := h'.takes
  exact ⟨⟨_, hown.trans hown'⟩, h'.finish.trans h.finish⟩

theorem leaves_drop (s : TokenStream) : s.Leaves s.drop := ⟨s.exists_takes_drop, s.drop_follows.finish⟩

theorem Leaves.follows (h : s.Leaves s') : s'.Follows s := by
  obtain ⟨own, hown⟩ := h.takes
  exact ⟨⟨own, hown.rest.symm⟩, h.finish⟩

theorem Leaves.length_le (h : s.Leaves s') : s'.rest.length ≤ s.rest.length :=
  h.follows.rest.length_le

/-- A token that opens something is passed over. -/
theorem length_drop_lt {β : Type} {opens : Token.Kind → Option β} {b : β}
    (h : s.next?.bind opens = some b) : s.drop.rest.length < s.rest.length := by
  obtain ⟨kind, hnext, -⟩ := Option.bind_eq_some_iff.mp h
  have hlength := length_rest_eq_succ hnext
  omega

end TokenStream

/-- A run can come from one moment to the other. For each type that is open a token has been read. -/
structure Moment.Leads (now after : Moment) : Prop where
  place : now.place.Leaves after.place
  count : after.depth + after.place.rest.length ≤ now.depth + now.place.rest.length

/-- What is noted in a run from the moment `now` on: moments that it can come to, and what took a token
at least. -/
def Note.Within (now : Moment) : Note → Prop
  | .at m | .begins m => now.Leads m
  | .read before after => now.place.Leaves before ∧ before.Leaves after ∧
    after.rest.length < before.rest.length

/-- How a run from the moment `now` on can end: with as many types open as there were. -/
def Outcome.Within (now : Moment) : Outcome α → Prop
  | .ok (_, after) => now.place.Leaves after.place ∧ after.depth = now.depth
  | .error stop => now.place.Leaves stop.reached

namespace Moment

variable {now m after : Moment}

theorem leads_refl (now : Moment) : now.Leads now := ⟨now.place.leaves_refl, Nat.le_refl _⟩

theorem Leads.trans (h : now.Leads m) (h' : m.Leads after) : now.Leads after :=
  ⟨h.place.trans h'.place, Nat.le_trans h'.count h.count⟩

theorem leads_pass {opens : Token.Kind → Option β} {b : β}
    (h : now.place.next?.bind opens = some b) : now.Leads now.pass := by
  have hlength := TokenStream.length_drop_lt h
  refine ⟨now.place.leaves_drop, ?_⟩
  dsimp only [pass]
  omega

/-- Behind its name a type counts no more than the token that was read. -/
theorem leads_descend_pass {opens : Token.Kind → Option β} {b : β}
    (h : now.place.next?.bind opens = some b) : now.Leads now.descend.pass := by
  have hlength := TokenStream.length_drop_lt h
  refine ⟨now.place.leaves_drop, ?_⟩
  dsimp only [pass, descend]
  omega

theorem leads_of_within {a : α} (h : Outcome.Within now (.ok (a, after))) : now.Leads after := by
  have hlength := h.1.length_le
  refine ⟨h.1, ?_⟩
  rw [h.2]
  omega

end Moment

theorem Note.Within.mono {now m : Moment} {note : Note} (h : note.Within m) (hm : now.Leads m) :
    note.Within now := by
  cases note with
  | «at» | begins => exact hm.trans h
  | read before after => exact ⟨hm.place.trans h.1, h.2⟩

theorem Outcome.Within.mono {now m : Moment} {o : Outcome α} (h : o.Within m)
    (hm : now.place.Leaves m.place) (hdepth : m.depth = now.depth) : o.Within now := by
  cases o with
  | ok found => exact ⟨hm.trans h.1, h.2.trans hdepth⟩
  | error stop => exact hm.trans h

/-- What has been read behind its first token took that token at least. -/
theorem Outcome.within_notes {now : Moment} {o : Outcome α} {opens : Token.Kind → Option β} {b : β}
    (hopened : now.place.next?.bind opens = some b) {m : Moment} (hm : m.place = now.place.drop)
    (ho : o.Within m) : ∀ note ∈ o.notes now.place, note.Within now := by
  cases o with
  | error stop => exact List.forall_mem_nil _
  | ok found =>
    obtain ⟨a, after⟩ := found
    have hlength := ho.1.length_le
    have hdrop := TokenStream.length_drop_lt hopened
    rw [hm] at hlength
    have hafter := ho.1
    rw [hm] at hafter
    refine List.forall_mem_singleton.mpr ⟨now.place.leaves_refl, now.place.leaves_drop.trans hafter, ?_⟩
    omega

namespace Procedure

variable {limit : Nat} {p : Procedure α} {now : Moment} {log : List Note} {o : Outcome α}

/-- A run only moves forward. Whatever it reads takes a token at least, for each type that is open a
token has been read, and at the end as many types are open as at the start. -/
theorem Runs.within (h : Runs limit p now log o) : (∀ note ∈ log, note.Within now) ∧ o.Within now := by
  induction h with
  | done a now | look see now =>
    exact ⟨List.forall_mem_singleton.mpr now.leads_refl, now.place.leaves_refl, rfl⟩
  | fail expected place now =>
    exact ⟨List.forall_mem_singleton.mpr now.leads_refl, now.place.leaves_refl⟩
  | chain _ _ ihstarted ihresumed =>
    have hafter := Moment.leads_of_within ihstarted.2
    refine ⟨List.forall_mem_append.mpr ⟨ihstarted.1, fun note hnote => ?_⟩, ?_⟩
    · exact (ihresumed.1 note hnote).mono hafter
    · exact ihresumed.2.mono hafter.place ihstarted.2.2
  | chainStopped _ ih => exact ih
  | @part _ _ _ _ _ now _ _ _ opened _ ih =>
    have hpass := Moment.leads_pass opened
    refine ⟨List.forall_mem_cons.mpr ⟨now.leads_refl, List.forall_mem_append.mpr ⟨?_, ?_⟩⟩, ?_⟩
    · exact fun note hnote => (ih.1 note hnote).mono hpass
    · exact Outcome.within_notes opened rfl ih.2
    · exact ih.2.mono hpass.place rfl
  | @partClosed _ _ _ _ _ now _ _ _ _ ih =>
    exact ⟨List.forall_mem_cons.mpr ⟨now.leads_refl, ih.1⟩, ih.2⟩
  | @typeTooDeep _ _ now | @typeClosed _ _ now =>
    exact ⟨List.forall_mem_singleton.mpr now.leads_refl, now.place.leaves_refl⟩
  | @type _ make now _ _ o deep opened _ ih =>
    have hpass := Moment.leads_descend_pass opened
    refine ⟨List.forall_mem_cons.mpr ⟨now.leads_refl, List.forall_mem_append.mpr ⟨?_, ?_⟩⟩, ?_⟩
    · exact fun note hnote => (ih.1 note hnote).mono hpass
    · exact Outcome.within_notes opened rfl ih.2
    · cases o with
      | error stop => exact hpass.place.trans ih.2
      | ok found =>
        refine ⟨hpass.place.trans ih.2.1, ?_⟩
        have hdepth : found.2.depth = now.depth + 1 := ih.2.2
        show found.2.depth - 1 = now.depth
        omega
  | @loopEnded _ _ _ _ _ now =>
    exact ⟨List.forall_mem_singleton.mpr now.leads_refl, now.place.leaves_refl, rfl⟩
  | @loop _ _ _ _ _ _ now after _ _ _ _ opened _ _ ihonce ihagain =>
    have hpass := Moment.leads_pass opened
    have hafter := hpass.trans (Moment.leads_of_within ihonce.2)
    refine ⟨List.forall_mem_cons.mpr ⟨now.leads_refl, List.forall_mem_append.mpr ⟨?_, ?_⟩⟩, ?_⟩
    · exact fun note hnote => (ihonce.1 note hnote).mono hpass
    · have hturn := Outcome.within_notes opened rfl ihonce.2
      exact List.forall_mem_cons.mpr ⟨hturn _ List.mem_cons_self,
        fun note hnote => (ihagain.1 note hnote).mono hafter⟩
    · exact ihagain.2.mono hafter.place ihonce.2.2
  | @loopStopped _ _ _ _ _ now _ _ _ opened _ ihonce =>
    have hpass := Moment.leads_pass opened
    refine ⟨List.forall_mem_cons.mpr ⟨now.leads_refl, fun note hnote => ?_⟩, hpass.place.trans ihonce.2⟩
    exact (ihonce.1 note hnote).mono hpass

end Procedure
end ObjectTransfer
