import ObjectTransfer.Proofs.Procedure.Notations
import ObjectTransfer.Proofs.Procedure.Runs

/-!
# Open types are open brackets

A run counts the types that are open. In a schema the tokens show how many there are: where a type is
begun, as many angle brackets are open (`Schema.opens_of_begins`). So types that stand side by side do
not add up, and behind a type that stands alone none is open.
-/

namespace ObjectTransfer

open Schema (TypeRef)

/-- Behind these tokens `depth` angle brackets are open. -/
def Schema.Opens (passed : List Token) (depth : Nat) : Prop :=
  (passed.map (·.kind)).count (.mark .less) = (passed.map (·.kind)).count (.mark .greater) + depth

/-- What a token adds to the angle brackets that are open. -/
def Token.Kind.angle : Token.Kind → Int
  | .mark .less => 1
  | .mark .greater => -1
  | _ => 0

/-- The angle brackets that the tokens open, less those that they close. -/
def TokenStream.angles (s : TokenStream) : Int :=
  (s.kinds.count (.mark .less) : Int) - s.kinds.count (.mark .greater)

theorem TokenStream.angles_drop {s : TokenStream} {kind : Token.Kind} (h : s.next? = some kind) :
    s.angles = kind.angle + s.drop.angles := by
  rw [angles, kinds_eq_cons h, List.count_cons, List.count_cons, angles]
  by_cases hless : kind = .mark .less
  · simp [hless, Token.Kind.angle]
    omega
  · by_cases hgreater : kind = .mark .greater
    · simp [hgreater, Token.Kind.angle]
      omega
    · simp [hless, hgreater, Token.Kind.angle]

/-- How many more angle brackets than types are open at the moment, if `s` are all tokens. -/
def Moment.surplus (s : TokenStream) (now : Moment) : Int := s.angles - now.place.angles - now.depth

namespace Moment

variable {s : TokenStream} {now : Moment}

theorem surplus_pass {kind : Token.Kind} (h : now.place.next? = some kind) :
    now.pass.surplus s = now.surplus s + kind.angle := by
  have hdrop := TokenStream.angles_drop h
  dsimp only [surplus, pass]
  omega

theorem surplus_descend : now.descend.surplus s = now.surplus s - 1 := by
  dsimp only [surplus, descend]
  omega

theorem surplus_ascend (h : 0 < now.depth) : now.ascend.surplus s = now.surplus s + 1 := by
  dsimp only [surplus, ascend]
  omega

end Moment

namespace Procedure

variable {α β σ : Type} {surplus : Int}

/-- If `surplus` more brackets than types are open before, `after a` more are open behind `a`, and types
are begun where there are as many of both. -/
def Carries : {α : Type} → Procedure α → Int → (α → Int) → Prop
  | _, .done a, surplus, after => after a = surplus
  | _, .chain first next, surplus, after =>
    ∃ mid, first.Carries surplus mid ∧ ∀ b, (next b).Carries (mid b) after
  | _, .look see, surplus, after => ∀ s, after (see s) = surplus
  | _, .fail _ _, _, _ => True
  | _, .part opens body otherwise, surplus, after =>
    (∀ kind b, opens kind = some b → (body b).Carries (surplus + kind.angle) after) ∧
      otherwise.Carries surplus after
  | _, .type make, surplus, after => surplus = 0 ∧ ∀ ref, after (make ref) = 0
  | _, .loop opens turn _, surplus, after => (∀ state, after state = surplus) ∧
    ∀ kind b, opens kind = some b →
      ∀ state s, (turn state b s).Carries (surplus + kind.angle) fun _ => surplus

/-- There are as many more brackets than types behind what is read as before. -/
abbrev Keeps (p : Procedure α) (surplus : Int) : Prop := p.Carries surplus fun _ => surplus

/-! ## Instructions -/

/-- None of the tokens that open something is an angle bracket. -/
def Flat (opens : Token.Kind → Option β) : Prop := ∀ kind b, opens kind = some b → kind.angle = 0

theorem keeps_pure (a : α) : (pure a : Procedure α).Keeps surplus := rfl

theorem keeps_bind {p : Procedure β} {q : β → Procedure α} (hp : p.Keeps surplus)
    (hq : ∀ b, (q b).Keeps surplus) : (p >>= q).Keeps surplus := ⟨fun _ => surplus, hp, hq⟩

theorem keeps_map (f : β → α) {p : Procedure β} (hp : p.Keeps surplus) : (f <$> p).Keeps surplus :=
  keeps_bind hp fun b => keeps_pure (f b)

theorem keeps_ite {c : Prop} [Decidable c] {p q : Procedure α} (hp : p.Keeps surplus)
    (hq : q.Keeps surplus) : (if c then p else q).Keeps surplus := by
  split
  · exact hp
  · exact hq

theorem keeps_place : place.Keeps surplus := fun _ => rfl

theorem keeps_next? : next?.Keeps surplus := fun _ => rfl

theorem carries_expecting (expected : Expectation) (after : α → Int) :
    (expecting expected : Procedure α).Carries surplus after :=
  ⟨fun _ => surplus, fun _ => rfl, fun _ => trivial⟩

theorem keeps_part {opens : Token.Kind → Option β} {body : β → Procedure α} {otherwise : Procedure α}
    (hflat : Flat opens) (hbody : ∀ b, (body b).Keeps surplus)
    (hotherwise : otherwise.Keeps surplus) : (part opens body otherwise).Keeps surplus := by
  refine ⟨fun kind b hopens => ?_, hotherwise⟩
  rw [hflat kind b hopens, Int.add_zero]
  exact hbody b

theorem keeps_opened {expected : Expectation} {opens : Token.Kind → Option β}
    {body : β → Procedure α} (hflat : Flat opens) (hbody : ∀ b, (body b).Keeps surplus) :
    (opened expected opens body).Keeps surplus :=
  keeps_part hflat hbody (carries_expecting expected _)

theorem keeps_token {expected : Expectation} {choose : Token.Kind → Option α} (hflat : Flat choose) :
    (token expected choose).Keeps surplus := keeps_opened hflat keeps_pure

theorem keeps_loop {opens : Token.Kind → Option β} {turn : σ → β → TokenStream → Procedure σ}
    {state : σ} (hflat : Flat opens) (hturn : ∀ state b s, (turn state b s).Keeps surplus) :
    (loop opens turn state).Keeps surplus := by
  refine ⟨fun _ => rfl, fun kind b hopens state s => ?_⟩
  rw [hflat kind b hopens, Int.add_zero]
  exact hturn state b s

/-- The test for a mark. -/
theorem eq_mark_of_opens {m : Mark} {kind : Token.Kind} {u : Unit}
    (h : (if kind = .mark m then some () else none) = some u) : kind = .mark m := by
  by_contra hne
  rw [if_neg hne] at h
  exact absurd h (by simp)

theorem flat_mark {m : Mark} (hm : (Token.Kind.mark m).angle = 0) :
    Flat fun kind => if kind = .mark m then some () else none := by
  intro kind u hopens
  rw [eq_mark_of_opens hopens, hm]

/-- What no mark opens is not opened by an angle bracket. -/
theorem flat_of_marks {opens : Token.Kind → Option β} (h : ∀ m, opens (.mark m) = none) :
    Flat opens := by
  intro kind b hopens
  cases kind with
  | mark m => exact absurd hopens (by simp [h m])
  | identifier | keyword | literal => rfl

theorem flat_nameOf? : Flat Phrase.nameOf? := flat_of_marks fun _ => rfl

/-- A mark that may come next counts if it does. -/
theorem carries_optionalMark (m : Mark) : (optionalMark m).Carries surplus fun present =>
    if present then surplus + (Token.Kind.mark m).angle else surplus := by
  refine ⟨fun kind u hopens => ?_, rfl⟩
  rw [eq_mark_of_opens hopens]
  rfl

theorem carries_mark (m : Mark) :
    (mark m).Carries surplus fun _ => surplus + (Token.Kind.mark m).angle := by
  refine ⟨fun kind u hopens => ?_, carries_expecting _ _⟩
  rw [eq_mark_of_opens hopens]
  rfl

theorem keeps_optionalMark {m : Mark} (hm : (Token.Kind.mark m).angle = 0) :
    (optionalMark m).Keeps surplus := keeps_part (flat_mark hm) (fun _ => keeps_pure true) (keeps_pure false)

theorem keeps_mark {m : Mark} (hm : (Token.Kind.mark m).angle = 0) : (mark m).Keeps surplus :=
  keeps_token (flat_mark hm)

theorem keeps_separatedBy {m : Mark} {item : Procedure α} (hm : (Token.Kind.mark m).angle = 0)
    (hitem : item.Keeps surplus) : (separatedBy m item).Keeps surplus :=
  keeps_bind hitem fun _ =>
    keeps_bind (keeps_loop (flat_mark hm) fun _ _ _ => keeps_bind hitem fun _ => keeps_pure _)
      fun _ => keeps_pure _

theorem keeps_name (expected : Expectation) : (name expected).Keeps surplus := keeps_token flat_nameOf?

theorem keeps_type : (type id).Keeps 0 := ⟨rfl, fun _ => rfl⟩

theorem keeps_optionalTerminator : optionalTerminator.Keeps surplus :=
  keeps_bind (keeps_optionalMark rfl) fun _ => keeps_ite (keeps_pure ())
    (keeps_bind (keeps_optionalMark rfl) fun _ => keeps_pure ())

theorem keeps_closeBrace (item : Expectation) : (closeBrace item).Keeps surplus :=
  keeps_bind (keeps_optionalMark rfl) fun _ => keeps_ite (keeps_pure ())
    (keeps_bind keeps_next? fun _ =>
      keeps_ite (carries_expecting _ _) (carries_expecting _ _))

theorem keeps_ending (expected : Expectation) : (ending expected).Keeps surplus :=
  keeps_bind keeps_next? fun _ => keeps_ite (keeps_pure ()) (carries_expecting _ _)

/-- The arguments of a type are one level deeper than its name, and their brackets are closed. -/
theorem keeps_arguments (name : String) : (arguments name).Keeps (-1) := by
  refine ⟨_, carries_optionalMark .less, fun present => ?_⟩
  cases present with
  | false => exact keeps_pure _
  | true =>
    show Carries _ 0 _
    refine ⟨fun _ => 0, keeps_separatedBy rfl keeps_type, fun arguments => ?_⟩
    exact ⟨_, carries_mark .greater, fun _ => keeps_pure _⟩

end Procedure

/-! ## Runs -/

/-- What is read ends with the surplus that is told of it. -/
def Outcome.Carries {α : Type} (s : TokenStream) (after : α → Int) : Outcome α → Prop
  | .ok (a, last) => last.surplus s = after a
  | .error _ => True

namespace Procedure

variable {α : Type} {limit : Nat} {s : TokenStream} {p : Procedure α} {now : Moment}
  {log : List Note} {o : Outcome α}

/-- Behind its name, a type has one type more open than brackets. -/
theorem carries_inside {name : String} (hnow : now.surplus s = 0)
    (hopened : now.place.next?.bind Phrase.nameOf? = some name) :
    (arguments name).Carries (now.descend.pass.surplus s) fun _ => -1 := by
  obtain ⟨kind, hnext, hname⟩ := Option.bind_eq_some_iff.mp hopened
  have hpass : now.descend.pass.surplus s = now.descend.surplus s + kind.angle :=
    Moment.surplus_pass hnext
  have harguments : now.descend.pass.surplus s = -1 := by
    rw [hpass, Moment.surplus_descend, hnow, flat_nameOf? kind name hname]
    rfl
  rw [harguments]
  exact keeps_arguments name

/-- Behind a type as many brackets as types are open. -/
theorem carries_afterType {make : TypeRef → α} {after : α → Int} {o : Outcome TypeRef}
    (hinside : o.Carries s fun _ => -1) (hwithin : o.Within now.descend.pass)
    (hafter : ∀ ref, after (make ref) = 0) : (o.afterType make).Carries s after := by
  cases o with
  | error stop => trivial
  | ok found =>
    obtain ⟨ref, last⟩ := found
    have hdepth : last.depth = now.depth + 1 := hwithin.2
    have hlast : last.surplus s = -1 := hinside
    show last.ascend.surplus s = after (make ref)
    rw [Moment.surplus_ascend (by omega), hlast, hafter]
    rfl

/-- Where a run begins a type as many brackets as types are open. -/
theorem Runs.carries (h : Runs limit p now log o) {after : α → Int}
    (hp : p.Carries (now.surplus s) after) :
    (∀ m, .begins m ∈ log → m.surplus s = 0) ∧ o.Carries s after := by
  induction h with
  | done a now => exact ⟨by simp, hp.symm⟩
  | @chain _ _ _ _ _ _ _ _ b _ _ _ ihstarted ihresumed =>
    obtain ⟨mid, hfirst, hnext⟩ := hp
    obtain ⟨hbegins, hmid⟩ := ihstarted hfirst
    have hb := hnext b
    rw [← show _ = mid b from hmid] at hb
    obtain ⟨hbegins', ho⟩ := ihresumed hb
    refine ⟨fun m hm => ?_, ho⟩
    rcases List.mem_append.mp hm with hm | hm
    · exact hbegins m hm
    · exact hbegins' m hm
  | chainStopped _ ih =>
    obtain ⟨mid, hfirst, -⟩ := hp
    exact ⟨(ih hfirst).1, trivial⟩
  | look see now => exact ⟨by simp, (hp now.place).symm⟩
  | fail => exact ⟨by simp, trivial⟩
  | part opened _ ih =>
    obtain ⟨kind, hnext, hopens⟩ := Option.bind_eq_some_iff.mp opened
    have hbody := hp.1 kind _ hopens
    rw [← Moment.surplus_pass hnext] at hbody
    refine ⟨fun m hm => ?_, (ih hbody).2⟩
    rw [Note.begins_mem_cons_at, Note.begins_mem_append_notes] at hm
    exact (ih hbody).1 m hm
  | partClosed _ _ ih =>
    refine ⟨fun m hm => ?_, (ih hp.2).2⟩
    rw [Note.begins_mem_cons_at] at hm
    exact (ih hp.2).1 m hm
  | typeTooDeep | typeClosed =>
    refine ⟨fun m hm => ?_, trivial⟩
    rw [Note.begins.inj (List.mem_singleton.mp hm)]
    exact hp.1
  | type make _ opened inside ih =>
    obtain ⟨hbegins, ho⟩ := ih (carries_inside hp.1 opened)
    refine ⟨fun m hm => ?_, carries_afterType ho inside.within.2 hp.2⟩
    rcases List.mem_cons.mp hm with hm | hm
    · rw [Note.begins.inj hm]
      exact hp.1
    · exact hbegins m (Note.begins_mem_append_notes.mp hm)
  | loopEnded => exact ⟨by simp, (hp.1 _).symm⟩
  | @loop _ _ _ _ state _ now later _ _ _ _ opened _ _ ihonce ihagain =>
    obtain ⟨kind, hnext, hopens⟩ := Option.bind_eq_some_iff.mp opened
    have hturn := hp.2 kind _ hopens state now.place
    rw [← Moment.surplus_pass hnext] at hturn
    obtain ⟨hbegins, honce⟩ := ihonce hturn
    have hlater : later.surplus s = now.surplus s := honce
    rw [← hlater] at hp
    refine ⟨fun m hm => ?_, (ihagain hp).2⟩
    rw [Note.begins_mem_cons_at, List.mem_append, Note.begins_mem_cons_read] at hm
    rcases hm with hm | hm
    · exact hbegins m hm
    · exact (ihagain hp).1 m hm
  | @loopStopped _ _ _ _ state now _ _ _ opened _ ih =>
    obtain ⟨kind, hnext, hopens⟩ := Option.bind_eq_some_iff.mp opened
    have hturn := hp.2 kind _ hopens state now.place
    rw [← Moment.surplus_pass hnext] at hturn
    refine ⟨fun m hm => ?_, trivial⟩
    rw [Note.begins_mem_cons_at] at hm
    exact (ih hturn).1 m hm

end Procedure

/-! ## Schemas -/

namespace Schema

open Procedure

theorem keeps_default : defaultProcedure.Keeps 0 := keeps_token (flat_of_marks fun _ => rfl)

theorem Attribute.keeps (name : String) : (procedure name).Keeps 0 :=
  keeps_bind (keeps_mark rfl) fun _ => keeps_bind keeps_type fun _ =>
    keeps_bind (keeps_optionalMark rfl) fun _ => keeps_bind (keeps_optionalMark rfl) fun _ =>
      keeps_ite (keeps_bind keeps_default fun _ => keeps_pure _) (keeps_pure _)

theorem Parameter.keeps : procedure.Keeps 0 :=
  keeps_opened flat_nameOf? fun _ => keeps_bind (keeps_mark rfl) fun _ =>
    keeps_bind keeps_type fun _ => keeps_bind (keeps_optionalMark rfl) fun _ => keeps_pure _

theorem Action.keeps (name : String) : (procedure name).Keeps 0 := by
  have hrest : ∀ parameters : List Parameter, (do
      mark .closeParen
      mark .colon
      return (⟨name, parameters, (← Procedure.type id).text⟩ : Action)).Keeps 0 :=
    fun _ => keeps_bind (keeps_mark rfl) fun _ => keeps_bind (keeps_mark rfl) fun _ =>
      keeps_bind keeps_type fun _ => keeps_pure _
  exact keeps_bind (keeps_mark rfl) fun _ => keeps_bind keeps_next? fun _ =>
    keeps_ite (keeps_bind (keeps_pure []) hrest)
      (keeps_bind (keeps_separatedBy rfl Parameter.keeps) hrest)

theorem Members.keeps (seen : Members) (name : String) (opening : TokenStream) :
    (procedure seen name opening).Keeps 0 := by
  refine keeps_bind keeps_next? fun next => keeps_ite (keeps_ite trivial ?_) (keeps_ite ?_ ?_)
  · exact keeps_bind (Attribute.keeps name) fun _ =>
      keeps_bind keeps_optionalTerminator fun _ => keeps_pure _
  · exact keeps_bind (Action.keeps name) fun _ =>
      keeps_bind keeps_optionalTerminator fun _ => keeps_pure _
  · exact carries_expecting _ _

theorem keeps_parent : parentProcedure.Keeps 0 :=
  keeps_part (flat_of_marks fun _ => if_neg nofun) (fun _ => keeps_map some (keeps_name _))
    (keeps_pure _)

theorem Model.keeps : procedure.Keeps 0 :=
  keeps_bind (keeps_name _) fun _ => keeps_bind keeps_parent fun _ =>
    keeps_bind (keeps_mark rfl) fun _ =>
      keeps_bind (keeps_loop flat_nameOf? Members.keeps) fun _ =>
        keeps_bind (keeps_closeBrace _) fun _ => keeps_pure _

theorem keeps_unionValue : unionValueProcedure.Keeps 0 := keeps_token (flat_of_marks fun _ => rfl)

theorem Union.keeps : procedure.Keeps 0 :=
  keeps_bind (keeps_name _) fun _ => keeps_bind (keeps_mark rfl) fun _ =>
    keeps_bind (keeps_separatedBy rfl keeps_unionValue) fun _ =>
      keeps_bind (keeps_optionalMark rfl) fun _ => keeps_pure _

theorem Definition.keeps (kind : Definition.Kind) : (procedure kind).Keeps 0 := by
  cases kind with
  | model => exact keeps_map _ Model.keeps
  | union => exact keeps_map _ Union.keeps

theorem Document.keeps : procedure.Keeps 0 :=
  keeps_bind (keeps_loop (flat_of_marks fun _ => rfl) fun _ kind _ =>
    keeps_bind (Definition.keeps kind) fun _ => keeps_pure _) fun _ =>
      keeps_bind (keeps_ending _) fun _ => keeps_bind keeps_place fun _ => keeps_pure _

/-- Where a schema begins a type, as many angle brackets are open as types. -/
theorem opens_of_begins {limit : Nat} {s : TokenStream} {log : List Note} {o : Outcome Document}
    (h : Runs limit Document.procedure ⟨s, 0⟩ log o) {now : Moment} (hnow : .begins now ∈ log) :
    ∃ passed, s.rest = passed ++ now.place.rest ∧ Opens passed now.depth := by
  have hwithin : Note.Within ⟨s, 0⟩ (.begins now) := h.within.1 _ hnow
  obtain ⟨passed, htakes⟩ := hwithin.place.takes
  have hrest : s.rest = passed ++ now.place.rest := htakes.rest
  refine ⟨passed, hrest, ?_⟩
  have hstart : Moment.surplus s ⟨s, 0⟩ = 0 := by
    dsimp only [Moment.surplus]
    omega
  have hlevel := (h.carries (hstart.symm ▸ Document.keeps)).1 now hnow
  have hkinds : s.kinds = passed.map (·.kind) ++ now.place.kinds := by
    rw [TokenStream.kinds, hrest, List.map_append]
    rfl
  dsimp only [Moment.surplus, TokenStream.angles] at hlevel
  rw [hkinds, List.count_append, List.count_append] at hlevel
  unfold Opens
  omega

end Schema
end ObjectTransfer
