import ObjectTransfer.Entry
import ObjectTransfer.Proofs.Phrase.Completion
import ObjectTransfer.Proofs.Phrase.Lookahead
import ObjectTransfer.Proofs.Phrase.Spans
import ObjectTransfer.Proofs.Token.Written

/-!
# Reading and writing entries

Requests and responses consist of entries. What an entry reads is exactly a key, a colon and a
literal: a `Pair`, and where it stops one of these would have helped. The location of an entry depends
on the places of its tokens and is left out of comparisons, by `Entry.erase`. The text of a
well-formed pair spells its three tokens.
-/

namespace ObjectTransfer

open Phrase

/-- The location that stands for any. -/
def Location.erased : Location := ⟨"", .start, .start⟩

/-- The part of an unnamed text between two bytes of its first line, all of one byte each. -/
def Location.onFirstLine (start finish : Nat) : Location :=
  ⟨"", ⟨start, 1, start + 1⟩, ⟨finish, 1, finish + 1⟩⟩

/-- A key and a value: an entry, wherever it stands. -/
structure Pair where
  key : String
  value : Literal

namespace Pair

/-- The tokens of a pair. -/
def kinds (p : Pair) : List Token.Kind := [.identifier p.key, .mark .colon, .literal p.value]

/-- The entry without a location. -/
def toEntry (p : Pair) : Entry := ⟨p.key, p.value, .erased⟩

theorem determined (p : Pair) : Determined kinds (fun _ => True) p := by
  obtain ⟨key, value⟩ := p
  rintro ⟨key', value'⟩ rest rest' - - h
  simp only [kinds, List.cons_append, List.nil_append, List.cons.injEq, Token.Kind.identifier.injEq,
    Token.Kind.literal.injEq, true_and] at h
  obtain ⟨rfl, rfl, hend⟩ := h
  exact ⟨rfl, hend⟩

end Pair

namespace Entry

def pair (e : Entry) : Pair := ⟨e.key, e.value⟩

/-- The entry without its location. -/
def erase (e : Entry) : Entry := e.pair.toEntry

/-- An entry that has a source form: its key is a name, and a number is finite. -/
structure WellFormed (e : Entry) : Prop where
  key : IsName e.key
  value : e.value.IsFinite

theorem wellFormed_erase {e : Entry} : e.erase.WellFormed ↔ e.WellFormed :=
  ⟨fun h => ⟨h.key, h.value⟩, fun h => ⟨h.key, h.value⟩⟩

theorem forall_wellFormed_erase {entries : List Entry} :
    (∀ e ∈ entries.map erase, e.WellFormed) ↔ ∀ e ∈ entries, e.WellFormed := by
  rw [List.forall_mem_map]
  exact forall₂_congr fun _ _ => wellFormed_erase

/-! ## Reading -/

theorem sound_afterKey {source key : String} {start : Position} {s s' : TokenStream} {e : Entry}
    (h : (afterKey source key start).run s = .ok (e, s')) :
    .identifier key :: s.kinds = e.pair.kinds ++ s'.kinds := by
  obtain ⟨u, s₁, hcolon, h₁⟩ := run_bind_eq_ok.mp h
  obtain ⟨value, s₂, hvalue, h₂⟩ := run_bind_eq_ok.mp h₁
  obtain ⟨location, s₃, hlocation, h₃⟩ := run_bind_eq_ok.mp h₂
  obtain ⟨-, rfl⟩ := run_pure_eq_ok.mp hlocation
  obtain ⟨rfl, rfl⟩ := run_pure_eq_ok.mp h₃
  rw [mark_sound hcolon, literal_sound hvalue]
  rfl

theorem complete_afterKey (source : String) (start : Position) {p : Pair} {s : TokenStream}
    {rest : List Token.Kind} (hs : .identifier p.key :: s.kinds = p.kinds ++ rest) :
    ∃ e s', (afterKey source p.key start).run s = .ok (e, s') ∧ e.pair = p ∧ s'.kinds = rest := by
  obtain ⟨s₁, hcolon, hs₁⟩ := mark_complete (List.cons.inj hs).2
  obtain ⟨s₂, hvalue, hs₂⟩ := literal_complete hs₁
  refine ⟨⟨p.key, p.value, ⟨source, start, s₂.behind⟩⟩, s₂, ?_, rfl, hs₂⟩
  unfold afterKey
  rw [run_bind_of_ok hcolon, run_bind_of_ok hvalue]
  rfl

theorem sound {source : String} {expected : Expectation} {s s' : TokenStream} {e : Entry}
    (h : (phrase source expected).run s = .ok (e, s')) : s.kinds = e.pair.kinds ++ s'.kinds := by
  unfold phrase at h
  rw [run_bind_of_ok (run_place s)] at h
  obtain ⟨key, s₁, hkey, hafter⟩ := run_bind_eq_ok.mp h
  rw [identifier_sound hkey]
  exact sound_afterKey hafter

theorem complete (source : String) (expected : Expectation) {p : Pair} {s : TokenStream}
    {rest : List Token.Kind} (hs : s.kinds = p.kinds ++ rest) :
    ∃ e s', (phrase source expected).run s = .ok (e, s') ∧ e.pair = p ∧ s'.kinds = rest := by
  obtain ⟨s₁, hkey, hs₁⟩ := identifier_complete expected hs
  have hkinds : .identifier p.key :: s₁.kinds = p.kinds ++ rest := by
    rw [hs₁]
    rfl
  obtain ⟨e, s', hafter, he, hs'⟩ := complete_afterKey source s.position hkinds
  refine ⟨e, s', ?_, he, hs'⟩
  unfold phrase
  rw [run_bind_of_ok (run_place s)]
  show (identifier expected >>= fun key => afterKey source key s.position).run s = _
  rw [run_bind_of_ok hkey, hafter]

/-! ## Stopping -/

theorem explained_afterKey {source key : String} {start : Position} {s o : TokenStream}
    {stop : Stop} (hs : s.After [.identifier key] o)
    (h : (afterKey source key start).run s = .error stop) :
    Explained (KindsOf Pair.kinds fun _ => True) o stop := by
  rcases run_bind_eq_error.mp h with hcolon | ⟨_, s₁, hcolon, h⟩
  · exact explained_token hcolon hs (by decide) rfl ⟨[.literal .null], ⟨key, .null⟩, trivial, rfl⟩
  rcases run_bind_eq_error.mp h with hvalue | ⟨value, s₂, -, h⟩
  · exact explained_token hvalue ((after_mark hcolon).trans hs) (by decide) ⟨.null, rfl⟩
      ⟨[], ⟨key, .null⟩, trivial, rfl⟩
  · exact absurd h (by simp [locationFrom, run_map_eq_error])

theorem explained_phrase {source : String} {expected : Expectation} {s : TokenStream} {stop : Stop}
    (h : (phrase source expected).run s = .error stop) (hexpected : expected ≠ .action)
    (hnamed : ∀ name, expected.Names (some (.identifier name))) :
    Explained (KindsOf Pair.kinds fun _ => True) s stop := by
  unfold phrase at h
  rw [run_bind_of_ok (run_place s)] at h
  rcases run_bind_eq_error.mp h with hkey | ⟨key, s₁, hkey, h⟩
  · exact explained_token hkey s.after_refl hexpected (hnamed "key")
      ⟨[.mark .colon, .literal .null], ⟨"key", .null⟩, trivial, rfl⟩
  · exact explained_afterKey (after_identifier hkey) h

/-! ## Two entries in step -/

section

variable {unseen : Nat} (source source' : String)

theorem lockstep_afterKey (key key' : String) (start start' : Position) :
    Lockstep unseen Any (afterKey source key start) (afterKey source' key' start') := by
  refine lockstep_token_bind (fun _ _ => rfl) fun _ _ => ?_
  refine lockstep_token_bind (fun _ _ => rfl) fun value value' => ?_
  exact lockstep_bind (lockstep_locationFrom source source' start start')
    (fun _ => lockstep_pure trivial) fun _ => looks_pure _

theorem looks_phrase (expected : Expectation) : Looks (phrase source expected) :=
  looks_bind looks_place fun _ => looks_token_bind

theorem lockstep_phrase (expected : Expectation) :
    Lockstep unseen Any (phrase source expected) (phrase source' expected) := by
  refine lockstep_place_bind fun s s' _ => ?_
  exact lockstep_token_bind (fun _ _ => rfl) fun key key' =>
    lockstep_afterKey source source' key key' s.position s'.position

end

/-! ## Locations -/

/-- The entry is read from the tokens `own` of the text `source`. -/
structure IsAt (source : String) (e : Entry) (own : List Token) : Prop where
  kinds : own.map (·.kind) = e.pair.kinds
  covers : e.location.Covers source own

theorem location_afterKey {source key : String} {start : Position} {s s' : TokenStream} {e : Entry}
    (h : (afterKey source key start).run s = .ok (e, s')) :
    e.location = ⟨source, start, s'.behind⟩ := by
  obtain ⟨u, s₁, -, h₁⟩ := run_bind_eq_ok.mp h
  obtain ⟨value, s₂, -, h₂⟩ := run_bind_eq_ok.mp h₁
  obtain ⟨location, s₃, hlocation, h₃⟩ := run_bind_eq_ok.mp h₂
  obtain ⟨rfl, rfl⟩ := run_pure_eq_ok.mp hlocation
  obtain ⟨rfl, rfl⟩ := run_pure_eq_ok.mp h₃
  rfl

theorem tracks_afterKey (source key : String) (start : Position) :
    Tracks (afterKey source key start) :=
  tracks_bind (tracks_token _ _) fun _ => tracks_bind (tracks_token _ _) fun _ =>
    tracks_bind (tracks_locationFrom source start) fun _ => tracks_pure _

/-- An entry is read from its key on, whose place is where the entry starts. -/
theorem placed_afterKey {source key : String} {place s' : TokenStream} {e : Entry}
    (hkey : place.next? = some (.identifier key))
    (h : (afterKey source key place.position).run place.drop = .ok (e, s')) :
    Placed (IsAt source) place [e] s' := by
  obtain ⟨first, hfirst⟩ := place.exists_takes_drop
  obtain ⟨others, hothers⟩ := tracks_afterKey source key place.position h
  have htakes := hfirst.trans hothers
  have hread := sound_afterKey h
  rw [← TokenStream.kinds_eq_cons hkey] at hread
  obtain ⟨hkinds, hcovers⟩ := htakes.kinds_covers hread source
  rw [← location_afterKey h] at hcovers
  exact ⟨_, htakes, spread_singleton ⟨hkinds, hcovers⟩⟩

theorem placed_phrase {source : String} {expected : Expectation} {s s' : TokenStream} {e : Entry}
    (h : (phrase source expected).run s = .ok (e, s')) : Placed (IsAt source) s [e] s' := by
  unfold phrase at h
  rw [run_bind_of_ok (run_place s)] at h
  obtain ⟨key, s₁, hkey, hafter⟩ := run_bind_eq_ok.mp h
  have hnext : s.next? = some (.identifier key) := by
    rw [TokenStream.next?_eq_head?, identifier_sound hkey]
    rfl
  obtain rfl := (token_eq_ok.mp hkey).2
  exact placed_afterKey hnext hafter

/-- Entries that are spread over tokens have locations that are. -/
theorem spread_covers {source : String} {entries : List Entry} {ts : List Token}
    (h : Spread (IsAt source) entries ts) :
    Spread (fun l own => l.Covers source own) (entries.map (·.location)) ts :=
  h.map fun _ _ he => he.covers

/-! ## Writing -/

theorem wellFormed_of_lexical {d : Dialect} {e : Entry} (h : Lexical d e.pair.kinds) :
    e.WellFormed := by
  simp only [Pair.kinds, lexical_cons] at h
  exact ⟨h.1.1, h.2.2.1⟩

/-- A notation without reserved words writes an entry as its key, a colon and its value. -/
theorem WellFormed.writes_text {d : Dialect} (hd : d.keywords = []) {e : Entry}
    (h : e.WellFormed) : Writes d Apart e.text e.pair.kinds := by
  have hfree : d.keyword? e.key = none := by
    rw [Dialect.keyword?, hd]
    rfl
  have hkey := (writes_identifier h.key hfree).append writes_colon
    fun rest _ => (apart_colon rest).wordEnds
  exact hkey.append (writes_literal h.value) fun _ _ => trivial

end Entry
end ObjectTransfer
