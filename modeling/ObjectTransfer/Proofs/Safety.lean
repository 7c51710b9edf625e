import ObjectTransfer.Proofs.Procedure.Reading
import ObjectTransfer.Proofs.Token.Positions

/-!
# Reading is safe

Whatever a text is and whatever the limits are, reading it ends (`Dialect.parse_safe`). All the time
there is a next token, the last one being the end of the text; what a loop, a part or a type reads takes
a token at least; and no more types are open than tokens have been read, and one. If the text is not
read, the error is at a place of it.
-/

namespace ObjectTransfer

/-- The place in front of the token with the given index, which is one of the tokens or the end of the
text. All that is told of the place is told of the tokens. -/
structure TokenStream.IsAt (place : TokenStream) (tokens : Tokens) (index : Nat) : Prop where
  inside : index < tokens.stream.ended.length
  next : tokens.stream.ended[index]? = some place.next?
  position : tokens.stream.starts[index]? = some place.position
  rest : place.rest = tokens.list.drop index
  /-- The place knows where the token before it ended. -/
  behind : place.behind = match (tokens.list.take index).getLast? with
    | none => .start
    | some last => last.finish

/-- What is noted while `tokens` are read is in range, and takes a token at least if it is read. -/
def Note.Safe (tokens : Tokens) : Note → Prop
  | .at now => (∃ index, now.place.IsAt tokens index) ∧ now.depth ≤ tokens.list.length
  | .begins now => (∃ index, now.place.IsAt tokens index) ∧ now.depth + 1 ≤ tokens.list.length + 1
  | .read before after => ∃ index index', before.IsAt tokens index ∧ after.IsAt tokens index' ∧
    index < index'

variable {tokens : Tokens} {place : TokenStream}

/-- A place that reading comes to. -/
theorem TokenStream.Leaves.isAt (h : tokens.stream.Leaves place) :
    place.IsAt tokens (tokens.list.length - place.rest.length) := by
  obtain ⟨own, htakes⟩ := h.takes
  have hrest : tokens.list = own ++ place.rest := htakes.rest
  have hindex : tokens.list.length - place.rest.length = (own.map (·.kind)).length := by
    rw [hrest, List.length_append, List.length_map, Nat.add_sub_cancel]
  have hafter : place.After (own.map (·.kind)) tokens.stream := by
    refine ⟨?_, h.follows⟩
    rw [kinds, htakes.rest, List.map_append]
    rfl
  have hnext := hafter.getElem?_ended
  have hposition := hafter.getElem?_starts
  rw [hindex]
  refine ⟨(List.getElem?_eq_some_iff.mp hnext).1, hnext, hposition, ?_, ?_⟩
  · rw [hrest, List.length_map, List.drop_left]
  · rw [hrest, List.length_map, List.take_left, htakes.behind]
    cases own.getLast? <;> rfl

/-- What can be noted in a run over the tokens is safe. -/
theorem Note.Within.safe {note : Note} (h : note.Within ⟨tokens.stream, 0⟩) : note.Safe tokens := by
  cases note with
  | «at» now =>
    have hcount : now.depth + now.place.rest.length ≤ 0 + tokens.list.length := h.count
    exact ⟨⟨_, h.place.isAt⟩, by omega⟩
  | begins now =>
    have hcount : now.depth + now.place.rest.length ≤ 0 + tokens.list.length := h.count
    exact ⟨⟨_, h.place.isAt⟩, by omega⟩
  | read before after =>
    have hbefore : before.rest.length ≤ tokens.list.length := h.1.length_le
    have hlength := h.2.2
    exact ⟨_, _, h.1.isAt, (h.1.trans h.2.1).isAt, by omega⟩

/-- Only the last of the tokens is the end of the text. -/
theorem TokenStream.getElem?_ended_eq_none {s : TokenStream} {index : Nat} :
    s.ended[index]? = some none ↔ index + 1 = s.ended.length := by
  have hnone : none ∉ s.kinds.map some := by simp
  rw [ended, List.length_append, List.length_singleton, Nat.add_right_cancel_iff]
  constructor
  · intro h
    obtain ⟨hinside, hend⟩ := List.getElem?_eq_some_iff.mp h
    rw [List.length_append, List.length_singleton] at hinside
    by_contra hne
    have hlt : index < (s.kinds.map some).length := by omega
    rw [List.getElem_append_left hlt] at hend
    exact hnone (hend ▸ List.getElem_mem hlt)
  · rintro rfl
    exact List.getElem?_concat_length

/-- The tokens of a text start at places of it, and it ends at one. -/
theorem isPlaceOf_of_mem_starts {d : Dialect} {source : String}
    (h : tokenize d source = .ok tokens) :
    ∀ p ∈ tokens.stream.starts, p.IsPlaceOf source := by
  obtain ⟨-, hresult⟩ := Cursor.exists_reads_tokens (d := d)
    (Cursor.reads_refl (Cursor.ofString source))
  rw [show ((Cursor.ofString source).tokens d).1 = _ from h] at hresult
  refine List.forall_mem_append.mpr ⟨fun p hp => ?_, List.forall_mem_singleton.mpr hresult.1⟩
  obtain ⟨t, ht, rfl⟩ := List.mem_map.mp hp
  exact (hresult.2 t ht).start

namespace Dialect

variable {d : Dialect} {options : Options} {source : String}

/-- An error is at a place of the text, if it is at any. -/
theorem isPlaceOf_of_parse {e : ParseError} (h : d.parse options source = .error e) :
    ∀ p ∈ e.position?, p.IsPlaceOf source := by
  rcases parse_error_cases h with ⟨-, rfl⟩ | ⟨lexical, htokens, rfl⟩ |
    ⟨tokens, stop, htokens, hread, rfl⟩
  · exact nofun
  · obtain ⟨-, hresult⟩ := Cursor.exists_reads_tokens (d := d)
      (Cursor.reads_refl (Cursor.ofString source))
    rw [show ((Cursor.ofString source).tokens d).1 = _ from htokens] at hresult
    rintro p ⟨⟩
    exact hresult.1
  · obtain ⟨⟨before, hbefore⟩, -⟩ := exists_after_stop hread
    have hplace := isPlaceOf_of_mem_starts htokens _
      (List.mem_of_getElem? hbefore.getElem?_starts)
    rw [stop.position?_toError]
    rintro p ⟨⟩
    exact hplace

/-- Reading a text is safe. Its tokens are read in one run, which ends as reading does, and all that
is noted in it is safe. An error is at a place of the text, if it is at any. -/
theorem parse_safe (d : Dialect) (options : Options) (source : String) :
    (match tokenize d source with
      | .error _ => True
      | .ok tokens =>
        (∀ index, tokens.stream.ended[index]? = some none ↔
          index + 1 = tokens.stream.ended.length) ∧
        ∃ log o, (∀ log' o', d.Reads options tokens.stream log' o' ↔ log' = log ∧ o' = o) ∧
          (d.read options tokens.stream).result = o.value ∧ ∀ note ∈ log, note.Safe tokens) ∧
    match d.parse options source with
      | .ok _ => True
      | .error e => ∀ p ∈ e.position?, p.IsPlaceOf source := by
  constructor
  · cases tokenize d source with
    | error e => trivial
    | ok tokens =>
      obtain ⟨log, o, hrun, hresult⟩ := exists_run d options tokens.stream
      refine ⟨fun index => TokenStream.getElem?_ended_eq_none, log, o, fun log' o' => ⟨hrun.unique, ?_⟩,
        hresult, fun note hnote => (hrun.within.1 note hnote).safe⟩
      rintro ⟨rfl, rfl⟩
      exact hrun
  · cases hparse : d.parse options source with
    | ok document => trivial
    | error e => exact isPlaceOf_of_parse hparse

end Dialect
end ObjectTransfer
