import ObjectTransfer.Proofs.Text.Places
import ObjectTransfer.Token.Cursor

/-!
# How a cursor moves

A cursor only moves forward, over characters that it counts (`Cursor.Reads`).
-/

namespace ObjectTransfer.Cursor

/-- The cursor has moved from `c` to `next` over the characters `text`. -/
structure Reads (c : Cursor) (text : List Char) (next : Cursor) : Prop where
  rest : c.rest = text ++ next.rest
  position : next.position = c.position.advanceBy text

variable {c mid next : Cursor} {text text' : List Char}

theorem reads_refl (c : Cursor) : c.Reads [] c := ⟨rfl, rfl⟩

theorem reads_cons {a : Char} {cs : List Char} {p : Position}
    (h : Reads ⟨cs, p.advance a⟩ text next) : Reads ⟨a :: cs, p⟩ (a :: text) next :=
  ⟨by rw [List.cons_append, ← h.rest], h.position⟩

theorem Reads.trans (h : c.Reads text mid) (h' : mid.Reads text' next) :
    c.Reads (text ++ text') next :=
  ⟨by rw [h.rest, h'.rest, List.append_assoc], by
    rw [h'.position, h.position, Position.advanceBy_append]⟩

theorem Reads.offset_le (h : c.Reads text next) : c.position.offset ≤ next.position.offset := by
  rw [h.position]
  exact c.position.offset_le_advanceBy text

/-- The text between two cursors is determined by them. -/
theorem Reads.text_unique (h : c.Reads text next) (h' : c.Reads text' next) : text = text' :=
  List.append_cancel_right (h.rest.symm.trans h'.rest)

theorem reads_after (h : text <+: c.rest) : c.Reads text (c.after text) := by
  obtain ⟨others, hrest⟩ := h
  refine ⟨?_, rfl⟩
  rw [after, ← hrest, List.drop_left]

theorem rest_after_takeWhile (c : Cursor) (p : Char → Bool) :
    (c.after (c.rest.takeWhile p)).rest = c.rest.dropWhile p := by
  have hrest := (reads_after (List.takeWhile_prefix p (l := c.rest))).rest
  conv_lhs at hrest => rw [← List.takeWhile_append_dropWhile (p := p) (l := c.rest)]
  exact (List.append_cancel_left hrest).symm

end ObjectTransfer.Cursor
