import ObjectTransfer.Text.Location
import Mathlib.Data.List.Induction
import Mathlib.Data.String.Basic
import Mathlib.Tactic.SplitIfs

/-!
# Places in a text

A position is a place of a text if its offset lies between two characters of the text and its line
and column are those of the characters before it (`Position.IsPlaceOf`). Counting from the start of
a text over some of its characters leads to such a place (`isPlaceOf_advanceBy`), and the offsets
before and after a part of a text cut out that part (`byteSlice?_of_append`).
-/

namespace ObjectTransfer

/-! ## Counting -/

namespace Position

theorem offset_advance (p : Position) (c : Char) :
    (p.advance c).offset = p.offset + c.utf8Size := by
  unfold advance
  split <;> rfl

theorem offset_advanceBy (p : Position) (cs : List Char) :
    (p.advanceBy cs).offset = p.offset + String.utf8Len cs := by
  induction cs generalizing p with
  | nil => rfl
  | cons c cs ih =>
    rw [advanceBy_cons, ih, offset_advance, String.utf8Len_cons]
    omega

theorem offset_start_advanceBy (cs : List Char) :
    (start.advanceBy cs).offset = String.utf8Len cs := by
  rw [offset_advanceBy]
  exact Nat.zero_add _

theorem offset_le_advanceBy (p : Position) (cs : List Char) :
    p.offset ≤ (p.advanceBy cs).offset := by
  rw [offset_advanceBy]
  exact Nat.le_add_right _ _

theorem line_advanceBy (p : Position) (cs : List Char) :
    (p.advanceBy cs).line = p.line + cs.count '\n' := by
  induction cs generalizing p with
  | nil => rfl
  | cons c cs ih =>
    rw [advanceBy_cons, ih, List.count_cons]
    by_cases hc : c = '\n'
    · simp [advance, hc]
      omega
    · simp [advance, hc]

end Position

/-- The characters after the last line feed, or all if there is none. -/
def afterLastFeed (cs : List Char) : List Char := (cs.reverse.takeWhile (· ≠ '\n')).reverse

theorem afterLastFeed_concat (cs : List Char) (c : Char) :
    afterLastFeed (cs ++ [c]) = if c = '\n' then [] else afterLastFeed cs ++ [c] := by
  by_cases hc : c = '\n' <;> simp [afterLastFeed, hc]

theorem Position.column_start_advanceBy (cs : List Char) :
    (start.advanceBy cs).column = 1 + (afterLastFeed cs).length := by
  -- By induction from the end of the text, since only its last line counts.
  induction cs using List.reverseRecOn with
  | nil => rfl
  | append_singleton cs c ih =>
    rw [advanceBy_append, afterLastFeed_concat, advanceBy_cons, advanceBy_nil, advance]
    by_cases hc : c = '\n'
    · rw [if_pos hc, if_pos hc]
      rfl
    · rw [if_neg hc, if_neg hc, List.length_append, ih]
      rfl

/-! ## Cutting -/

/-- The bytes of a text are those in front of a place and those behind it. -/
theorem utf8ByteSize_of_append {source : String} {before rest : List Char}
    (h : source.toList = before ++ rest) :
    source.utf8ByteSize = String.utf8Len before + String.utf8Len rest := by
  rw [← String.utf8Len_toList, h, String.utf8Len_append]

theorem splitAtByte?_append (seen part rest : List Char) :
    splitAtByte? seen (String.utf8Len part) (part ++ rest) = some (seen.reverse ++ part, rest) := by
  induction part generalizing seen with
  | nil => cases rest <;> simp [splitAtByte?]
  | cons c cs ih =>
    have hc := c.utf8Size_pos
    rw [List.cons_append, splitAtByte?, String.utf8Len_cons, if_neg (by omega), if_pos (by omega),
      Nat.add_sub_cancel, ih]
    simp

/-- The offsets before and after a part of a text cut out that part. -/
theorem byteSlice?_of_append {source : String} {before part rest : List Char}
    (h : source.toList = before ++ (part ++ rest)) :
    byteSlice? source (String.utf8Len before) (String.utf8Len before + String.utf8Len part) =
      some (String.ofList part) := by
  unfold byteSlice?
  rw [if_neg (by omega), h, splitAtByte?_append]
  simp [splitAtByte?_append]

/-! ## Places -/

/-- The position is a place of the text `source`: it lies in the text between two characters, on the
line after as many line feeds and in the column after as many characters as stand before it. -/
structure Position.IsPlaceOf (p : Position) (source : String) : Prop where
  inside : p.offset ≤ source.utf8ByteSize
  boundary : (String.Pos.Raw.mk p.offset).IsValid source
  counted : ∃ before, byteSlice? source 0 p.offset = some before ∧
    p.line = 1 + before.toList.count '\n' ∧
    p.column = 1 + (afterLastFeed before.toList).length

/-- Counting over the characters at the start of a text leads to a place of it. -/
theorem isPlaceOf_advanceBy {source : String} {before rest : List Char}
    (h : source.toList = before ++ rest) : (Position.start.advanceBy before).IsPlaceOf source := by
  have hoffset := Position.offset_start_advanceBy before
  have hsource : source = String.ofList before ++ String.ofList rest := by
    rw [← String.ofList_append, ← h, String.ofList_toList]
  have hsize := utf8ByteSize_of_append h
  refine ⟨by omega, ?_, String.ofList before, ?_, ?_, ?_⟩
  · rw [String.Pos.Raw.isValid_iff_exists_append]
    refine ⟨_, _, hsource, ?_⟩
    rw [hoffset, ← String.utf8ByteSize_ofList]
    rfl
  · have hcut : byteSlice? source (String.utf8Len []) (String.utf8Len [] + String.utf8Len before) =
        some (String.ofList before) := byteSlice?_of_append h
    rwa [String.utf8Len_nil, Nat.zero_add, ← hoffset] at hcut
  · rw [Position.line_advanceBy, String.toList_ofList]
    rfl
  · rw [Position.column_start_advanceBy, String.toList_ofList]

end ObjectTransfer
