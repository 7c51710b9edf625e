import ObjectTransfer.Proofs.Text.Places
import ObjectTransfer.Text.Slice
import Mathlib.Data.List.TakeWhile
import Mathlib.Tactic.ByContra

/-!
# Lines of a text

The line feeds of a text cut it into pieces. A line is a piece without the carriage return in front of
its line feed; the piece behind the last line feed is a line if there is anything in it (`textLines`).
Looking for a line by its number finds these lines (`line?_eq_getElem?`). The line of a place has what
stands between the last line feed in front of the place and the place, and goes on with what follows
(`exists_line?_append`).
-/

namespace ObjectTransfer

variable {cs xs ys : List Char}

/-! ## Pieces -/

/-- A piece that a line feed ends, without the carriage return in front of the line feed. -/
def endedLine (piece : List Char) : List Char :=
  if piece.getLast? = some '\r' then piece.dropLast else piece

/-- The lines of a text that line feeds cut into pieces. No line feed ends the last piece. -/
def linesOf : List (List Char) → List (List Char)
  | [] => []
  | [last] => if last = [] then [] else [last]
  | piece :: next :: pieces => endedLine piece :: linesOf (next :: pieces)

/-- The lines of a text without their endings. -/
def textLines (cs : List Char) : List (List Char) := linesOf (cs.splitOn '\n')

theorem textLines_of_not_mem (h : '\n' ∉ cs) : textLines cs = if cs = [] then [] else [cs] := by
  rw [textLines, List.splitOn_eq_singleton h, linesOf]

theorem textLines_append_feed (h : '\n' ∉ xs) :
    textLines (xs ++ '\n' :: ys) = endedLine xs :: textLines ys := by
  obtain ⟨piece, pieces, hpieces⟩ := List.exists_cons_of_ne_nil (List.splitOn_ne_nil '\n' ys)
  rw [textLines, List.splitOn_append_cons_self_of_not_mem h, textLines, hpieces, linesOf]

/-! ## Lines by their number -/

theorem takeWhile_of_not_mem (h : '\n' ∉ xs) (ys : List Char) :
    (xs ++ ys).takeWhile (· ≠ '\n') = xs ++ ys.takeWhile (· ≠ '\n') := by
  apply List.takeWhile_append_of_pos
  intro c hc
  have hne : c ≠ '\n' := fun hfeed => h (hfeed ▸ hc)
  simpa using hne

/-- A line that no line feed ends is kept as it is. -/
theorem firstLine_of_not_mem (h : '\n' ∉ cs) : firstLine cs = cs := by
  have hall : cs.takeWhile (· ≠ '\n') = cs := by
    have hline := takeWhile_of_not_mem h []
    rwa [List.append_nil, List.takeWhile_nil, List.append_nil] at hline
  simp only [firstLine, hall, Nat.lt_irrefl, decide_false, Bool.false_and, Bool.false_eq_true,
    if_false]

theorem firstLine_append_feed (h : '\n' ∉ xs) : firstLine (xs ++ '\n' :: ys) = endedLine xs := by
  have hline : (xs ++ '\n' :: ys).takeWhile (· ≠ '\n') = xs := by
    rw [takeWhile_of_not_mem h, List.takeWhile_cons]
    simp
  have hlonger : xs.length < (xs ++ '\n' :: ys).length := by simp
  simp only [firstLine, hline, hlonger, decide_true, Bool.true_and, decide_eq_true_eq, endedLine]

theorem afterLines_of_not_mem (h : '\n' ∉ cs) (n : Nat) : afterLines (n + 1) cs = [] := by
  induction cs with
  | nil => rfl
  | cons c cs ih =>
    have hc : c ≠ '\n' := fun hfeed => h (hfeed ▸ List.mem_cons_self)
    rw [afterLines, if_neg hc]
    exact ih fun hcs => h (List.mem_cons_of_mem c hcs)

theorem afterLines_append_feed (h : '\n' ∉ xs) (n : Nat) (ys : List Char) :
    afterLines (n + 1) (xs ++ '\n' :: ys) = afterLines n ys := by
  induction xs with
  | nil => rw [List.nil_append, afterLines, if_pos rfl]
  | cons c cs ih =>
    have hc : c ≠ '\n' := fun hfeed => h (hfeed ▸ List.mem_cons_self)
    rw [List.cons_append, afterLines, if_neg hc]
    exact ih fun hcs => h (List.mem_cons_of_mem c hcs)

theorem line?_of_ne_nil {n : Nat} (h : afterLines n cs ≠ []) :
    line? cs n = some (firstLine (afterLines n cs)) := by
  unfold line?
  split
  · rename_i hnil
    exact absurd hnil h
  · rfl

theorem line?_eq_none {n : Nat} : line? cs n = none ↔ afterLines n cs = [] := by
  constructor
  · intro hnone
    by_contra hne
    rw [line?_of_ne_nil hne] at hnone
    exact absurd hnone (by simp)
  · intro hnil
    rw [line?, hnil]

/-- Behind a line feed the lines are counted from the next one on. -/
theorem line?_append_feed (h : '\n' ∉ xs) (n : Nat) (ys : List Char) :
    line? (xs ++ '\n' :: ys) (n + 1) = line? ys n := by
  rw [line?, afterLines_append_feed h, line?]

/-- The line with a number is the one at this place among the lines of the text. -/
theorem line?_eq_getElem? (cs : List Char) (n : Nat) : line? cs n = (textLines cs)[n]? := by
  induction n generalizing cs with
  | zero =>
    by_cases hfeed : '\n' ∈ cs
    · obtain ⟨xs, ys, rfl, hxs⟩ := List.eq_append_cons_of_mem hfeed
      rw [line?_of_ne_nil (by simp [afterLines]), afterLines, firstLine_append_feed hxs,
        textLines_append_feed hxs, List.getElem?_cons_zero]
    · rw [textLines_of_not_mem hfeed]
      by_cases hnil : cs = []
      · rw [if_pos hnil, hnil]
        rfl
      · have hall : afterLines 0 cs = cs := by rw [afterLines]
        have hne : afterLines 0 cs ≠ [] := by rwa [hall]
        rw [if_neg hnil, line?_of_ne_nil hne, hall, firstLine_of_not_mem hfeed,
          List.getElem?_cons_zero]
  | succ n ih =>
    by_cases hfeed : '\n' ∈ cs
    · obtain ⟨xs, ys, rfl, hxs⟩ := List.eq_append_cons_of_mem hfeed
      rw [line?_append_feed hxs, ih, textLines_append_feed hxs, List.getElem?_cons_succ]
    · rw [line?_eq_none.mpr (afterLines_of_not_mem hfeed n), textLines_of_not_mem hfeed]
      by_cases hnil : cs = []
      · rw [if_pos hnil, List.getElem?_nil]
      · rw [if_neg hnil, List.getElem?_cons_succ, List.getElem?_nil]

/-- A line ends in front of the line feed that ends it, or in front of the carriage return there. -/
theorem firstLine_front (cs : List Char) : firstLine cs <+: cs.takeWhile (· ≠ '\n') := by
  simp only [firstLine]
  split
  · exact List.dropLast_prefix _
  · exact List.prefix_rfl

/-- No line has a line feed. -/
theorem not_mem_line? {n : Nat} {line : List Char} (h : line? cs n = some line) : '\n' ∉ line := by
  have hne : afterLines n cs ≠ [] := fun hnil => by
    rw [line?_eq_none.mpr hnil] at h
    exact absurd h (by simp)
  rw [line?_of_ne_nil hne] at h
  intro hmem
  rw [← Option.some.inj h] at hmem
  simpa using List.mem_takeWhile_imp ((firstLine_front _).subset hmem)

/-! ## The line of a place -/

variable {before rest : List Char}

theorem not_mem_afterLastFeed (cs : List Char) : '\n' ∉ afterLastFeed cs := by
  intro h
  simpa using List.mem_takeWhile_imp (List.mem_reverse.mp h)

theorem afterLastFeed_eq_nil :
    afterLastFeed before = [] ↔ before = [] ∨ before.getLast? = some '\n' := by
  induction before using List.reverseRecOn with
  | nil => simp [afterLastFeed]
  | append_singleton cs c =>
    rw [afterLastFeed_concat, List.getLast?_append_of_ne_nil _ (by simp)]
    by_cases hc : c = '\n' <;> simp [hc]

/-- One line feed more is passed behind the others. -/
theorem afterLines_succ (n : Nat) (cs : List Char) :
    afterLines (n + 1) cs = afterLines 1 (afterLines n cs) := by
  induction n generalizing cs with
  | zero => rw [afterLines]
  | succ n ih =>
    by_cases hfeed : '\n' ∈ cs
    · obtain ⟨xs, ys, rfl, hxs⟩ := List.eq_append_cons_of_mem hfeed
      rw [afterLines_append_feed hxs, afterLines_append_feed hxs, ih]
    · rw [afterLines_of_not_mem hfeed, afterLines_of_not_mem hfeed, afterLines]

/-- Behind as many line feeds as there are in front of a place, its line starts. -/
theorem afterLines_count (before rest : List Char) :
    afterLines (before.count '\n') (before ++ rest) = afterLastFeed before ++ rest := by
  -- By induction from the end: the last character goes over to what follows the place.
  induction before using List.reverseRecOn generalizing rest with
  | nil => rw [List.count_nil, afterLines, afterLastFeed, List.reverse_nil, List.takeWhile_nil,
      List.reverse_nil]
  | append_singleton cs c ih =>
    have hcs := ih (c :: rest)
    rw [afterLastFeed_concat, List.append_assoc, List.singleton_append, List.count_append]
    by_cases hc : c = '\n'
    · subst hc
      rw [List.count_singleton_self, if_pos rfl, afterLines_succ, hcs,
        afterLines_append_feed (not_mem_afterLastFeed cs), afterLines]
      rfl
    · rw [List.count_singleton, beq_false_of_ne hc, if_neg hc, List.append_assoc]
      exact hcs

/-- Only at the end of a text, where its last line has ended, a place is on no line. -/
theorem line?_append_eq_none :
    line? (before ++ rest) (before.count '\n') = none ↔ afterLastFeed before = [] ∧ rest = [] := by
  rw [line?_eq_none, afterLines_count, List.append_eq_nil_iff]

/-- The first line of a text whose start `xs` has no line feed goes on with the character behind this
start, if no ending of the line stands there. -/
theorem exists_firstLine_append (hxs : '\n' ∉ xs) (hrest : ∀ c ∈ rest.head?, c ≠ '\n' ∧ c ≠ '\r') :
    ∃ tail, firstLine (xs ++ rest) = xs ++ tail ∧ tail.head? = rest.head? := by
  cases rest with
  | nil =>
    refine ⟨[], ?_, rfl⟩
    rw [List.append_nil]
    exact firstLine_of_not_mem hxs
  | cons c cs =>
    obtain ⟨hfeed, hreturn⟩ := hrest c rfl
    have hline : (xs ++ c :: cs).takeWhile (· ≠ '\n') = xs ++ c :: cs.takeWhile (· ≠ '\n') := by
      rw [takeWhile_of_not_mem hxs, List.takeWhile_cons_of_pos (by simpa using hfeed)]
    simp only [firstLine, hline]
    split
    · rename_i hends
      -- The carriage return that is dropped is not the character at the place.
      have hne : cs.takeWhile (· ≠ '\n') ≠ [] := by
        intro hnil
        rw [hnil] at hends
        simp [hreturn] at hends
      refine ⟨c :: (cs.takeWhile (· ≠ '\n')).dropLast, ?_, rfl⟩
      rw [List.dropLast_append_of_ne_nil (by simp), List.dropLast_cons_of_ne_nil hne]
    · exact ⟨_, rfl, rfl⟩

/-- The line of a place goes on with the character at the place, if no ending of the line stands
there. -/
theorem exists_line?_append (hrest : ∀ c ∈ rest.head?, c ≠ '\n' ∧ c ≠ '\r')
    (hline : ¬ (afterLastFeed before = [] ∧ rest = [])) :
    ∃ tail, line? (before ++ rest) (before.count '\n') = some (afterLastFeed before ++ tail) ∧
      tail.head? = rest.head? := by
  obtain ⟨tail, htail, hhead⟩ := exists_firstLine_append (not_mem_afterLastFeed before) hrest
  refine ⟨tail, ?_, hhead⟩
  rw [line?_of_ne_nil, afterLines_count, htail]
  rwa [afterLines_count, ne_eq, List.append_eq_nil_iff]

/-- Only a carriage return in front of a line feed belongs to the ending, and the last line needs
none. -/
example : textLines "a\r\n\r\rb\n\nc\r".toList = [['a'], ['\r', '\r', 'b'], [], ['c', '\r']] := by
  decide

end ObjectTransfer
