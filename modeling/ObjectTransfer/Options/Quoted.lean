/-!
# Quoted strings of an options file

An options file is a flat TOML document. Its strings are in double quotes, with escapes, or in
single quotes, without; and in three quotes of either kind they may run over several lines.
-/

namespace ObjectTransfer.Options

/-- A character that may stand in a string or a comment: any but the controls other than the tab. -/
def isPlain (c : Char) : Bool := c = '\t' || (0x20 ≤ c.toNat && c.toNat ≠ 0x7F)

/-- The value of a digit in the given base, up to sixteen. -/
def digitOf? (base : Nat) (c : Char) : Option Nat :=
  let value :=
    if '0' ≤ c && c ≤ '9' then c.toNat - '0'.toNat
    else if 'a' ≤ c && c ≤ 'f' then c.toNat - 'a'.toNat + 10
    else if 'A' ≤ c && c ≤ 'F' then c.toNat - 'A'.toNat + 10
    else base
  if value < base then some value else none

/-- The character whose code point is spelled by hexadecimal digits. -/
def ofCodePoint? (digits : List Char) : Option Char := do
  let code ← digits.foldlM (fun code c => do return code * 16 + (← digitOf? 16 c)) 0
  if code.isValidChar then some (Char.ofNat code) else none

/-- The character that a letter after a backslash stands for. -/
def escapeOf? : Char → Option Char
  | 'b' => some '\x08'
  | 't' => some '\t'
  | 'n' => some '\n'
  | 'f' => some '\x0c'
  | 'r' => some '\r'
  | '"' => some '"'
  | '\\' => some '\\'
  | _ => none

/-- The character of an escape and what follows it, from after the backslash. -/
def readEscape : List Char → Option (Char × List Char)
  | 'u' :: a :: b :: c :: d :: cs => do return (← ofCodePoint? [a, b, c, d], cs)
  | 'U' :: a :: b :: c :: d :: e :: f :: g :: h :: cs => do
    return (← ofCodePoint? [a, b, c, d, e, f, g, h], cs)
  | c :: cs => do return (← escapeOf? c, cs)
  | [] => none

theorem readEscape_length_lt {cs rest : List Char} {c : Char}
    (h : readEscape cs = some (c, rest)) : rest.length < cs.length := by
  unfold readEscape at h
  split at h <;> simp [Option.bind_eq_some_iff] at h
  all_goals
    obtain ⟨_, _, _, rfl⟩ := h
    simp only [List.length_cons]
    omega

/-- The content of a string on one line and what follows its closing quote; `content` is what has
been read of it, latest first. Double quotes have escapes. -/
def readLineString (quote : Char) (content : List Char) (cs : List Char) :
    Option (String × List Char) :=
  match cs with
  | [] => none
  | c :: cs =>
    if c = quote then some (String.ofList content.reverse, cs)
    else if c = '\\' ∧ quote = '"' then
      match _h : readEscape cs with
      | some (meant, rest) => readLineString quote (meant :: content) rest
      | none => none
    else if isPlain c then readLineString quote (c :: content) cs
    else none
termination_by cs.length
decreasing_by
  · have := readEscape_length_lt _h
    simp only [List.length_cons]
    omega
  · simp

/-- What is left without the blanks and line breaks at the front. A carriage return counts only as
part of a line break. -/
def dropBreaks : List Char → List Char
  | ' ' :: cs => dropBreaks cs
  | '\t' :: cs => dropBreaks cs
  | '\n' :: cs => dropBreaks cs
  | '\r' :: '\n' :: cs => dropBreaks cs
  | cs => cs

/-- What follows a line break, if one comes first. -/
def lineBreak? : List Char → Option (List Char)
  | '\n' :: cs => some cs
  | '\r' :: '\n' :: cs => some cs
  | _ => none

/-- What follows a backslash that stands before nothing but blanks on its line: the line break and
all blanks and breaks after it mean nothing. -/
def continuation? (cs : List Char) : Option (List Char) :=
  (lineBreak? (cs.dropWhile fun c => c = ' ' || c = '\t')).map dropBreaks

theorem dropBreaks_length_le (cs : List Char) : (dropBreaks cs).length ≤ cs.length := by
  fun_induction dropBreaks cs <;> simp_all <;> omega

theorem lineBreak?_length_lt {cs rest : List Char} (h : lineBreak? cs = some rest) :
    rest.length < cs.length := by
  unfold lineBreak? at h
  split at h
  · obtain rfl := Option.some.inj h
    exact Nat.lt_succ_self _
  · obtain rfl := Option.some.inj h
    simp only [List.length_cons]
    omega
  · simp at h

theorem continuation?_length_lt {cs rest : List Char} (h : continuation? cs = some rest) :
    rest.length < cs.length := by
  obtain ⟨after, hafter, rfl⟩ := Option.map_eq_some_iff.1 h
  have := dropBreaks_length_le after
  have := lineBreak?_length_lt hafter
  have := (List.dropWhile_suffix (l := cs) fun c => c = ' ' || c = '\t').length_le
  omega

/-- The content of a string on several lines and what follows its closing quotes; `content` is what
has been read of it, latest first. Three quotes close it, and up to two before them are content. -/
def readBlockString (quote : Char) (content : List Char) (cs : List Char) :
    Option (String × List Char) :=
  match cs with
  | [] => none
  | c :: cs =>
    if c = quote then
      let others := cs.takeWhile (· = quote)
      let rest := cs.dropWhile (· = quote)
      if others.length < 2 then readBlockString quote (others ++ c :: content) rest
      else if others.length < 5 then
        some (String.ofList (content.reverse ++ others.drop 2), rest)
      else none
    else if c = '\\' ∧ quote = '"' then
      match _h : continuation? cs with
      | some rest => readBlockString quote content rest
      | none =>
        match _h : readEscape cs with
        | some (meant, rest) => readBlockString quote (meant :: content) rest
        | none => none
    else if isPlain c then readBlockString quote (c :: content) cs
    else match _h : lineBreak? (c :: cs) with
      | some rest => readBlockString quote ('\n' :: content) rest
      | none => none
termination_by cs.length
decreasing_by
  · have := (List.dropWhile_suffix (l := cs) (· = quote)).length_le
    simp only [List.length_cons]
    omega
  · have := continuation?_length_lt _h
    simp only [List.length_cons]
    omega
  · have := readEscape_length_lt _h
    simp only [List.length_cons]
    omega
  · simp
  · exact lineBreak?_length_lt _h

theorem readLineString_length_lt {quote : Char} {content cs rest : List Char} {s : String}
    (h : readLineString quote content cs = some (s, rest)) : rest.length < cs.length := by
  fun_induction readLineString quote content cs with
  | case1 | case4 | case6 => simp at h
  | case2 => simp_all
  | case3 content c cs _ _ meant after hescape ih =>
    have := readEscape_length_lt hescape
    have := ih h
    simp only [List.length_cons]
    omega
  | case5 content c cs _ _ _ ih =>
    have := ih h
    simp only [List.length_cons]
    omega

theorem readBlockString_length_lt {quote : Char} {content cs rest : List Char} {s : String}
    (h : readBlockString quote content cs = some (s, rest)) : rest.length < cs.length := by
  fun_induction readBlockString quote content cs with
  | case1 | case4 | case7 | case10 => simp at h
  | case2 content cs others after _ ih =>
    have := ih h
    have hafter : after.length ≤ cs.length := (List.dropWhile_suffix _).length_le
    simp only [List.length_cons]
    omega
  | case3 content cs others after _ _ =>
    simp only [Option.some.injEq, Prod.mk.injEq] at h
    have hafter : after.length ≤ cs.length := (List.dropWhile_suffix _).length_le
    rw [← h.2, List.length_cons]
    omega
  | case5 content c cs _ _ after hline ih =>
    have := continuation?_length_lt hline
    have := ih h
    simp only [List.length_cons]
    omega
  | case6 content c cs _ _ _ meant after hescape ih =>
    have := readEscape_length_lt hescape
    have := ih h
    simp only [List.length_cons]
    omega
  | case8 content c cs _ _ _ ih =>
    have := ih h
    simp only [List.length_cons]
    omega
  | case9 content c cs _ _ _ after hbreak ih =>
    exact Nat.lt_trans (ih h) (lineBreak?_length_lt hbreak)

/-- The string at the front, and what follows it. The first line break of a string in three quotes
is no content. -/
def readText : List Char → Option (String × List Char)
  | '"' :: '"' :: '"' :: cs => readBlockString '"' [] ((lineBreak? cs).getD cs)
  | '\'' :: '\'' :: '\'' :: cs => readBlockString '\'' [] ((lineBreak? cs).getD cs)
  | '"' :: cs => readLineString '"' [] cs
  | '\'' :: cs => readLineString '\'' [] cs
  | _ => none

theorem readText_length_le {cs rest : List Char} {s : String} (h : readText cs = some (s, rest)) :
    rest.length ≤ cs.length := by
  have hbreak (ds : List Char) : ((lineBreak? ds).getD ds).length ≤ ds.length := by
    cases hline : lineBreak? ds with
    | none => simp
    | some after => exact Nat.le_of_lt (lineBreak?_length_lt hline)
  unfold readText at h
  split at h
  · have := readBlockString_length_lt h
    have := hbreak ‹_›
    simp only [List.length_cons]
    omega
  · have := readBlockString_length_lt h
    have := hbreak ‹_›
    simp only [List.length_cons]
    omega
  · have := readLineString_length_lt h
    simp only [List.length_cons]
    omega
  · have := readLineString_length_lt h
    simp only [List.length_cons]
    omega
  · simp at h

end ObjectTransfer.Options
