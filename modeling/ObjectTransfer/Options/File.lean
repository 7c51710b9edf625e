import ObjectTransfer.Options.Basic
import ObjectTransfer.Options.Quoted

/-!
# Options files

Every line of an options file sets one option, or none if it is blank or a comment. An option that
is not set keeps its standard value, and one that is set twice makes the file wrong, as does a key
or a value of any other kind. Whether the limits are sensible is not looked at here.
-/

namespace ObjectTransfer.Options

/-- What a file has set so far. -/
structure Settings where
  sourceName? : Option String
  maxDepth? : Option Nat
  maxInputBytes? : Option Nat

/-- The value of a setting. -/
inductive Setting where
  | text (value : String)
  | count (value : Nat)

/-- Adds a setting, if the key is an option that is not yet set and the value is of its kind. -/
def Settings.add? (s : Settings) (key : String) (value : Setting) : Option Settings :=
  match value with
  | .text name =>
    if key = "source_name" && s.sourceName?.isNone then
      some ⟨some name, s.maxDepth?, s.maxInputBytes?⟩
    else none
  | .count limit =>
    if key = "max_depth" && s.maxDepth?.isNone then
      some ⟨s.sourceName?, some limit, s.maxInputBytes?⟩
    else if key = "max_input_bytes" && s.maxInputBytes?.isNone then
      some ⟨s.sourceName?, s.maxDepth?, some limit⟩
    else none

/-- The options with standard values for what is not set. -/
def Settings.options (s : Settings) : Options :=
  ⟨s.sourceName?.getD standard.sourceName, s.maxDepth?.getD standard.maxDepth,
    s.maxInputBytes?.getD standard.maxInputBytes⟩

/-- The number that digits spell in a base; single underscores may stand between digits. `value` is
what the digits before spell, and `separable` tells whether an underscore or the end may come. -/
def digitsIn (base value : Nat) (separable : Bool) : List Char → Option Nat
  | [] => if separable then some value else none
  | '_' :: cs => if separable then digitsIn base value false cs else none
  | c :: cs => do digitsIn base (value * base + (← digitOf? base c)) true cs

/-- A decimal number without superfluous zeros in front. -/
def decimal? : List Char → Option Nat
  | ['0'] => some 0
  | '0' :: _ => none
  | cs => digitsIn 10 0 false cs

/-- An integer that is not negative. -/
def integer? : List Char → Option Nat
  | '0' :: 'x' :: cs => digitsIn 16 0 false cs
  | '0' :: 'o' :: cs => digitsIn 8 0 false cs
  | '0' :: 'b' :: cs => digitsIn 2 0 false cs
  | '+' :: cs => decimal? cs
  | '-' :: cs => (decimal? cs).filter (· = 0)
  | cs => decimal? cs

/-- A limit: an integer that fits into a signed word. -/
def limit? (cs : List Char) : Option Nat := (integer? cs).filter (· < Nat.pow 2 63)

/-- A blank within a line. -/
def isSpace (c : Char) : Bool := c = ' ' || c = '\t'

/-- What a bare key and an integer consist of. -/
def isBare (c : Char) : Bool :=
  ('a' ≤ c && c ≤ 'z') || ('A' ≤ c && c ≤ 'Z') || ('0' ≤ c && c ≤ '9') || c = '_' || c = '-'

/-- The key at the front, bare or in quotes, and what follows it. -/
def readKey : List Char → Option (String × List Char)
  | '"' :: cs => readLineString '"' [] cs
  | '\'' :: cs => readLineString '\'' [] cs
  | cs =>
    let key := cs.takeWhile isBare
    if key = [] then none else some (String.ofList key, cs.dropWhile isBare)

/-- The value at the front, and what follows it. -/
def readValue (cs : List Char) : Option (Setting × List Char) :=
  match readText cs with
  | some (text, rest) => some (.text text, rest)
  | none =>
    let isPart (c : Char) : Bool := isBare c || c = '+'
    (limit? (cs.takeWhile isPart)).map fun limit => (.count limit, cs.dropWhile isPart)

/-- What follows a line break, or the end of the file. -/
def nextLine? (cs : List Char) : Option (List Char) := if cs = [] then some [] else lineBreak? cs

/-- What follows the rest of a line that may hold only blanks and a comment. -/
def endLine? (cs : List Char) : Option (List Char) :=
  match cs.dropWhile isSpace with
  | '#' :: comment => nextLine? (comment.dropWhile isPlain)
  | rest => nextLine? rest

/-- The setting at the front, up to the end of its line, and the following lines. -/
def readSetting (cs : List Char) : Option (String × Setting × List Char) := do
  let (key, afterKey) ← readKey cs
  match afterKey.dropWhile isSpace with
  | '=' :: afterEquals =>
    let (value, afterValue) ← readValue (afterEquals.dropWhile isSpace)
    return (key, value, ← endLine? afterValue)
  | _ => none

/-! ## Each line takes something from the file -/

theorem readKey_length_le {cs rest : List Char} {key : String}
    (h : readKey cs = some (key, rest)) : rest.length ≤ cs.length := by
  unfold readKey at h
  split at h
  · have := readLineString_length_lt h
    simp only [List.length_cons]
    omega
  · have := readLineString_length_lt h
    simp only [List.length_cons]
    omega
  · dsimp only at h
    split at h
    · simp at h
    · simp only [Option.some.injEq, Prod.mk.injEq] at h
      rw [← h.2]
      exact (List.dropWhile_suffix _).length_le

theorem readValue_length_le {cs rest : List Char} {value : Setting}
    (h : readValue cs = some (value, rest)) : rest.length ≤ cs.length := by
  unfold readValue at h
  split at h
  · rename_i htext
    simp only [Option.some.injEq, Prod.mk.injEq] at h
    rw [← h.2]
    exact readText_length_le htext
  · obtain ⟨_, _, heq⟩ := Option.map_eq_some_iff.1 h
    simp only [Prod.mk.injEq] at heq
    rw [← heq.2]
    exact (List.dropWhile_suffix _).length_le

theorem nextLine?_shorter {cs rest : List Char} (h : nextLine? cs = some rest) :
    rest = [] ∨ rest.length < cs.length := by
  unfold nextLine? at h
  split at h
  · simp_all
  · exact .inr (lineBreak?_length_lt h)

theorem endLine?_shorter {cs rest : List Char} (h : endLine? cs = some rest) :
    rest = [] ∨ rest.length < cs.length := by
  have hspace := (List.dropWhile_suffix (l := cs) isSpace).length_le
  unfold endLine? at h
  split at h
  · rename_i comment hcomment
    have := (List.dropWhile_suffix (l := comment) isPlain).length_le
    rw [hcomment, List.length_cons] at hspace
    exact (nextLine?_shorter h).imp_right fun _ => by omega
  · exact (nextLine?_shorter h).imp_right fun _ => by omega

theorem readSetting_length_lt {cs rest : List Char} {key : String} {value : Setting}
    (h : readSetting cs = some (key, value, rest)) : rest.length < cs.length := by
  simp only [readSetting, bind, Option.bind_eq_some_iff] at h
  obtain ⟨⟨key', afterKey⟩, hkey, h⟩ := h
  split at h
  · rename_i afterEquals hequals
    simp only [Option.bind_eq_some_iff] at h
    obtain ⟨⟨value', afterValue⟩, hvalue, h⟩ := h
    obtain ⟨rest', hend, h⟩ := h
    simp only [pure, Option.some.injEq, Prod.mk.injEq] at h
    have := readKey_length_le hkey
    have hspace := (List.dropWhile_suffix (l := afterKey) isSpace).length_le
    rw [hequals, List.length_cons] at hspace
    have := (List.dropWhile_suffix (l := afterEquals) isSpace).length_le
    have := readValue_length_le hvalue
    have hshorter : rest' = [] ∨ rest'.length < afterValue.length := endLine?_shorter hend
    rw [← h.2.2]
    rcases hshorter with rfl | hshorter
    · simp only [List.length_nil]
      omega
    · omega
  · simp at h

/-- Reads the lines of a file on top of what is set. -/
def Settings.readLines (s : Settings) (cs : List Char) : Option Settings :=
  if _hne : cs = [] then some s
  else match _hblank : endLine? cs with
    | some rest => s.readLines rest
    | none =>
      match _hset : readSetting (cs.dropWhile isSpace) with
      | some (key, value, rest) => do (← s.add? key value).readLines rest
      | none => none
termination_by cs.length
decreasing_by
  · have := List.length_pos_iff.2 _hne
    rcases endLine?_shorter _hblank with rfl | hshorter
    · simpa using this
    · exact hshorter
  · have := readSetting_length_lt _hset
    have := (List.dropWhile_suffix (l := cs) isSpace).length_le
    omega

/-- The options that the lines of a text set, a byte order mark in front aside. -/
def decodeLines (text : String) : Except String Options :=
  let lines := match text.toList with
    | '\uFEFF' :: cs => cs
    | cs => cs
  match Settings.readLines ⟨none, none, none⟩ lines with
  | some settings => .ok settings.options
  | none => .error "a line does not set one of the options to a fitting value"

end ObjectTransfer.Options
