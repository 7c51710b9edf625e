import ObjectTransfer.Trace

/-!
# Calls of the trace command

The command is called with a notation, a path and any number of flags. The arguments of a call are
read, and no others (`Arguments.ofList?_words`, `Arguments.exists_call_of_ofList?`). They determine the
call (`Call.words_injective`). Of the flags it counts only which file of options is named last and
whether JSON is asked for (`Call.arguments`).
-/

namespace ObjectTransfer

namespace Dialect

theorem ofName?_name (d : Dialect) : ofName? d.name = some d := by
  cases d <;> decide

theorem name_of_ofName? {name : String} {d : Dialect} (h : ofName? name = some d) : name = d.name := by
  have hname : d.name = name := by simpa using List.find?_some h
  exact hname.symm

theorem name_injective {d d' : Dialect} (h : d.name = d'.name) : d = d' := by
  have hsame : some d = some d' := by rw [← ofName?_name d, ← ofName?_name d', h]
  exact Option.some.inj hsame

end Dialect

namespace Trace

/-- A flag of the command. -/
inductive Flag where
  | json
  | options (file : String)
deriving DecidableEq

namespace Flag

/-- A flag among the arguments. The file is whatever stands behind `--options`. -/
def words : Flag → List String
  | json => ["--json"]
  | options file => ["--options", file]

/-- The file of options that the flag names. -/
def file? : Flag → Option String
  | json => none
  | options file => some file

/-- Flags can be told apart, and from what follows them. -/
theorem words_append_inj {flag flag' : Flag} {rest rest' : List String}
    (h : flag.words ++ rest = flag'.words ++ rest') : flag = flag' ∧ rest = rest' := by
  cases flag <;> cases flag' <;> simp_all [words]

theorem words_append_ne_nil (flag : Flag) (rest : List String) : flag.words ++ rest ≠ [] := by
  cases flag <;> simp [words]

theorem flatMap_words_injective {flags flags' : List Flag}
    (h : flags.flatMap words = flags'.flatMap words) : flags = flags' := by
  induction flags generalizing flags' with
  | nil =>
    cases flags' with
    | nil => rfl
    | cons flag' flags' => exact absurd h.symm (flag'.words_append_ne_nil _)
  | cons flag flags ih =>
    cases flags' with
    | nil => exact absurd h (flag.words_append_ne_nil _)
    | cons flag' flags' =>
      obtain ⟨rfl, hflags⟩ := words_append_inj h
      rw [ih hflags]

end Flag

/-! ## Reading flags -/

namespace Arguments

/-- What a flag makes of the arguments in front of it. -/
def add (arguments : Arguments) : Flag → Arguments
  | .json => { arguments with json := true }
  | .options file => { arguments with options? := some file }

variable {arguments parsed : Arguments}

theorem withFlags_words_append (flag : Flag) (words : List String) :
    arguments.withFlags (flag.words ++ words) = (arguments.add flag).withFlags words := by
  cases flag <;> rfl

/-- Flags are read one after another. -/
theorem withFlags_flatMap (arguments : Arguments) (flags : List Flag) :
    arguments.withFlags (flags.flatMap Flag.words) = some (flags.foldl add arguments) := by
  induction flags generalizing arguments with
  | nil => rfl
  | cons flag flags ih => rw [List.flatMap_cons, withFlags_words_append, ih, List.foldl_cons]

/-- Nothing but flags is read. -/
theorem exists_flags_of_withFlags {words : List String} (h : arguments.withFlags words = some parsed) :
    ∃ flags : List Flag, words = flags.flatMap Flag.words := by
  fun_induction withFlags arguments words with
  | case1 arguments => exact ⟨[], rfl⟩
  | case2 arguments words ih =>
    obtain ⟨flags, rfl⟩ := ih h
    exact ⟨.json :: flags, rfl⟩
  | case3 arguments file words ih =>
    obtain ⟨flags, rfl⟩ := ih h
    exact ⟨.options file :: flags, rfl⟩
  | case4 => simp at h

/-- After all flags the file is the one named last. -/
theorem foldl_add (flags : List Flag) :
    flags.foldl add arguments =
      ⟨arguments.dialect, arguments.path,
        (flags.filterMap Flag.file?).getLast?.or arguments.options?,
        arguments.json || decide (Flag.json ∈ flags)⟩ := by
  induction flags generalizing arguments with
  | nil => simp
  | cons flag flags ih =>
    -- What a flag has set counts unless a later one sets it again.
    rw [List.foldl_cons, ih]
    cases flag with
    | json => simp [add, Flag.file?]
    | options file => simp [add, Flag.file?, List.getLast?_cons]

end Arguments

/-! ## Calls -/

/-- What the command can be called with. -/
structure Call where
  dialect : Dialect
  path : String
  flags : List Flag

namespace Call

/-- The arguments of the call. -/
def words (call : Call) : List String :=
  call.dialect.name :: call.path :: call.flags.flatMap Flag.words

/-- The file of options, which is the one named last. -/
def file? (call : Call) : Option String := (call.flags.filterMap Flag.file?).getLast?

/-- Whether JSON is asked for. -/
def json (call : Call) : Bool := decide (Flag.json ∈ call.flags)

/-- What the command is to do. -/
def arguments (call : Call) : Arguments := ⟨call.dialect, call.path, call.file?, call.json⟩

theorem words_injective {call other : Call} (h : call.words = other.words) : call = other := by
  obtain ⟨d, path, flags⟩ := call
  obtain ⟨d', path', flags'⟩ := other
  simp only [words, List.cons.injEq] at h
  obtain ⟨hname, rfl, hflags⟩ := h
  rw [Dialect.name_injective hname, Flag.flatMap_words_injective hflags]

end Call

namespace Arguments

theorem ofList?_words (call : Call) : ofList? call.words = some call.arguments := by
  obtain ⟨d, path, flags⟩ := call
  have hflags := withFlags_flatMap ⟨d, path, none, false⟩ flags
  rw [foldl_add, Option.or_none, Bool.false_or] at hflags
  simp only [Call.words, ofList?, Dialect.ofName?_name]
  exact hflags

theorem exists_call_of_ofList? {args : List String} {parsed : Arguments}
    (h : ofList? args = some parsed) : ∃ call : Call, args = call.words := by
  unfold ofList? at h
  split at h
  · rename_i name path words
    obtain ⟨d, hname, hwords⟩ := Option.bind_eq_some_iff.mp h
    obtain ⟨flags, rfl⟩ := exists_flags_of_withFlags hwords
    rw [Dialect.name_of_ofName? hname]
    exact ⟨⟨d, path, flags⟩, rfl⟩
  · simp at h

end Arguments

/-- A file may have the name of a flag. -/
example :
    Arguments.ofList? ["schema", "a.ott", "--options", "--json", "--json", "--options", "b.toml"] =
      some ⟨.schema, "a.ott", some "b.toml", true⟩ := by
  decide

end Trace
end ObjectTransfer
