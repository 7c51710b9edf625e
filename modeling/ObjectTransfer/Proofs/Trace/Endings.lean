import ObjectTransfer.Proofs.Trace.Calls

/-!
# How the trace command ends

A call reads the file of options, if there is one, then the text, and then parses it. The first of
these that fails ends the command, and nothing is shown unless it is the parse (`Call.ends_session`).
The status is 1 exactly if one of them fails (`Call.Ends.exit_eq_one_iff`). Without a call the command
asks for no file and tells how it is used (`session_of_no_call`).

All this holds for any formats: nothing is asked of what decodes options and of what writes JSON. A
document that cannot be written is no failure of the call (`Call.success`).
-/

namespace ObjectTransfer.Trace

variable {formats : Formats} {read : String → Except ReadFailure String}

/-! ## Asking for files -/

theorem run_withFile (path : String) (next : String → Session) :
    (withFile path next).run read =
      match read path with
      | .ok text => (next text).run read
      | .error failure =>
        ⟨1, "", "Failed to read " ++ path ++ ": " ++ failure.message ++ "\n"⟩ := by
  rw [withFile, Session.run]
  cases read path <;> rfl

theorem asked_withFile (path : String) (next : String → Session) :
    (withFile path next).asked read =
      path :: match read path with
        | .ok text => (next text).asked read
        | .error _ => [] := by
  rw [withFile, Session.asked]
  cases read path <;> rfl

/-! ## Options -/

namespace Call

/-- The options that the call sets: the standard ones, or those of the file that is named last. -/
inductive Sets (formats : Formats) (read : String → Except ReadFailure String) (call : Call) :
    Options → Prop where
  | standard (nofile : call.file? = none) : Sets formats read call .standard
  | ofFile {file text : String} {options : Options} (named : call.file? = some file)
    (readable : read file = .ok text)
    (accepted : Options.ofText formats.readOptions text = .ok options) :
    Sets formats read call options

/-- The options that the text is parsed under. Its name is its path, unless the options that are set
give it one. -/
def ParsesUnder (formats : Formats) (read : String → Except ReadFailure String) (call : Call)
    (options : Options) : Prop :=
  ∃ own, call.Sets formats read own ∧ options =
    ⟨if own.sourceName = Options.unnamedSource then call.path else own.sourceName, own.maxDepth,
      own.maxInputBytes⟩

variable {call : Call} {options options' : Options}

/-- A file of options that is named was read, and sets them. -/
theorem Sets.of_named {file : String} (h : call.Sets formats read options)
    (named : call.file? = some file) :
    ∃ text, read file = .ok text ∧ Options.ofText formats.readOptions text = .ok options := by
  cases h with
  | standard nofile => simp [nofile] at named
  | ofFile named' readable accepted =>
    obtain rfl := Option.some.inj (named'.symm.trans named)
    exact ⟨_, readable, accepted⟩

theorem Sets.unique (h : call.Sets formats read options) (h' : call.Sets formats read options') :
    options = options' := by
  cases h with
  | standard nofile =>
    cases h' with
    | standard => rfl
    | ofFile named => simp [nofile] at named
  | ofFile named readable accepted =>
    obtain ⟨text, readable', accepted'⟩ := h'.of_named named
    obtain rfl := Except.ok.inj (readable.symm.trans readable')
    exact Except.ok.inj (accepted.symm.trans accepted')

theorem ParsesUnder.unique (h : call.ParsesUnder formats read options)
    (h' : call.ParsesUnder formats read options') : options = options' := by
  obtain ⟨own, hown, rfl⟩ := h
  obtain ⟨own', hown', rfl⟩ := h'
  rw [hown.unique hown']

/-- The options and the text that are parsed are the only ones. -/
theorem ParsesUnder.eq_of_readable {text text' : String} (h : call.ParsesUnder formats read options)
    (readable : read call.path = .ok text) (h' : call.ParsesUnder formats read options')
    (readable' : read call.path = .ok text') : options = options' ∧ text = text' :=
  ⟨h.unique h', Except.ok.inj (readable.symm.trans readable')⟩

theorem Sets.parsesUnder (h : call.Sets formats read options) :
    call.ParsesUnder formats read (effectiveOptions call.path options) := by
  refine ⟨options, h, ?_⟩
  unfold effectiveOptions
  by_cases hunnamed : options.sourceName = Options.unnamedSource
  · rw [if_pos hunnamed, if_pos hunnamed]
  · rw [if_neg hunnamed, if_neg hunnamed]

/-- Options that a call sets are valid: the standard ones are, and those of a file were checked. -/
theorem Sets.valid (h : call.Sets formats read options) : options.validate = .ok () := by
  cases h with
  | standard => exact Options.validate_standard
  | ofFile named readable accepted => exact (Options.ofText_eq_ok_iff.mp accepted).2

/-- Whatever a file sets, nothing is parsed under a limit of zero. -/
theorem ParsesUnder.limits_pos (h : call.ParsesUnder formats read options) :
    0 < options.maxDepth ∧ 0 < options.maxInputBytes := by
  obtain ⟨own, hown, rfl⟩ := h
  exact Options.validate_eq_ok_iff.mp hown.valid

/-! ## Endings -/

/-- How the call ends if it succeeds. A document that cannot be written as JSON is left out, and the
errors tell why. -/
def success (formats : Formats) (call : Call) (text : String) (document : call.dialect.Document) :
    Transcript where
  exit := 0
  output := tokensSection call.dialect text ++
    (heading "AST" ++ (match documentText formats call.dialect call.json document with
      | .ok shown => shown ++ "\n"
      | .error _ => "") ++ "\n") ++
    (heading "CANONICAL" ++ call.dialect.print document ++ "\n\n") ++ "Parse succeeded\n"
  errors := match documentText formats call.dialect call.json document with
    | .ok _ => ""
    | .error reason => "Failed to serialize AST: " ++ reason ++ "\n"

/-- How a call can end: the files that it has asked for and the transcript. What fails first decides. -/
inductive Ends (formats : Formats) (read : String → Except ReadFailure String) (call : Call) :
    List String → Transcript → Prop where
  | optionsUnread {file : String} {failure : ReadFailure} (named : call.file? = some file)
    (unreadable : read file = .error failure) :
    Ends formats read call [file] ⟨1, "", "Failed to read " ++ file ++ ": " ++ failure.message ++ "\n"⟩
  | optionsRefused {file text : String} {e : OptionsError} (named : call.file? = some file)
    (readable : read file = .ok text) (refused : Options.ofText formats.readOptions text = .error e) :
    Ends formats read call [file] ⟨1, "", "Invalid options in " ++ file ++ ": " ++ e.message ++ "\n"⟩
  | unread {options : Options} {failure : ReadFailure} (under : call.ParsesUnder formats read options)
    (unreadable : read call.path = .error failure) :
    Ends formats read call (call.file?.toList ++ [call.path])
      ⟨1, "", "Failed to read " ++ call.path ++ ": " ++ failure.message ++ "\n"⟩
  | refused {options : Options} {text : String} {e : ParseError}
    (under : call.ParsesUnder formats read options) (readable : read call.path = .ok text)
    (refused : call.dialect.parse options text = .error e) :
    Ends formats read call (call.file?.toList ++ [call.path])
      ⟨1, tokensSection call.dialect text, e.render text ++ "\n"⟩
  | parsed {options : Options} {text : String} {document : call.dialect.Document}
    (under : call.ParsesUnder formats read options) (readable : read call.path = .ok text)
    (parsed : call.dialect.parse options text = .ok document) :
    Ends formats read call (call.file?.toList ++ [call.path]) (call.success formats text document)

/-- Something of the call fails, be it what fails first or not. -/
inductive Fails (formats : Formats) (read : String → Except ReadFailure String) (call : Call) :
    Prop where
  | optionsUnread {file : String} {failure : ReadFailure} (named : call.file? = some file)
    (unreadable : read file = .error failure)
  | optionsRefused {file text : String} {e : OptionsError} (named : call.file? = some file)
    (readable : read file = .ok text) (refused : Options.ofText formats.readOptions text = .error e)
  | unread {failure : ReadFailure} (unreadable : read call.path = .error failure)
  | refused {options : Options} {text : String} {e : ParseError}
    (under : call.ParsesUnder formats read options) (readable : read call.path = .ok text)
    (refused : call.dialect.parse options text = .error e)

/-! ## Every call ends so -/

theorem transcript_of_error {text : String} {e : ParseError}
    (h : call.dialect.parse options text = .error e) :
    transcript formats call.arguments options text =
      ⟨1, tokensSection call.dialect text, e.render text ++ "\n"⟩ := by
  have hparse : call.arguments.dialect.parse options text = .error e := h
  rw [transcript, hparse]
  rfl

theorem transcript_of_ok {text : String} {document : call.dialect.Document}
    (h : call.dialect.parse options text = .ok document) :
    transcript formats call.arguments options text = call.success formats text document := by
  have hparse : call.arguments.dialect.parse options text = .ok document := h
  have hend : "\n\n" ++ "Parse succeeded\n" = "\n\nParse succeeded\n" := by decide
  rw [transcript, hparse]
  -- The notation and the flag of the arguments are those of the call.
  change (⟨0, tokensSection call.dialect text ++ documentSections call.dialect document
      (documentText formats call.dialect call.json document),
    documentErrors (documentText formats call.dialect call.json document)⟩ : Transcript) = _
  unfold documentSections documentErrors success
  cases documentText formats call.dialect call.json document with
  | ok shown => simp only [String.append_assoc, hend]
  | error reason => simp only [String.append_assoc, String.empty_append, hend]

theorem ends_traceFile {own : Options} (hown : call.Sets formats read own) :
    call.Ends formats read (call.file?.toList ++ (traceFile formats call.arguments own).asked read)
      ((traceFile formats call.arguments own).run read) := by
  have hunder := hown.parsesUnder
  have hpath : call.arguments.path = call.path := rfl
  rw [traceFile, run_withFile, asked_withFile, hpath]
  cases hread : read call.path with
  | error failure => exact .unread hunder hread
  | ok text =>
    simp only [Session.run, Session.asked]
    cases hparse : call.dialect.parse (effectiveOptions call.path own) text with
    | error e =>
      rw [transcript_of_error hparse]
      exact .refused hunder hread hparse
    | ok document =>
      rw [transcript_of_ok hparse]
      exact .parsed hunder hread hparse

theorem session_words (formats : Formats) (call : Call) :
    session formats call.words = match call.file? with
      | none => traceFile formats call.arguments .standard
      | some file => withFile file fun text =>
        match Options.ofText formats.readOptions text with
        | .ok options => traceFile formats call.arguments options
        | .error e => stopped ("Invalid options in " ++ file ++ ": " ++ e.message) := by
  rw [session, Arguments.ofList?_words]
  rfl

theorem ends_session (formats : Formats) (read : String → Except ReadFailure String) (call : Call) :
    call.Ends formats read ((session formats call.words).asked read)
      ((session formats call.words).run read) := by
  rw [session_words]
  -- The file of options comes first, so that the text is not asked for if it fails.
  cases hfile : call.file? with
  | none =>
    have hends := ends_traceFile (.standard hfile : call.Sets formats read .standard)
    rw [hfile] at hends
    exact hends
  | some file =>
    simp only [run_withFile, asked_withFile]
    cases hread : read file with
    | error failure => exact .optionsUnread hfile hread
    | ok text =>
      cases hoptions : Options.ofText formats.readOptions text with
      | error e =>
        simp only [hoptions]
        exact .optionsRefused hfile hread hoptions
      | ok own =>
        have hends := ends_traceFile (.ofFile hfile hread hoptions : call.Sets formats read own)
        rw [hfile] at hends
        simp only [hoptions]
        exact hends

/-! ## What the ending tells -/

variable {asked : List String} {t : Transcript}

/-- If the options are known, their file was read. -/
theorem ParsesUnder.ne_unread (h : call.ParsesUnder formats read options) {file : String}
    (named : call.file? = some file) (failure : ReadFailure) : read file ≠ .error failure := by
  obtain ⟨own, hown, -⟩ := h
  obtain ⟨text, readable, -⟩ := hown.of_named named
  simp [readable]

/-- If the options are known, their file sets them. -/
theorem ParsesUnder.ne_refused (h : call.ParsesUnder formats read options) {file text : String}
    (named : call.file? = some file) (readable : read file = .ok text) (e : OptionsError) :
    Options.ofText formats.readOptions text ≠ .error e := by
  obtain ⟨own, hown, -⟩ := h
  obtain ⟨text', readable', accepted⟩ := hown.of_named named
  obtain rfl := Except.ok.inj (readable'.symm.trans readable)
  simp [accepted]

theorem not_fails_of_parsed {text : String} {document : call.dialect.Document}
    (under : call.ParsesUnder formats read options) (readable : read call.path = .ok text)
    (parsed : call.dialect.parse options text = .ok document) : ¬ call.Fails formats read := by
  intro h
  cases h with
  | optionsUnread named unreadable => exact under.ne_unread named _ unreadable
  | optionsRefused named readable' refused => exact under.ne_refused named readable' _ refused
  | unread unreadable => simp [readable] at unreadable
  | refused under' readable' refused =>
    obtain ⟨rfl, rfl⟩ := under.eq_of_readable readable under' readable'
    simp [parsed] at refused

theorem Ends.exit_eq_one_iff (h : call.Ends formats read asked t) :
    t.exit = 1 ↔ call.Fails formats read := by
  cases h with
  | optionsUnread named unreadable => exact iff_of_true rfl (.optionsUnread named unreadable)
  | optionsRefused named readable refused =>
    exact iff_of_true rfl (.optionsRefused named readable refused)
  | unread under unreadable => exact iff_of_true rfl (.unread unreadable)
  | refused under readable refused => exact iff_of_true rfl (.refused under readable refused)
  | parsed under readable parsed =>
    exact iff_of_false Nat.zero_ne_one (not_fails_of_parsed under readable parsed)

theorem Ends.exit_eq_zero_iff (h : call.Ends formats read asked t) :
    t.exit = 0 ↔ ¬ call.Fails formats read := by
  rw [← h.exit_eq_one_iff]
  cases h <;> simp [success]

theorem Ends.exit_ne_two (h : call.Ends formats read asked t) : t.exit ≠ 2 := by
  cases h <;> simp [success]

theorem Ends.asked_ne_nil (h : call.Ends formats read asked t) : asked ≠ [] := by
  cases h <;> simp

/-- Once the options are known and the text is read, the ending is that of the parse. -/
theorem Ends.of_readable {text : String} (h : call.Ends formats read asked t)
    (under : call.ParsesUnder formats read options) (readable : read call.path = .ok text) :
    match call.dialect.parse options text with
    | .error e => t = ⟨1, tokensSection call.dialect text, e.render text ++ "\n"⟩
    | .ok document => t = call.success formats text document := by
  -- Neither the options nor the text can fail to be read, so that the parse ends the call.
  cases h with
  | optionsUnread named unreadable => exact absurd unreadable (under.ne_unread named _)
  | optionsRefused named readable' refused =>
    exact absurd refused (under.ne_refused named readable' _)
  | unread under' unreadable => simp [readable] at unreadable
  | refused under' readable' refused =>
    obtain ⟨rfl, rfl⟩ := under.eq_of_readable readable under' readable'
    rw [refused]
  | parsed under' readable' parsed =>
    obtain ⟨rfl, rfl⟩ := under.eq_of_readable readable under' readable'
    rw [parsed]

end Call

theorem session_of_no_call {args : List String} (h : ∀ call : Call, args ≠ call.words) :
    session formats args = .ended ⟨2, "", usage⟩ := by
  have hnone : Arguments.ofList? args = none := by
    cases hparsed : Arguments.ofList? args with
    | none => rfl
    | some parsed =>
      obtain ⟨call, hcall⟩ := Arguments.exists_call_of_ofList? hparsed
      exact absurd hcall (h call)
  rw [session, hnone]

end ObjectTransfer.Trace
