import ObjectTransfer.Proofs.Canonical
import ObjectTransfer.Proofs.Trace.Endings
import ObjectTransfer.Proofs.Trace.Sections

/-!
# The trace command agrees with the parser

What the command shows and the status it ends with are those of the parser, whatever its arguments
are, whatever the files hold, and in whatever formats options are read and JSON is written
(`Trace.session_agrees`). The tokens that it shows are found without limits,
while the parser looks at the size of a text before it looks for tokens. So a text without tokens is
shown as such and refused either for that reason or for its size, but never read
(`Call.Shows.lexical`).
-/

namespace ObjectTransfer.Trace

variable {formats : Formats} {read : String → Except ReadFailure String} {call : Call}
  {asked : List String} {t : Transcript} {options : Options} {text : String}

/-! ## A text that is parsed -/

/-- What the command shows of the text that it parses under the options. -/
structure Call.Shows (formats : Formats) (call : Call) (options : Options) (text : String)
    (t : Transcript) : Prop where
  /-- The output opens with the tokens. -/
  opens : ∃ rest, t.output = tokensSection call.dialect text ++ rest
  /-- If the text has tokens there is a line for each, and one for the end. -/
  tokens : ∀ tokens, tokenize call.dialect text = .ok tokens →
    ∃ rest, t.output = heading "TOKENS" ++ (tokenLines tokens ++ ("\n" ++ rest))
  /-- There is another line in their place exactly if the text has none, and it tells why. -/
  stopped : ∀ message,
    (∃ rest, t.output = heading "TOKENS" ++ (stoppedLine message ++ ("\n" ++ rest))) ↔
      ∃ e, tokenize call.dialect text = .error e ∧ e.message = message
  /-- Then nothing else is shown, and the text is refused for the same reason or for its size. -/
  lexical : ∀ e, tokenize call.dialect text = .error e →
    t = ⟨1, heading "TOKENS" ++ stoppedLine e.message ++ "\n",
      (if options.maxInputBytes < text.utf8ByteSize then
        ParseError.inputTooLarge options.maxInputBytes text.utf8ByteSize
      else .lexical e).render text ++ "\n"⟩
  /-- If the text is refused, the error is told and the line that it is on. -/
  refused : ∀ e, call.dialect.parse options text = .error e →
    t = ⟨1, tokensSection call.dialect text, e.render text ++ "\n"⟩
  /-- Success shows the document that was read and its canonical text. This is read again as the same
  document, locations aside, and is its own canonical text. -/
  canonical : t.exit = 0 → ∃ document, call.dialect.parse options text = .ok document ∧
    t = call.success formats text document ∧
    ∀ limits : Options, options.maxDepth ≤ limits.maxDepth →
      (call.dialect.print document).utf8ByteSize ≤ limits.maxInputBytes →
        ∃ found, call.dialect.parse limits (call.dialect.print document) = .ok found ∧
          call.dialect.erase found = call.dialect.erase document ∧
          call.dialect.print found = call.dialect.print document

namespace Call

theorem shows_of_error {e : ParseError} (hparse : call.dialect.parse options text = .error e) :
    call.Shows formats options text ⟨1, tokensSection call.dialect text, e.render text ++ "\n"⟩ := by
  have hopens : ∃ rest, tokensSection call.dialect text = tokensSection call.dialect text ++ rest :=
    ⟨"", String.append_empty.symm⟩
  exact {
    opens := hopens
    tokens := fun _ => opens_with_tokenLines hopens
    stopped := fun _ => opens_with_stoppedLine_iff hopens fun _ _ => rfl
    lexical := fun _ htokens => by
      have herror := hparse.symm.trans (Dialect.parse_of_tokenize_error htokens)
      rw [Except.error.inj herror, tokensSection_of_error htokens]
    refused := fun _ hother => by rw [Except.error.inj (hparse.symm.trans hother)]
    canonical := fun hexit => absurd hexit Nat.one_ne_zero }

theorem shows_of_ok {document : call.dialect.Document}
    (hparse : call.dialect.parse options text = .ok document) :
    call.Shows formats options text (call.success formats text document) := by
  obtain ⟨-, tokens, htokens, -⟩ := Dialect.parse_eq_ok.mp hparse
  have hnone : ∀ e, tokenize call.dialect text ≠ .error e := by simp [htokens]
  have hopens : ∃ rest, (call.success formats text document).output =
      tokensSection call.dialect text ++ rest := by
    rw [success, String.append_assoc, String.append_assoc]
    exact ⟨_, rfl⟩
  exact {
    opens := hopens
    tokens := fun _ => opens_with_tokenLines hopens
    stopped := fun _ => opens_with_stoppedLine_iff hopens fun e he => absurd he (hnone e)
    lexical := fun e he => absurd he (hnone e)
    refused := fun e he => absurd (hparse.symm.trans he) (by simp)
    canonical := fun _ => ⟨document, hparse, rfl, fun _ => Dialect.exists_parse_print hparse⟩ }

theorem Ends.shows (h : call.Ends formats read asked t) (under : call.ParsesUnder formats read options)
    (readable : read call.path = .ok text) : call.Shows formats options text t := by
  have hending := h.of_readable under readable
  cases hparse : call.dialect.parse options text with
  | error e =>
    rw [hparse] at hending
    rw [hending]
    exact shows_of_error hparse
  | ok document =>
    rw [hparse] at hending
    rw [hending]
    exact shows_of_ok hparse

end Call

/-! ## All arguments -/

/-- What a call does: which files it asks for, and how it ends. -/
structure Call.Agrees (formats : Formats) (read : String → Except ReadFailure String) (call : Call)
    (asked : List String) (t : Transcript) : Prop where
  /-- The arguments are those of no other call. -/
  only : ∀ other : Call, other.words = call.words → other = call
  /-- It counts which file of options is named last and whether JSON is asked for. The order of the
  flags does not count otherwise. -/
  order : ∀ other : Call, other.dialect = call.dialect → other.path = call.path →
    other.file? = call.file? → other.json = call.json →
      session formats other.words = session formats call.words
  ends : call.Ends formats read asked t
  fails : t.exit = 1 ↔ call.Fails formats read
  succeeds : t.exit = 0 ↔ ¬ call.Fails formats read
  /-- A file that sets a limit of zero is refused, so that nothing is parsed under one. -/
  limited : ∀ options, call.ParsesUnder formats read options →
    0 < options.maxDepth ∧ 0 < options.maxInputBytes
  shows : ∀ options text, call.ParsesUnder formats read options → read call.path = .ok text →
    call.Shows formats options text t

theorem Call.agrees_session (formats : Formats) (read : String → Except ReadFailure String)
    (call : Call) : call.Agrees formats read ((session formats call.words).asked read)
      ((session formats call.words).run read) where
  only _ := words_injective
  order other hdialect hpath hfile hjson := by
    have harguments : other.arguments = call.arguments := by
      rw [arguments, hdialect, hpath, hfile, hjson]
      rfl
    rw [session, session, Arguments.ofList?_words, Arguments.ofList?_words, harguments]
  ends := ends_session formats read call
  fails := (ends_session formats read call).exit_eq_one_iff
  succeeds := (ends_session formats read call).exit_eq_zero_iff
  limited _ := ParsesUnder.limits_pos
  shows _ _ := (ends_session formats read call).shows

/-- What the command does with arguments: which files it asks for, and how it ends. -/
structure Agrees (formats : Formats) (args : List String)
    (read : String → Except ReadFailure String) (asked : List String)
    (t : Transcript) : Prop where
  /-- The status is 2 exactly if the arguments are no call. -/
  misused : t.exit = 2 ↔ ∀ call : Call, args ≠ call.words
  /-- Only then is no file asked for. -/
  unasked : t.exit = 2 ↔ asked = []
  told : t.exit = 2 → t = ⟨2, "", usage⟩
  called : ∀ call : Call, args = call.words → call.Agrees formats read asked t

/-- The trace command agrees with the parser, for all formats, all arguments and all files. -/
theorem session_agrees (formats : Formats) (args : List String)
    (read : String → Except ReadFailure String) :
    Agrees formats args read ((session formats args).asked read)
      ((session formats args).run read) := by
  by_cases hcall : ∃ call : Call, args = call.words
  · obtain ⟨call, rfl⟩ := hcall
    have hends := call.ends_session formats read
    exact {
      misused := iff_of_false hends.exit_ne_two fun h => h call rfl
      unasked := iff_of_false hends.exit_ne_two hends.asked_ne_nil
      told := fun h => absurd h hends.exit_ne_two
      called := fun other hother => by
        rw [hother]
        exact other.agrees_session formats read }
  · have hnone : ∀ call : Call, args ≠ call.words := fun call h => hcall ⟨call, h⟩
    rw [session_of_no_call hnone]
    exact {
      misused := iff_of_true rfl hnone
      unasked := iff_of_true rfl rfl
      told := fun _ => rfl
      called := fun call h => absurd h (hnone call) }

/-- The text has no tokens, and the options, in a file that is named like a flag, allow for less of it.
The other file of options is not asked for. -/
example :
    let formats : Formats :=
      { readOptions := fun text =>
          if text = "max_input_bytes = 9" then .ok ⟨Options.unnamedSource, 64, 9⟩
          else .error "unknown option"
        writeJson := fun _ => .error "not written" }
    let read (path : String) : Except ReadFailure String :=
      if path = "order.ott" then .ok "Order.lines(@)"
      else if path = "--json" then .ok "max_input_bytes = 9"
      else .error .missing
    let called := session formats
      ["request", "order.ott", "--json", "--options", "no.toml", "--options", "--json"]
    called.asked read = ["--json", "order.ott"] ∧
      called.run read = ⟨1,
        heading "TOKENS" ++ "(lexing stopped: unexpected character '@' at line 1, column 13)\n\n",
        "input too large: 14 bytes exceeds the limit of 9 bytes\n"⟩ := by
  decide +kernel

end ObjectTransfer.Trace
