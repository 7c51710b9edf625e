import ObjectTransfer.Proofs.Messages
import ObjectTransfer.Trace

/-!
# The section of the tokens

The first section shows a line for each token and one for the end of the text, or one line that tells
why the text has no tokens. Which of the two is told by the first character, because the line of a token
opens with blanks and digits (`tokenLine_append_ne`). So the section tells whether the text has tokens
(`opens_with_stoppedLine_iff`).
-/

namespace ObjectTransfer.Trace

/-- The line in place of the tokens of a text that has none. -/
def stoppedLine (message : String) : String := "(lexing stopped: " ++ message ++ ")\n"

/-- The lines of the tokens, the last one for the end of the text. -/
def tokenLines (tokens : Tokens) : String :=
  String.join (tokens.list.map fun t => tokenLine t.start (some t.kind)) ++
    tokenLine tokens.finish none

variable {d : Dialect} {text : String} {tokens : Tokens} {e : LexicalError}

theorem tokensSection_of_ok (h : tokenize d text = .ok tokens) :
    tokensSection d text = heading "TOKENS" ++ tokenLines tokens ++ "\n" := by
  rw [tokensSection, h]
  rfl

theorem tokensSection_of_error (h : tokenize d text = .error e) :
    tokensSection d text = heading "TOKENS" ++ stoppedLine e.message ++ "\n" := by
  rw [tokensSection, h]
  rfl

/-! ## How a line opens -/

theorem paren_not_mem_padLeft (width n : Nat) : '(' ∉ (padLeft width (toString n)).toList := by
  have hdigits : '(' ∉ Nat.toDigits 10 n := fun h =>
    absurd (Nat.isDigit_of_mem_toDigits (by decide) (by decide) h) (by decide)
  simp [padLeft, hdigits]

/-- The line of a token does not open with a parenthesis. -/
theorem tokenLine_append_ne (start : Position) (kind? : Option Token.Kind) (xs ys : List Char) :
    (tokenLine start kind?).toList ++ xs ≠ '(' :: ys := by
  intro h
  have hnumber := paren_not_mem_padLeft 4 start.line
  have hcolon : ":".toList = [':'] := by decide
  simp only [tokenLine, String.toList_append, hcolon, List.append_assoc] at h
  cases hfront : (padLeft 4 (toString start.line)).toList with
  | nil =>
    rw [hfront] at h
    exact absurd (List.cons.inj h).1 (by decide)
  | cons c cs =>
    rw [hfront] at h hnumber
    exact hnumber ((List.cons.inj h).1 ▸ List.mem_cons_self)

theorem tokenLines_append_ne (tokens : Tokens) (xs ys : List Char) :
    (tokenLines tokens).toList ++ xs ≠ '(' :: ys := by
  unfold tokenLines
  rw [String.toList_append, List.append_assoc]
  cases tokens.list with
  | nil =>
    rw [List.map_nil, String.join_nil, String.toList_empty, List.nil_append]
    exact tokenLine_append_ne tokens.finish none xs ys
  | cons t ts =>
    rw [List.map_cons, String.join_cons, String.toList_append, List.append_assoc]
    exact tokenLine_append_ne _ _ _ _

theorem tokenLines_append_ne_stoppedLine (tokens : Tokens) (message rest rest' : String) :
    tokenLines tokens ++ rest ≠ stoppedLine message ++ rest' := by
  unfold stoppedLine
  intro h
  have hopen : "(lexing stopped: ".toList = '(' :: "lexing stopped: ".toList := by decide
  have hlist := congrArg String.toList h
  simp only [String.toList_append, hopen, List.append_assoc] at hlist
  exact tokenLines_append_ne tokens rest.toList _ hlist

/-! ## What the section shows -/

/-- A parenthesis at the end of a line closes a message that is on one line. -/
theorem message_eq_of_append {message other rest : String} (hmessage : OneLine message)
    (h : message ++ (")\n" ++ "\n") = other ++ (")\n" ++ ("\n" ++ rest))) : message = other := by
  have hclose : ")\n".toList = [')', '\n'] := by decide
  have hfeed : "\n".toList = ['\n'] := by decide
  have hlist := congrArg String.toList h
  simp only [String.toList_append, hclose, hfeed] at hlist
  rcases List.append_eq_append_iff.mp hlist with ⟨others, hother, hend⟩ | ⟨others, hsplit, hend⟩
  · have hlength := congrArg List.length hend
    simp only [List.length_cons, List.length_nil, List.length_append] at hlength
    have hnone : others = [] := List.length_eq_zero_iff.mp (by omega)
    rw [hnone, List.append_nil] at hother
    exact String.toList_inj.mp hother.symm
  · -- What the longer message had in addition would start with the parenthesis and a line feed.
    match others with
    | [] =>
      rw [List.append_nil] at hsplit
      exact String.toList_inj.mp hsplit
    | [_] => simp at hend
    | _ :: b :: others =>
      simp only [List.cons_append, List.nil_append, List.cons.injEq] at hend
      have hmem : '\n' ∈ message.toList := by simp [hsplit, ← hend.2.1]
      exact absurd hmem hmessage

theorem opens_with_tokenLines {output : String}
    (hopens : ∃ rest, output = tokensSection d text ++ rest) (htokens : tokenize d text = .ok tokens) :
    ∃ rest, output = heading "TOKENS" ++ (tokenLines tokens ++ ("\n" ++ rest)) := by
  obtain ⟨rest, rfl⟩ := hopens
  rw [tokensSection_of_ok htokens, String.append_assoc, String.append_assoc]
  exact ⟨rest, rfl⟩

/-- What opens with the section has the line in place of the tokens exactly if the text has no tokens,
and the line tells why. -/
theorem opens_with_stoppedLine_iff {output message : String}
    (hopens : ∃ rest, output = tokensSection d text ++ rest)
    (hstopped : ∀ e, tokenize d text = .error e → output = tokensSection d text) :
    (∃ rest, output = heading "TOKENS" ++ (stoppedLine message ++ ("\n" ++ rest))) ↔
      ∃ e, tokenize d text = .error e ∧ e.message = message := by
  constructor
  · rintro ⟨rest, h⟩
    -- Behind the heading there is the line of a token, or the line in place of the tokens.
    cases hrun : tokenize d text with
    | ok tokens =>
      obtain ⟨shown, hshown⟩ := opens_with_tokenLines hopens hrun
      rw [hshown, String.append_right_inj] at h
      exact absurd h (tokenLines_append_ne_stoppedLine tokens message _ _)
    | error e =>
      rw [hstopped e hrun, tokensSection_of_error hrun, String.append_assoc,
        String.append_right_inj] at h
      unfold stoppedLine at h
      simp only [String.append_assoc, String.append_right_inj] at h
      exact ⟨e, rfl, message_eq_of_append (Dialect.oneLine_of_tokenize hrun) h⟩
  · rintro ⟨e, hrun, rfl⟩
    refine ⟨"", ?_⟩
    rw [hstopped e hrun, tokensSection_of_error hrun, String.append_empty, String.append_assoc]

end ObjectTransfer.Trace
