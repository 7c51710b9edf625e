/-!
# Options of a parse

The name of the text for locations, and two limits. A limit of zero is no sensible one; `validate`
says which limit is. Options that are read from a text are valid (`ofText_eq_ok_iff`), whatever it is
that decodes the text.
-/

namespace ObjectTransfer

/-- The options of one parse. -/
structure Options where
  /-- The name of the text in locations. -/
  sourceName : String
  /-- How deep a type may be nested. -/
  maxDepth : Nat
  /-- How many bytes a text may have. -/
  maxInputBytes : Nat
deriving DecidableEq

/-- Why options are refused. -/
inductive OptionsError where
  /-- A text sets no options, for a reason in words. -/
  | malformed (reason : String)
  | invalidValue (field reason : String)
deriving DecidableEq

/-- The error in words. -/
def OptionsError.message : OptionsError → String
  | .malformed reason => s!"Malformed options: {reason}"
  | .invalidValue field reason => s!"Invalid value for {field}: {reason}"

namespace Options

/-- The name of a text that is not named. -/
def unnamedSource : String := "<input>"

/-- The largest limit, which is none in effect. -/
def noLimit : Nat := Nat.pow 2 64 - 1

/-- The options of a parse that is given none: types up to 64 deep and texts up to 16 MiB. -/
def standard : Options := ⟨unnamedSource, 64, 16 * 1024 * 1024⟩

/-- Options without limits. -/
def unlimited : Options := ⟨unnamedSource, noLimit, noLimit⟩

/-- Refuses a limit of zero. -/
def validate (options : Options) : Except OptionsError Unit :=
  if options.maxDepth = 0 then throw (.invalidValue "max_depth" "must be at least 1")
  else if options.maxInputBytes = 0 then
    throw (.invalidValue "max_input_bytes" "must be at least 1")
  else return ()

/-- The options that a text sets. What decodes it does not know which limits are sensible. -/
def ofText (decode : String → Except String Options) (text : String) : Except OptionsError Options :=
  match decode text with
  | .ok options => options.validate.map fun () => options
  | .error reason => .error (.malformed reason)

/-! ## Validity -/

variable {options : Options} {decode : String → Except String Options} {text : String}

theorem validate_eq_ok_iff :
    options.validate = .ok () ↔ 0 < options.maxDepth ∧ 0 < options.maxInputBytes := by
  unfold validate
  by_cases hdepth : options.maxDepth = 0
  · simp [hdepth]
  · by_cases hbytes : options.maxInputBytes = 0
    · simp [hdepth, hbytes]
    · simp [hdepth, hbytes, pure, Except.pure, Nat.pos_of_ne_zero]

theorem validate_standard : standard.validate = .ok () := rfl

theorem ofText_eq_ok_iff :
    ofText decode text = .ok options ↔ decode text = .ok options ∧ options.validate = .ok () := by
  unfold ofText
  cases decode text with
  | error reason => simp
  | ok decoded =>
    by_cases heq : decoded = options
    · subst heq
      cases hvalid : decoded.validate <;> simp [hvalid, Except.map]
    · cases hvalid : decoded.validate <;> simp [hvalid, heq, Except.map]

/-- Options are refused if the text cannot be decoded, and if what it sets is not valid. -/
theorem ofText_eq_error_iff {e : OptionsError} :
    ofText decode text = .error e ↔
      (∃ reason, decode text = .error reason ∧ e = .malformed reason) ∨
        ∃ options, decode text = .ok options ∧ options.validate = .error e := by
  unfold ofText
  cases decode text with
  | error reason => simp [eq_comm]
  | ok decoded => cases hvalid : decoded.validate <;> simp [hvalid, Except.map]

end Options
end ObjectTransfer
