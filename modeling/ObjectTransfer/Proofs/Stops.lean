import ObjectTransfer.Document
import ObjectTransfer.Proofs.Request.Stops
import ObjectTransfer.Proofs.Response.Stops
import ObjectTransfer.Proofs.Schema.Stops

/-!
# Where reading a document stops

The three notations side by side. Reading tokens is one phrase for each (`result_eq_run`). Two lists
of tokens that start alike stop alike (`read_lockstep`), and a stop is explained by the notation: a
token that is named would have helped (`read_explained`).
-/

namespace ObjectTransfer

/-- Tokens of the given kinds, wherever they stand. -/
def Tokens.ofKinds (kinds : List Token.Kind) : Tokens :=
  ⟨kinds.map (⟨·, .start, .start⟩), .start⟩

@[simp] theorem Tokens.kinds_ofKinds (kinds : List Token.Kind) :
    (Tokens.ofKinds kinds).stream.kinds = kinds := by
  simp [TokenStream.kinds, stream, ofKinds, Function.comp_def]

namespace Dialect

open Phrase

variable {d : Dialect} {options : Options} {s s' : TokenStream} {stop : Stop}

/-- Reads a document to the end of the text. -/
def phrase (d : Dialect) (options : Options) : Phrase d.Document :=
  match d with
  | .schema => Schema.Derivation.Document.phrase options.maxDepth
  | .request => Request.Derivation.phrase options.sourceName
  | .response => Response.phrase options.sourceName

theorem result_eq_run (d : Dialect) (options : Options) (s : TokenStream) :
    (d.read options s).result = (·.1) <$> (d.phrase options).run s := by
  cases d with
  | schema => exact Schema.Derivation.Document.result_eq_run _ s
  | request => exact Request.Derivation.result_eq_run _ s
  | response => rfl

theorem result_eq_error :
    (d.read options s).result = .error stop ↔ (d.phrase options).run s = .error stop := by
  rw [result_eq_run, map_fst_eq_error]

theorem lockstep_phrase (d : Dialect) {options options' : Options}
    (hdepth : options'.maxDepth = options.maxDepth) (unseen : Nat) :
    Lockstep unseen Any (d.phrase options) (d.phrase options') := by
  cases d with
  | schema =>
    unfold phrase
    rw [hdepth]
    exact Schema.Derivation.Document.lockstep_phrase _
  | request => exact Request.Derivation.lockstep_phrase _ _
  | response => exact Response.Derivation.lockstep_phrase _ _

/-- Tokens that start alike stop alike, if what tells them apart was not looked at. -/
theorem read_lockstep {options options' : Options} (hdepth : options'.maxDepth = options.maxDepth)
    (h : (d.read options s).result = .error stop) {unseen : Nat} (hunseen : unseen ≤ stop.unseen)
    (hs : s.Alike unseen s') :
    ∃ stop', (d.read options' s').result = .error stop' ∧
      stop.failure.Alike unseen stop'.failure := by
  obtain ⟨stop', hfail, hstop⟩ :=
    (lockstep_phrase d hdepth unseen hs).fails (result_eq_error.mp h) hunseen
  exact ⟨stop', result_eq_error.mpr hfail, hstop⟩

/-- The kinds are those of a document. -/
def Accepts (d : Dialect) (options : Options) (kinds : List Token.Kind) : Prop :=
  ∃ document, (d.read options (Tokens.ofKinds kinds).stream).result = .ok document

/-- A stop is explained by the documents of the notation. Those that complete what was read may be
nested deeper, since nothing completes a schema in which no type can stand. -/
theorem read_explained {bound : Nat} (hdepth : options.maxDepth ≤ bound) (hbound : 0 < bound)
    (h : (d.read options s).result = .error stop) :
    ExplainedToEnd (d.Accepts { options with maxDepth := bound }) s stop := by
  rw [result_eq_error] at h
  cases d with
  | schema =>
    have hexplained := Schema.Derivation.Document.explained_phrase hdepth hbound h
    refine (ExplainedToEnd.inside hexplained).mono ?_
    rintro ks ⟨doc, hdoc, rfl⟩
    exact ⟨_, Schema.Derivation.Document.complete hdoc (Tokens.kinds_ofKinds _)⟩
  | request =>
    refine (Request.Derivation.explained_phrase h).mono ?_
    rintro ks ⟨t, -, rfl⟩
    have hkinds := Tokens.kinds_ofKinds t.kinds
    obtain ⟨r, hread, -⟩ := Request.Derivation.complete options.sourceName t hkinds
    exact ⟨r, hread⟩
  | response =>
    refine (Response.Derivation.explained_phrase h).mono ?_
    rintro ks ⟨t, -, rfl⟩
    have hkinds := Tokens.kinds_ofKinds t.kinds
    obtain ⟨r, hread, -⟩ := Response.Derivation.complete options.sourceName t hkinds
    exact ⟨r, hread⟩

end Dialect
end ObjectTransfer
