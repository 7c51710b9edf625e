import ObjectTransfer.Proofs.Layout
import ObjectTransfer.Proofs.Procedure.Notations
import ObjectTransfer.Proofs.Procedure.Runs

/-!
# Reading a document is a run

What comes of reading tokens is what the one run of the procedure of the notation comes to
(`Dialect.exists_run`). A run that stops does so at the token that it blames, or one token behind it
(`Dialect.exists_after_stop`).
-/

namespace ObjectTransfer

/-- What comes of a run. -/
def Outcome.value {α : Type} : Outcome α → Except Stop α
  | .ok (a, _) => .ok a
  | .error stop => .error stop

/-- The error of a stop is where its failure is. -/
theorem Stop.position?_toError (stop : Stop) (limit : Nat) :
    (stop.toError limit).position? = some stop.failure.place.position := by
  obtain ⟨failure, reached⟩ := stop
  cases failure <;> rfl

namespace Dialect

open Phrase

variable {d : Dialect} {options : Options} {s : TokenStream} {stop : Stop}

/-- The run of the procedure of the notation that reads the tokens still to be read. -/
abbrev Reads (d : Dialect) (options : Options) (s : TokenStream) (log : List Note)
    (o : Outcome d.Document) : Prop :=
  Procedure.Runs options.maxDepth (d.procedure options.sourceName) ⟨s, 0⟩ log o

/-- There is one run, and its outcome is what reading gives. -/
theorem exists_run (d : Dialect) (options : Options) (s : TokenStream) :
    ∃ log o, d.Reads options s log o ∧ (d.read options s).result = o.value := by
  obtain ⟨log, hlog⟩ := Procedure.exists_runs (d.procedure options.sourceName) s
    (Nat.zero_add options.maxDepth)
  rw [phrase_procedure] at hlog
  refine ⟨log, _, hlog, ?_⟩
  rw [result_eq_run]
  cases (d.phrase options).run s <;> rfl

/-- Reading gives what comes of the run. -/
theorem result_eq_of_reads {log : List Note} {o : Outcome d.Document}
    (h : d.Reads options s log o) : (d.read options s).result = o.value := by
  obtain ⟨log', o', hrun, hresult⟩ := exists_run d options s
  rw [hresult, (hrun.unique h).2]

/-- Reading has come to the token that is blamed, or passed over it. -/
theorem exists_after_stop (h : (d.read options s).result = .error stop) :
    (∃ before, stop.failure.place.After before s) ∧ (stop.reached = stop.failure.place ∨
      (∃ kind, stop.failure.place.next? = some kind) ∧ stop.reached = stop.failure.place.drop) := by
  refine ⟨exists_after_place h, ?_⟩
  have hbound : 0 < options.maxDepth + 1 := Nat.succ_pos _
  cases read_explained (Nat.le_succ options.maxDepth) hbound h with
  | inside hinside =>
    cases hinside with
    | unexpected _ unmet =>
      rcases unmet with ⟨-, hreached⟩ | ⟨-, hnext, hreached, -⟩
      · exact .inl hreached
      · exact .inr ⟨hnext, hreached⟩
    | tooDeep => exact .inl rfl
  | ended => exact .inl rfl

end Dialect
end ObjectTransfer
