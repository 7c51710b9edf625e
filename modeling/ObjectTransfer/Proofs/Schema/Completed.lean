import ObjectTransfer.Proofs.Phrase.Frames
import ObjectTransfer.Proofs.Schema.Documents

/-!
# Definitions that are completed

A schema that is not read may have been read in part. The definitions completed are those of the
tokens in front of the place where reading stops, which are a schema by themselves
(`Document.completedBefore`).
-/

namespace ObjectTransfer.Schema

open Phrase

/-- The definitions `items` were completed when the reading of the tokens stopped: behind them a
definition is begun and stops, or the text goes on with something else. -/
inductive Document.CompletedBefore (depth : Nat) (tokens : Tokens) (items : List Definition) :
    Stop → Prop
  | definition {place : TokenStream} {kind : Definition.Kind} {stop : Stop}
      (before : tokens.ReadBefore place (fun s => (Document.read depth s).result) (· = items))
      (next : place.next?.bind Definition.Kind.ofToken? = some kind)
      (fails : (Definition.phrase depth kind).run place.drop = .error stop) :
      CompletedBefore depth tokens items stop
  | declaration {place : TokenStream}
      (before : tokens.ReadBefore place (fun s => (Document.read depth s).result) (· = items))
      (next : place.next?.bind Definition.Kind.ofToken? = none) (more : place.rest ≠ []) :
      CompletedBefore depth tokens items ⟨.unexpected .declaration place, place⟩

namespace Derivation

/-- Up to `place` the definitions `seen` are read, latest first. -/
def ReadUpTo (depth : Nat) (s : TokenStream) (seen : List Schema.Definition) (place : TokenStream) :
    Prop :=
  Collected Definition.kinds Definition.toSchema id (Definition.Within depth) [] s seen place ∧
    place.Follows s

/-- A turn reads one definition more. -/
theorem ReadUpTo.after_turn {depth : Nat} {s place place' : TokenStream}
    {seen seen' : List Schema.Definition} {kind : Schema.Definition.Kind}
    (h : ReadUpTo depth s seen place)
    (hopens : place.next?.bind Schema.Definition.Kind.ofToken? = some kind)
    (hrun : (definitionTurn depth seen kind place).run place.drop = .ok (seen', place')) :
    ReadUpTo depth s seen' place' := by
  have hplace := (Phrase.forward _ hrun).trans place.drop_follows
  exact ⟨h.1.after_turn (definitionTurn_sound (Nat.le_refl depth)) hopens hrun, hplace.trans h.2⟩

end Derivation

end ObjectTransfer.Schema
