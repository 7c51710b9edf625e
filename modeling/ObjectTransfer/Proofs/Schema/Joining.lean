import ObjectTransfer.Proofs.Document
import ObjectTransfer.Proofs.Schema.Documents
import ObjectTransfer.Proofs.Token.Joining

/-!
# Schemas that are joined

A schema is a list of definitions, each of which opens with a reserved word that prolongs none. So the
definitions of two schemas in one text, with a line feed between them, are those of the one and then
those of the other (`parse_joined`).
-/

namespace ObjectTransfer.Schema

/-- Tokens of two schemas, one after the other, are those of one schema. -/
theorem result_of_kinds_append {depth : Nat} {s s' joined : TokenStream} {schema schema' : Document}
    (h : (Document.read depth s).result = .ok schema)
    (h' : (Document.read depth s').result = .ok schema')
    (hjoined : joined.kinds = s.kinds ++ s'.kinds) :
    (Document.read depth joined).result = .ok (schema ++ schema') := by
  obtain ⟨doc, hkinds, hwithin, rfl⟩ := Derivation.Document.sound h
  obtain ⟨doc', hkinds', hwithin', rfl⟩ := Derivation.Document.sound h'
  have hall : Derivation.Document.Within depth (doc ++ doc') :=
    List.forall_mem_append.mpr ⟨hwithin, hwithin'⟩
  have hdoc : joined.kinds = Derivation.Document.kinds (doc ++ doc') := by
    rw [hjoined, ← hkinds, ← hkinds']
    exact List.flatMap_append.symm
  rw [Derivation.Document.complete hall hdoc]
  exact congrArg _ List.map_append

/-- Two texts of schemas with a line feed between them are a text of both schemas. Neither the last
definition nor the last comment of the first text goes on into the second. -/
theorem parse_joined {options : Options} {a b : String} {schema schema' : Document}
    (ha : Dialect.schema.parse options a = .ok schema)
    (hb : Dialect.schema.parse options b = .ok schema')
    (hsize : (a ++ "\n" ++ b).utf8ByteSize ≤ options.maxInputBytes) :
    Dialect.schema.parse options (a ++ "\n" ++ b) = .ok (schema ++ schema') := by
  obtain ⟨-, tokens, htokens, hread⟩ := Dialect.parse_eq_ok.mp ha
  obtain ⟨-, tokens', htokens', hread'⟩ := Dialect.parse_eq_ok.mp hb
  obtain ⟨joined, hjoined, hkinds⟩ := exists_tokenize_joined htokens htokens'
  exact Dialect.parse_eq_ok.mpr
    ⟨hsize, joined, hjoined, result_of_kinds_append hread hread' hkinds⟩

/-- A union without its semicolon in front of a comment, and a model behind one. -/
theorem sizes_joined :
    let size : Document := [.union ⟨"Size", ["S", "a | b"]⟩]
    let shirt : Document := [.model ⟨"Shirt", none, [⟨"size", "Size", true, none⟩], []⟩]
    Dialect.schema.parse ⟨"", 1, 80⟩ "type Size = S | \"a | b\" // ; Model" = .ok size ∧
      Dialect.schema.parse ⟨"", 1, 80⟩ "/* ; */ Model Shirt \x7b size: Size \x7d" = .ok shirt ∧
      Dialect.schema.parse ⟨"", 1, 80⟩ ("type Size = S | \"a | b\" // ; Model" ++ "\n" ++
        "/* ; */ Model Shirt \x7b size: Size \x7d") = .ok (size ++ shirt) := by
  intro size shirt
  have hsize : Dialect.schema.parse ⟨"", 1, 80⟩ "type Size = S | \"a | b\" // ; Model" = .ok size := by
    decide +kernel
  have hshirt : Dialect.schema.parse ⟨"", 1, 80⟩ "/* ; */ Model Shirt \x7b size: Size \x7d" =
      .ok shirt := by decide +kernel
  exact ⟨hsize, hshirt, parse_joined hsize hshirt (by decide +kernel)⟩

end ObjectTransfer.Schema
