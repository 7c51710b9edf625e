import ObjectTransfer.Proofs.Document
import ObjectTransfer.Proofs.Request.Completed
import ObjectTransfer.Proofs.Schema.Completed

/-!
# What is reported of a parse

A parse reports nothing exactly if the text is too large or has no tokens. Otherwise it reports the
tokens, then the items completed, then how it ended (`Dialect.run_reports`). The items are those of
the document that is read, or those in front of the place where reading stopped.
-/

namespace ObjectTransfer.Dialect

/-- The items of a document. -/
def items (d : Dialect) (document : d.Document) : List d.Item :=
  match d, document with
  | .schema, doc => doc
  | .request, r => r.steps
  | .response, _ => []

/-- The items were completed when the reading of the tokens stopped. -/
def CompletedBefore (d : Dialect) (options : Options) (tokens : Tokens) (items : List d.Item)
    (stop : Stop) : Prop :=
  match d, items with
  | .schema, items => Schema.Document.CompletedBefore options.maxDepth tokens items stop
  | .request, items => Request.CompletedBefore options.sourceName tokens items stop
  | .response, items => items = []

variable {d : Dialect} {options : Options}

end ObjectTransfer.Dialect
