import ObjectTransfer.Event
import ObjectTransfer.Json.Request
import ObjectTransfer.Json.Response
import ObjectTransfer.Json.Schema
import ObjectTransfer.Options.Basic
import ObjectTransfer.Outline.Document
import ObjectTransfer.Request.Grammar
import ObjectTransfer.Request.Printer
import ObjectTransfer.Response.Grammar
import ObjectTransfer.Response.Printer
import ObjectTransfer.Schema.Grammar
import ObjectTransfer.Schema.Printer
import ObjectTransfer.Token.Lexer

/-!
# Documents of the three notations

Each notation has its documents, which are read from text, written as text, compared and shown.
`Dialect.parse` reads a document, and `Dialect.run` tells besides what happened on the way.
-/

namespace ObjectTransfer

/-- What reading a text reports and what comes of it. -/
structure Run (α : Type) where
  events : List Event
  result : Except ParseError α

namespace Dialect

/-- The documents of a notation. -/
abbrev Document : Dialect → Type
  | .schema => Schema.Document
  | .request => Request
  | .response => Response

/-- What a document is read of piece by piece. A response has no pieces that are reported. -/
abbrev Item : Dialect → Type
  | .schema => Schema.Definition
  | .request => Request.Step
  | .response => Empty

/-- Reads a document from the tokens of a whole text. -/
def read (d : Dialect) (options : Options) (s : TokenStream) : Reading d.Item d.Document :=
  match d with
  | .schema => Schema.Document.read options.maxDepth s
  | .request => Request.read options.sourceName s
  | .response => Response.read options.sourceName s

/-- The report of an item that is complete. -/
def itemEvent (d : Dialect) (item : d.Item) : Event :=
  match d, item with
  | .schema, definition => .definition definition.name
  | .request, step => .step step.relation step.filters.length

/-- The number of definitions, steps or fields of a document. -/
def size (d : Dialect) (document : d.Document) : Nat :=
  match d, document with
  | .schema, doc => List.length doc
  | .request, r => r.steps.length
  | .response, r => r.fields.length

/-- The report of how reading the tokens has ended. -/
def outcomeEvent (d : Dialect) (source : String) : Except ParseError d.Document → Event
  | .ok document => .parsed d source (d.size document)
  | .error e => .failed d source e.message

/-- Reads a document and tells what happened: first the size of the text is checked, then its tokens
are found, then the document is read. Only the last of these is reported. -/
def run (d : Dialect) (options : Options) (text : String) : Run d.Document :=
  if options.maxInputBytes < text.utf8ByteSize then
    ⟨[], .error (.inputTooLarge options.maxInputBytes text.utf8ByteSize)⟩
  else match tokenize d text with
    | .error e => ⟨[], .error (.lexical e)⟩
    | .ok tokens =>
      let reading := d.read options tokens.stream
      let result := reading.result.mapError (Stop.toError options.maxDepth)
      let first := Event.tokenized d options.sourceName text.utf8ByteSize (tokens.list.length + 1)
      ⟨first :: reading.completed.map d.itemEvent ++ [d.outcomeEvent options.sourceName result],
        result⟩

/-- Reads a document. -/
def parse (d : Dialect) (options : Options) (text : String) : Except ParseError d.Document :=
  (d.run options text).result

/-- The canonical text of a document. -/
def print (d : Dialect) (document : d.Document) : String :=
  match d, document with
  | .schema, doc => Schema.Document.text doc
  | .request, r => Request.text r
  | .response, r => Response.text r

/-- Whether documents are equal, locations included, with numbers compared as numbers. -/
def equals (d : Dialect) (document other : d.Document) : Bool :=
  match d, document, other with
  | .schema, doc, other => Schema.Document.equals doc other
  | .request, r, s => Request.equals r s
  | .response, r, s => Response.equals r s

/-- A document as JSON. -/
def encode (d : Dialect) (document : d.Document) : Json :=
  match d, document with
  | .schema, doc => Schema.Document.encode doc
  | .request, r => Request.encode r
  | .response, r => Response.encode r

/-- The document that a JSON value holds. -/
def decode? (d : Dialect) (json : Json) : Option d.Document :=
  match d with
  | .schema => Schema.Document.decode? json
  | .request => Request.decode? json
  | .response => Response.decode? json

/-- A document for inspection. -/
def outline (d : Dialect) (document : d.Document) : Outline :=
  match d, document with
  | .schema, doc => Schema.Document.outline doc
  | .request, r => Request.outline r
  | .response, r => Response.outline r

end Dialect
end ObjectTransfer
