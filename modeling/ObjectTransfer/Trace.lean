import ObjectTransfer.Document
import ObjectTransfer.Session

/-!
# Tracing a parse

The trace of a file shows its tokens, the document that they make and the canonical text of the
document. `Trace.session` is the whole command: it reads the options first, then the file, and its
exit status is 2 for wrong arguments and 1 for anything else that goes wrong, unless it is only that
the document cannot be written. How options are read and JSON is written is for the caller to say.
-/

namespace ObjectTransfer.Trace

/-- The formats of other texts than the traced one. -/
structure Formats where
  /-- The options that a text sets, valid or not, or the reason why it sets none. -/
  readOptions : String → Except String Options
  /-- The text of a value on several lines, or the reason why it has none. -/
  writeJson : Json → Except String String

/-- What the command is to do. -/
structure Arguments where
  dialect : Dialect
  path : String
  /-- The file of options. -/
  options? : Option String
  /-- Whether the document is shown as JSON. -/
  json : Bool
deriving DecidableEq

/-- Reads the arguments after the path. Of several files of options the last counts. -/
def Arguments.withFlags (arguments : Arguments) : List String → Option Arguments
  | [] => some arguments
  | "--json" :: flags =>
    withFlags ⟨arguments.dialect, arguments.path, arguments.options?, true⟩ flags
  | "--options" :: file :: flags =>
    withFlags ⟨arguments.dialect, arguments.path, some file, arguments.json⟩ flags
  | _ => none

/-- Reads the arguments of the command. -/
def Arguments.ofList? : List String → Option Arguments
  | name :: path :: flags => do
    Arguments.withFlags ⟨← Dialect.ofName? name, path, none, false⟩ flags
  | _ => none

/-- How the command is used. -/
def usage : String :=
  "Usage: cargo run --features trace-bin --bin ott_trace <schema|request|response> <file> " ++
    "[--options <toml>] [--json]\n\nExample:\n" ++
    "  cargo run --features trace-bin --bin ott_trace request ott-dsl/tests/fixtures/request.ott\n"

/-- The heading of a section. -/
def heading (title : String) : String :=
  title ++ ":\n" ++ String.ofList (List.replicate 61 '─') ++ "\n"

/-- A text with blanks before it up to a width. -/
def padLeft (width : Nat) (text : String) : String :=
  String.ofList (List.replicate (width - text.length) ' ') ++ text

/-- A text with blanks after it up to a width. -/
def padRight (width : Nat) (text : String) : String :=
  text ++ String.ofList (List.replicate (width - text.length) ' ')

/-- The line of a token, or of the end of the text. -/
def tokenLine (start : Position) (kind? : Option Token.Kind) : String :=
  padLeft 4 (toString start.line) ++ ":" ++ padRight 3 (toString start.column) ++ " " ++
    Token.describeNext kind? ++ "\n"

/-- The section of the tokens, with an empty line after it. -/
def tokensSection (d : Dialect) (text : String) : String :=
  let lines := match tokenize d text with
    | .ok tokens =>
      String.join (tokens.list.map fun t => tokenLine t.start (some t.kind)) ++
        tokenLine tokens.finish none
    | .error e => "(lexing stopped: " ++ e.message ++ ")\n"
  heading "TOKENS" ++ lines ++ "\n"

/-- The document for inspection or as JSON. -/
def documentText (formats : Formats) (d : Dialect) (json : Bool) (document : d.Document) :
    Except String String :=
  if json then formats.writeJson (d.encode document) else .ok ((d.outline document).block 0)

/-- The sections of the document, which is left out if it has no text, and of its canonical text. -/
def documentSections (d : Dialect) (document : d.Document) (shown : Except String String) : String :=
  let lines := match shown with
    | .ok text => text ++ "\n"
    | .error _ => ""
  heading "AST" ++ lines ++ "\n" ++
    heading "CANONICAL" ++ d.print document ++ "\n\nParse succeeded\n"

/-- What is told of a document that has no text. -/
def documentErrors : Except String String → String
  | .ok _ => ""
  | .error reason => "Failed to serialize AST: " ++ reason ++ "\n"

/-- How the command ends on the text of the file. -/
def transcript (formats : Formats) (arguments : Arguments) (options : Options) (text : String) :
    Transcript :=
  let d := arguments.dialect
  match d.parse options text with
  | .ok document =>
    let shown := documentText formats d arguments.json document
    ⟨0, tokensSection d text ++ documentSections d document shown, documentErrors shown⟩
  | .error e => ⟨1, tokensSection d text, e.render text ++ "\n"⟩

/-- How the command ends if it cannot go on. -/
def stopped (message : String) : Session := .ended ⟨1, "", message ++ "\n"⟩

/-- The name of the text is the path of its file, unless the options give it one. -/
def effectiveOptions (path : String) (options : Options) : Options :=
  if options.sourceName = Options.unnamedSource then
    ⟨path, options.maxDepth, options.maxInputBytes⟩
  else options

/-- Asks for a file and goes on with its text. -/
def withFile (path : String) (next : String → Session) : Session :=
  .ask path fun
    | .ok text => next text
    | .error failure => stopped ("Failed to read " ++ path ++ ": " ++ failure.message)

/-- The command from the reading of the file on. -/
def traceFile (formats : Formats) (arguments : Arguments) (options : Options) : Session :=
  withFile arguments.path fun text =>
    .ended (transcript formats arguments (effectiveOptions arguments.path options) text)

/-- The command. -/
def session (formats : Formats) (args : List String) : Session :=
  match Arguments.ofList? args with
  | none => .ended ⟨2, "", usage⟩
  | some arguments =>
    match arguments.options? with
    | none => traceFile formats arguments .standard
    | some file => withFile file fun text =>
      match Options.ofText formats.readOptions text with
      | .ok options => traceFile formats arguments options
      | .error e => stopped ("Invalid options in " ++ file ++ ": " ++ e.message)

end ObjectTransfer.Trace
