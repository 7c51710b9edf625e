import ObjectTransfer.Json.Text
import ObjectTransfer.Options.File
import ObjectTransfer.Trace

/-!
# Formats of the command line

The formats that the trace command is run with: an option on each line, and JSON that is indented.
Whatever is proved of the command holds for any other formats, too.
-/

namespace ObjectTransfer

/-- Options line by line, and JSON with an item or a member on each line. -/
def Trace.Formats.lineByLine : Formats where
  readOptions := Options.decodeLines
  writeJson json := .ok (json.indentedText 0)

end ObjectTransfer
