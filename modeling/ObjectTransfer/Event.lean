import ObjectTransfer.Dialect

/-!
# Events

What a parse reports while it runs: that the text has tokens, each definition or step that it has
completed, and how it ended.
-/

namespace ObjectTransfer

/-- A report of a parse. -/
inductive Event where
  /-- The text has this many bytes and tokens, the end counted as one. -/
  | tokenized (dialect : Dialect) (source : String) (bytes tokens : Nat)
  /-- A definition of a schema is complete. -/
  | definition (name : String)
  /-- A step of a request is complete. -/
  | step (relation : String) (filters : Nat)
  /-- The text was read and has this many items. -/
  | parsed (dialect : Dialect) (source : String) (items : Nat)
  /-- The tokens do not fit. -/
  | failed (dialect : Dialect) (source error : String)
deriving DecidableEq

/-- How much detail an event is. -/
inductive Event.Level where
  | debug
  | trace
deriving DecidableEq

/-- Items are more detail than the whole text. -/
def Event.level : Event → Event.Level
  | .definition _ => .trace
  | .step _ _ => .trace
  | _ => .debug

/-- The event in words. -/
def Event.message : Event → String
  | .tokenized .. => "tokenized"
  | .definition _ => "parsed schema declaration"
  | .step .. => "parsed chain step"
  | .parsed .. => "parsed"
  | .failed .. => "parse failed"

end ObjectTransfer
