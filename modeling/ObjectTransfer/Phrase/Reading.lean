import ObjectTransfer.Phrase.Basic

/-!
# Reading a whole text

A text is a list of items that are read one after another. A `Reading` tells which of them were
completed, also when the text as a whole does not fit.
-/

namespace ObjectTransfer

/-- What reading a whole text gives: the items completed, in order, and the value or why and where
the reading stopped. -/
structure Reading (ι α : Type) where
  completed : List ι
  result : Except Stop α

end ObjectTransfer
