import ObjectTransfer.Text.Printable

/-!
# Texts written for inspection

Messages quote what they found so that every character can be told: in quotes, with a backslash
before the quote itself, short escapes for the usual controls, and the code point of whatever does
not show as itself.
-/

namespace ObjectTransfer

/-- A character inside quotes of the given kind. -/
def inspectedChar (quote c : Char) : List Char :=
  if c = quote || c = '\\' then ['\\', c]
  else if c = '\n' then ['\\', 'n']
  else if c = '\r' then ['\\', 'r']
  else if c = '\t' then ['\\', 't']
  else if c = '\x00' then ['\\', '0']
  else if isPrintable c then [c]
  else '\\' :: 'u' :: '\x7b' :: Nat.toDigits 16 c.toNat ++ ['\x7d']

/-- A text for inspection, in double quotes. -/
def inspectString (s : String) : String :=
  String.ofList ('"' :: s.toList.flatMap (inspectedChar '"') ++ ['"'])

/-- A character for inspection, in single quotes. -/
def inspectChar (c : Char) : String :=
  String.ofList ('\'' :: inspectedChar '\'' c ++ ['\''])

end ObjectTransfer
