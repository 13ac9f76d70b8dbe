import Stencil.Text.Printable

/-!
# Quoted text

Text between double quotes, in which every character can be told from its surroundings: quotes and
backslashes are escaped, the usual controls have letters, and all else that cannot be seen by
itself is written as its code point. Apostrophes stay as they are.
-/

namespace Stencil

namespace Quoted

/-- The digits of a number to base sixteen, in lower case and without leading zeros. -/
def hex (n : Nat) : String :=
  String.ofList (Nat.toDigits 16 n)

/-- One character between double quotes. -/
def escape (c : Char) : String :=
  if c = '\x00' then "\\0"
  else if c = '\t' then "\\t"
  else if c = '\r' then "\\r"
  else if c = '\n' then "\\n"
  else if c = '"' then "\\\""
  else if c = '\\' then "\\\\"
  else if Unicode.isPrintable c then c.toString
  else "\\u\x7b" ++ hex c.toNat ++ "\x7d"

/-- A text between double quotes. -/
def text (s : String) : String :=
  "\"" ++ String.join (s.toList.map escape) ++ "\""

end Quoted

end Stencil
