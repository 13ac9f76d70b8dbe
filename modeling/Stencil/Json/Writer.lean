import Stencil.Json.Basic
import Stencil.Number.Numeral
import Stencil.Text.Quoted

/-!
# Writing JSON

A tree is written without white space. Strings escape quotes, backslashes and controls, and nothing
else.
-/

namespace Stencil

namespace Json

/-- One character of a string. -/
def writeChar (c : Char) : String :=
  if c = '"' then "\\\""
  else if c = '\\' then "\\\\"
  else if c = '\x08' then "\\b"
  else if c = '\x0c' then "\\f"
  else if c = '\n' then "\\n"
  else if c = '\r' then "\\r"
  else if c = '\t' then "\\t"
  else if c.toNat < 0x20 then
    let digits := Nat.toDigits 16 c.toNat
    "\\u" ++ String.ofList (List.replicate (4 - digits.length) '0' ++ digits)
  else c.toString

def writeString (s : String) : String :=
  "\"" ++ String.join (s.toList.map writeChar) ++ "\""

/-- A finite floating-point number by the fewest digits that read back: with a point if the first
digit stands between the places `10 ^ -5` and `10 ^ 15`, a whole number keeping one zero, and with
an exponent otherwise. -/
def writeFloat (x : Binary64) : String :=
  let sign := if x.isNegative then "-" else ""
  let magnitude :=
    if x.significand = 0 then "0.0"
    else
      let decimal := x.shortest .even
      if -5 ≤ decimal.magnitude ∧ decimal.magnitude ≤ 15 then
        decimal.positional ++ if decimal.exponent < 0 then "" else ".0"
      else decimal.scientific
  sign ++ magnitude

def Number.write : Number → String
  | .integer n _ => Stencil.Numeral.integer n
  | .float x _ => writeFloat x

mutual

def write : Json → String
  | .null => "null"
  | .bool b => if b then "true" else "false"
  | .number n => n.write
  | .string s => writeString s
  | .array items => "[" ++ ",".intercalate (writeItems items) ++ "]"
  | .object entries => "\x7b" ++ ",".intercalate (writeEntries entries) ++ "\x7d"

def writeItems : List Json → List String
  | [] => []
  | item :: rest => write item :: writeItems rest

def writeEntries : List (String × Json) → List String
  | [] => []
  | (key, value) :: rest => (writeString key ++ ":" ++ write value) :: writeEntries rest

end

end Json

end Stencil
