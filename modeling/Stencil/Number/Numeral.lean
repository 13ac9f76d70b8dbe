import Stencil.Number.Layout

/-!
# Numerals

The decimal text of whole and binary64 numbers, and the numerals that index a list.
-/

namespace Stencil

namespace Numeral

/-- A natural number in decimal, without leading zeros. -/
def natural (n : Nat) : String :=
  String.ofList (Nat.toDigits 10 n)

/-- A whole number in decimal, with a minus sign if it is negative. -/
def integer (n : Int) : String :=
  if n < 0 then "-" ++ natural n.natAbs else natural n.natAbs

/-- A binary64 number without an exponent: a whole one is written out exactly and keeps one zero
behind the point, so that it reads differently from an integer; any other has the fewest digits
that read back. -/
def binary64 (x : Binary64) : String :=
  if x.isNaN then "NaN"
  else
    let sign := if x.isNegative then "-" else ""
    let magnitude :=
      if !x.isFinite then "inf"
      else
        match x.whole? with
        | some n => natural n ++ ".0"
        | none => (x.shortest .up).positional
    sign ++ magnitude

def digit? (c : Char) : Option Nat :=
  if c.isDigit then some (c.toNat - '0'.toNat) else none

def ofDigits? (s : List Char) : Option Nat :=
  s.foldlM (fun n c => (digit? c).map (10 * n + ·)) 0

/-- The index that a text denotes: at least one digit, after at most one plus sign, with a value
below `2 ^ 64`. -/
def index? (s : String) : Option Nat :=
  let digits :=
    match s.toList with
    | '+' :: rest => rest
    | all => all
  if digits.isEmpty then none else (ofDigits? digits).filter (· < UInt64.size)

end Numeral

end Stencil
