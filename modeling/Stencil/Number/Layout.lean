import Stencil.Number.Shortest

/-!
# Decimal notation

How the digits of a decimal are laid out: with a point among them, or with one digit before the
point and a power of ten behind.
-/

namespace Stencil

namespace Decimal

def digits (d : Decimal) : List Char :=
  Nat.toDigits 10 d.coefficient

/-- The exponent of the first digit. -/
def magnitude (d : Decimal) : Int :=
  d.exponent + d.digits.length - 1

/-- The digits with the point in its place and no exponent. A whole number has no point. -/
def positional (d : Decimal) : String :=
  let digits := d.digits
  let places := (-d.exponent).toNat
  let zeros (n : Nat) := List.replicate n '0'
  String.ofList <|
    if places = 0 then digits ++ zeros d.exponent.toNat
    else if digits.length ≤ places then '0' :: '.' :: zeros (places - digits.length) ++ digits
    else digits.take (digits.length - places) ++ '.' :: digits.drop (digits.length - places)

/-- One digit, a point and the other digits if there are any, and the exponent with its sign, a
plus too. -/
def scientific (d : Decimal) : String :=
  let (lead, rest) := d.digits.splitAt 1
  let point := if rest.isEmpty then [] else ['.']
  let sign := if d.magnitude < 0 then '-' else '+'
  String.ofList (lead ++ point ++ rest ++ 'e' :: sign :: Nat.toDigits 10 d.magnitude.natAbs)

end Decimal

end Stencil
