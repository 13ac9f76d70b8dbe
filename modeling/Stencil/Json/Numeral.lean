import Stencil.Json.Basic

/-!
# JSON numerals

How a numeral becomes a number. An integer that fits is kept exactly. Any other numeral is read in
two steps: its digits are gathered into a significand as long as that fits sixty-four bits, the
digits behind being dropped, and the significand is then multiplied or divided by a power of ten.
Both steps round, so the result may differ from the nearest number in its last place.
-/

namespace Stencil

/-- The magnitude of a finite number as a quotient. -/
def Binary64.quotient (x : Binary64) : Nat × Nat :=
  (x.significand <<< x.scale.toNat, 1 <<< (-x.scale).toNat)

/-- The product of the magnitudes of two finite numbers, rounded. -/
def Binary64.mul (x y : Binary64) : Binary64 :=
  ofRatio false (x.quotient.1 * y.quotient.1) (x.quotient.2 * y.quotient.2)

/-- The quotient of the magnitudes of two finite numbers, the second not being zero, rounded. -/
def Binary64.div (x y : Binary64) : Binary64 :=
  ofRatio false (x.quotient.1 * y.quotient.2) (x.quotient.2 * y.quotient.1)

/-- The number with its sign bit set if `negative` says so. -/
def Binary64.withSign (x : Binary64) (negative : Bool) : Binary64 :=
  if negative then ⟨x.bits ||| 0x8000000000000000⟩ else x

namespace Json

/-- The parts of a numeral, each a list of digits. -/
structure Numeral where
  negative : Bool
  whole : List Char
  /-- The digits behind the point, if there is a point. -/
  fraction : Option (List Char)
  /-- Whether the exponent is negative, and its digits. -/
  exponent : Option (Bool × List Char)

namespace Numeral

def digit (c : Char) : Nat := c.toNat - '0'.toNat

/-- A significand extended by digits for as long as it fits sixty-four bits, and how many digits
were left over. -/
def gather (significand : Nat) : List Char → Nat × Nat
  | [] => (significand, 0)
  | c :: rest =>
    if significand * 10 + digit c < UInt64.size then gather (significand * 10 + digit c) rest
    else (significand, rest.length + 1)

/-- The power `10 ^ n`, rounded. -/
def power (n : Nat) : Binary64 := .ofRatio false (Nat.pow 10 n) 1

/-- The largest `n` for which `10 ^ n` is finite. -/
def maxPower : Nat := 308

/-- A significand divided by a power of ten, in steps no larger than the largest finite power. After
two such steps nothing is left of a significand of sixty-four bits. -/
def shrink (x : Binary64) (exponent : Nat) : Nat → Binary64
  | 0 => .ofRatio false 0 1
  | steps + 1 =>
    if exponent ≤ maxPower then x.div (power exponent)
    else shrink (x.div (power maxPower)) (exponent - maxPower) steps

/-- A significand times a power of ten, unless it is too large for a finite number. -/
def scaled? (significand : Nat) (exponent : Int) : Option Binary64 :=
  let x := Binary64.ofRatio false significand 1
  if exponent < 0 then some (shrink x exponent.natAbs 4)
  else if significand = 0 then some x
  else if exponent ≤ maxPower then
    let product := x.mul (power exponent.toNat)
    if product.isFinite then some product else none
  else none

def natural (digits : List Char) : Nat :=
  digits.foldl (fun n c => n * 10 + digit c) 0

/-- The numeral as a floating-point number, unless it is too large. -/
def float? (numeral : Numeral) : Option Binary64 :=
  let (whole, dropped) := gather 0 numeral.whole
  let fraction := numeral.fraction.getD []
  let (significand, left) := gather whole fraction
  let places : Int := (dropped : Int) - (fraction.length - left : Nat)
  let exponent : Int :=
    match numeral.exponent with
    | none => 0
    | some (negative, digits) => if negative then -(natural digits : Int) else natural digits
  (scaled? significand (places + exponent)).map (·.withSign numeral.negative)

/-- The numeral as a number, unless it is too large. Minus zero is no integer. -/
def number? (numeral : Numeral) : Option Number :=
  let integer? : Option Number :=
    match numeral.fraction, numeral.exponent with
    | none, none =>
      let n : Int := natural numeral.whole
      if numeral.negative then
        if n = 0 then none else Number.ofInt? (-n)
      else Number.ofInt? n
    | _, _ => none
  integer?.orElse fun _ => numeral.float?.bind Number.ofBinary64?

end Numeral

end Json

end Stencil
