/-!
# Binary floating point

A number in the 64-bit binary interchange format, kept as its bits, so that equality is equality of
bits: a NaN equals itself and the two zeros differ. Its fields are read as natural numbers, and
`ofRatio` rounds an exact quotient into the format, so no operation here leaves exact arithmetic.
-/

namespace Stencil

/-- A number in the 64-bit binary format. -/
structure Binary64 where
  bits : UInt64
  deriving DecidableEq, Inhabited

namespace Binary64

def isNegative (x : Binary64) : Bool :=
  x.bits >>> 63 == 1

/-- The biased exponent, eleven bits. -/
def exponentField (x : Binary64) : Nat :=
  (x.bits >>> 52 &&& 0x7FF).toNat

/-- The fraction, fifty-two bits. -/
def fractionField (x : Binary64) : Nat :=
  (x.bits &&& 0xFFFFFFFFFFFFF).toNat

/-- Neither an infinity nor a NaN. -/
def isFinite (x : Binary64) : Bool :=
  x.exponentField != 0x7FF

def isNaN (x : Binary64) : Bool :=
  !x.isFinite && x.fractionField != 0

/-- The bit that stands before the fraction of a number that is not too small. -/
def leadingBit : Nat := 0x10000000000000

/-- A finite number's magnitude is `significand * 2 ^ scale`. -/
def significand (x : Binary64) : Nat :=
  if x.exponentField = 0 then x.fractionField else x.fractionField + leadingBit

@[inherit_doc significand]
def scale (x : Binary64) : Int :=
  if x.exponentField = 0 then -1074 else (x.exponentField : Int) - 1075

/-- The magnitude of a finite number, if it is whole. -/
def whole? (x : Binary64) : Option Nat :=
  let numerator := x.significand <<< x.scale.toNat
  let denominator := 1 <<< (-x.scale).toNat
  if numerator % denominator = 0 then some (numerator / denominator) else none

def one : Binary64 := ⟨0x3FF0000000000000⟩

/-- The quotient rounded to the nearest whole number, a half going to the even neighbour. -/
def roundHalfEven (numerator denominator : Nat) : Nat :=
  let quotient := numerator / denominator
  match compare (2 * (numerator % denominator)) denominator with
  | .lt => quotient
  | .eq => quotient + quotient % 2
  | .gt => quotient + 1

/-- The bits of an infinity's magnitude; larger magnitudes are rounded to it. -/
def infinityBits : Nat := 0x7FF * leadingBit

/-- The nearest number to `± numerator / denominator`, a half going to the even neighbour and a
magnitude beyond the largest finite number to infinity. The significand is rounded at the scale
that leaves it fifty-three bits, or at the least scale; a carry out of it moves into the exponent
field by itself, because the fields are adjacent. -/
def ofRatio (negative : Bool) (numerator denominator : Nat) : Binary64 :=
  let estimate : Int := (numerator.log2 : Int) - (denominator.log2 : Int)
  let fits := numerator <<< (-estimate).toNat ≥ denominator <<< estimate.toNat
  let magnitude := if fits then estimate else estimate - 1
  let scale := max (magnitude - 52) (-1074)
  let significand :=
    roundHalfEven (numerator <<< (-scale).toNat) (denominator <<< scale.toNat)
  let bits := if numerator = 0 then 0 else (scale + 1074).toNat * leadingBit + significand
  ⟨.ofNat (min bits infinityBits + if negative then 0x8000000000000000 else 0)⟩

end Binary64

end Stencil
