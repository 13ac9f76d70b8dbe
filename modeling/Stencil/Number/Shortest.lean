import Stencil.Number.Binary64

/-!
# Shortest decimals

The decimal with the fewest digits among those that read back as a given number, and the nearest
one among these. All of it is exact: an interval of reals rounds to the number, the powers of ten
are tried from the largest down, and the first whose multiples meet the interval gives the digits.
-/

namespace Stencil

/-- The number `coefficient * 10 ^ exponent`. -/
structure Decimal where
  coefficient : Nat
  exponent : Int
  deriving DecidableEq, Repr

/-- Which of two equally near decimals is taken. -/
inductive Tie where
  /-- The one of larger magnitude. -/
  | up
  /-- The one whose last digit is even. -/
  | even
  deriving DecidableEq

namespace Binary64

/-- The multiple of `10 ^ power` that is nearest to a positive finite number, among the two next to
it, if one of these reads back as the number. In units of a quarter of the last place the number is
`4 * significand`; the reals that round to it reach two units up, and two units down or, at the
lower end of a binade, one. The ends belong to them if the significand is even. -/
def nearestMultiple? (tie : Tie) (x : Binary64) (power : Int) : Option Nat :=
  let atBinade := x.fractionField = 0 ∧ x.exponentField > 1
  let unit := Nat.pow 10 (-power).toNat <<< (x.scale - 2).toNat
  let step := Nat.pow 10 power.toNat <<< (2 - x.scale).toNat
  let value := 4 * x.significand * unit
  let low := value - (if atBinade then 1 else 2) * unit
  let high := value + 2 * unit
  let readsBack (n : Nat) : Bool :=
    if x.significand % 2 = 0 then low ≤ n * step && n * step ≤ high
    else low < n * step && n * step < high
  let below := value / step
  match readsBack below, readsBack (below + 1) with
  | false, false => none
  | true, false => some below
  | false, true => some (below + 1)
  | true, true =>
    match compare (2 * (value % step)) step, tie with
    | .lt, _ => some below
    | .gt, _ => some (below + 1)
    | .eq, .up => some (below + 1)
    | .eq, .even => some (below + below % 2)

/-- The first power of ten, from `10 ^ (start + count)` down to `10 ^ (start + 1)`, that has a
multiple which reads back. The last resort is the exact value, which always does. -/
def shortestFrom (tie : Tie) (x : Binary64) (start : Int) : Nat → Decimal
  | 0 =>
    ⟨(x.significand <<< x.scale.toNat) * Nat.pow 5 (-x.scale).toNat, min x.scale 0⟩
  | count + 1 =>
    let power := start + (count + 1 : Nat)
    match nearestMultiple? tie x power with
    | some n => ⟨n, power⟩
    | none => shortestFrom tie x start count

/-- The fewest digits that read back as a positive finite number. No such number exceeds `10 ^ 309`
and seventeen digits always suffice, so the powers that matter lie between `-345` and `309`. -/
def shortest (tie : Tie) (x : Binary64) : Decimal :=
  shortestFrom tie x (-345) 654

end Binary64

end Stencil
