import Schematron.Decimal.Basic
import Schematron.Decimal.Binary64

/-!
# The shortest decimal that reads back

A finite double-precision number stands for an interval of reals, those that
round to it; the ends belong to it when the significand is even. `shortest`
gives a decimal in that interval with as few digits as possible, and among those
the one nearest to the number. When two are equally near, a `Tie` decides.

All quantities are natural numbers in one unit, a quarter of the last bit of the
significand, so nothing is rounded on the way.
-/

namespace Schematron

/-- Which of two equally near decimals is taken. -/
inductive Tie where
  /-- The one farther from zero. -/
  | away
  /-- The one with an even last digit. -/
  | even
  deriving DecidableEq, Repr

/-- The numbers that round to a given one, in a common decimal unit. -/
structure RoundingInterval where
  /-- The lower end. -/
  low : Nat
  /-- The number itself. -/
  value : Nat
  /-- The upper end. -/
  high : Nat
  /-- Whether the two ends round to the number too. -/
  closed : Bool
  deriving Repr

namespace RoundingInterval

def contains (r : RoundingInterval) (x : Nat) : Bool :=
  if r.closed then r.low ≤ x && x ≤ r.high else r.low < x && x < r.high

/-- The multiple of `grid` in the interval that is nearest to the number, as a count of
`grid`s. Only the two neighbours of the number on the grid have to be looked at. -/
def nearest? (r : RoundingInterval) (tie : Tie) (grid : Nat) : Option Nat :=
  let below := r.value / grid
  let above := below + 1
  match r.contains (below * grid), r.contains (above * grid) with
  | false, false => none
  | true, false => some below
  | false, true => some above
  | true, true =>
    let down := r.value - below * grid
    let up := above * grid - r.value
    if down < up then some below
    else if up < down then some above
    else match tie with
      | .away => some above
      | .even => some (if below % 2 = 0 then below else above)

/-- The coarsest grid `10 ^ p`, for `p` at most the given power, that meets the interval, with
the chosen count of its steps. On the grid of step one the number itself is taken. -/
def shortestFrom (r : RoundingInterval) (tie : Tie) : Nat → Nat × Nat
  | 0 => (r.value, 0)
  | power + 1 =>
    match r.nearest? tie (Nat.pow 10 (power + 1)) with
    | some count => (count, power + 1)
    | none => r.shortestFrom tie power

end RoundingInterval

namespace Binary64

/-- The interval of a positive finite number in units of `10 ^ e`, with that exponent `e`. The
gap below a power of two is half the gap above it, the least normal number excepted. -/
def interval (scale : Fin 2047) (fraction : Fin (Nat.pow 2 52)) : RoundingInterval × Int :=
  let quarters := 4 * significand scale fraction
  let gap := if fraction.val = 0 && scale.val > 1 then 1 else 2
  let exponent := lastBit scale - 2
  let unit := Nat.pow 2 exponent.toNat * Nat.pow 5 (-exponent).toNat
  (⟨(quarters - gap) * unit, quarters * unit, (quarters + 2) * unit, fraction.val % 2 = 0⟩,
    min exponent 0)

/-- The decimal with the fewest digits that rounds to a finite number, and the nearest of
those; `none` for the other values. -/
def shortest? (tie : Tie) : Binary64 → Option Decimal
  | nan => none
  | infinite _ => none
  | finite negative scale fraction =>
    if isZero (.finite negative scale fraction) then some ⟨negative, 0, 0⟩
    else
      let (r, exponent) := interval scale fraction
      let (count, power) := r.shortestFrom tie (Decimal.digits r.value).length
      some ⟨negative, count, exponent + power⟩

end Binary64

end Schematron
