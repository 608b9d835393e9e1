import Schematron.Decimal.Basic
import Schematron.Decimal.Binary64

/-!
# Rounding decimals to double precision

A decimal is rounded to the nearest double-precision number, and a decimal half
way between two of them to the one with an even significand. Beyond the largest
finite number the result is an infinity, and below half of the smallest positive
one it is a zero with the sign of the decimal. The computation is exact: the
decimal is a ratio of natural numbers, and the significand is one rounded
quotient.
-/

namespace Schematron

/-- The quotient of two natural numbers, rounded to nearest and to even on a tie. -/
def roundedQuotient (num den : Nat) : Nat :=
  let quotient := num / den
  let twice := 2 * (num % den)
  if twice > den || (twice = den && quotient % 2 = 1) then quotient + 1 else quotient

/-- The largest `e` with `2 ^ e * den ≤ num`, for positive arguments. -/
def binaryMagnitude (num den : Nat) : Int :=
  let estimate : Int := (num.log2 : Int) - den.log2
  if num * Nat.pow 2 (-estimate).toNat < den * Nat.pow 2 estimate.toNat then estimate - 1
  else estimate

namespace Binary64

/-- The double-precision value nearest to `± num / den`, for a positive `den`. -/
def ofRatio (negative : Bool) (num den : Nat) : Binary64 :=
  if num = 0 then zero negative
  else
    let exponent := max (binaryMagnitude num den - 52) (-1074)
    let significand :=
      roundedQuotient (num * Nat.pow 2 (-exponent).toNat) (den * Nat.pow 2 exponent.toNat)
    let (significand, exponent) :=
      if significand = Nat.pow 2 53 then (Nat.pow 2 52, exponent + 1) else (significand, exponent)
    if exponent > 971 then .infinite negative else ofSignificand negative significand exponent

/-- The double-precision value nearest to a decimal. Decimals of at least `10 ^ 309` or below
`10 ^ -324` are settled by their magnitude alone, whatever their exponent. -/
def ofDecimal (d : Decimal) : Binary64 :=
  if d.coefficient = 0 then zero d.negative
  else if d.magnitude ≥ 309 then .infinite d.negative
  else if d.magnitude < -324 then zero d.negative
  else
    ofRatio d.negative (d.coefficient * Nat.pow 10 d.exponent.toNat)
      (Nat.pow 10 (-d.exponent).toNat)

end Binary64

end Schematron
