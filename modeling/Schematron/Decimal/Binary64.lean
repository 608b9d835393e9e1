/-!
# Double-precision numbers

`Binary64` is the set of values of the double-precision binary format: finite
numbers, two infinities and one value that is not a number. A finite number is
given by its three fields, so every combination is a value and no two
combinations are the same one. No arithmetic is done on them: they are read from
decimals, compared for equality and written as decimals.
-/

namespace Schematron

inductive Binary64 where
  /-- The result of an undefined operation. -/
  | nan
  /-- An infinity of the given sign. -/
  | infinite (negative : Bool)
  /-- A finite number; a `scale` of zero marks the numbers below the least normal one. -/
  | finite (negative : Bool) (scale : Fin 2047) (fraction : Fin (Nat.pow 2 52))
  deriving DecidableEq, Repr, Inhabited

namespace Binary64

/-- The integral significand: the fraction, with the leading bit of a normal number. -/
def significand (scale : Fin 2047) (fraction : Fin (Nat.pow 2 52)) : Nat :=
  if scale.val = 0 then fraction.val else Nat.pow 2 52 + fraction.val

/-- The power of two of the significand's last bit. -/
def lastBit (scale : Fin 2047) : Int :=
  if scale.val = 0 then -1074 else (scale.val : Int) - 1075

/-- The finite number `± significand * 2 ^ exponent`, for a significand below `2 ^ 53` that is
normal unless the exponent is the least one. -/
def ofSignificand (negative : Bool) (significand : Nat) (exponent : Int) : Binary64 :=
  if significand < Nat.pow 2 52 then
    .finite negative 0 (Fin.ofNat (Nat.pow 2 52) significand)
  else
    .finite negative (Fin.ofNat 2047 (exponent + 1075).toNat)
      (Fin.ofNat (Nat.pow 2 52) (significand - Nat.pow 2 52))

/-- Zero, which has a sign. -/
def zero (negative : Bool) : Binary64 := .finite negative 0 0

def isFinite : Binary64 → Bool
  | finite .. => true
  | _ => false

def isZero : Binary64 → Bool
  | finite _ scale fraction => scale = 0 && fraction = 0
  | _ => false

/-- Numeric equality: the two zeros are equal, and `nan` differs from everything, itself
included. -/
def equals (a b : Binary64) : Bool :=
  a ≠ nan && (a = b || (a.isZero && b.isZero))

end Binary64

end Schematron
