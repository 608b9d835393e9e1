/-!
# Decimal numbers

A decimal number is a signed coefficient times a power of ten, kept exactly. It
is the meeting point of the number texts that are read, the binary numbers that
are stored, and the texts that are written. The sign is kept apart from the
coefficient, so that zero has two forms.
-/

namespace Schematron

/-- The number `± coefficient * 10 ^ exponent`. -/
structure Decimal where
  /-- Whether the number is written with a minus sign. -/
  negative : Bool
  /-- The digits, read as one natural number. -/
  coefficient : Nat
  /-- The power of ten of the last digit. -/
  exponent : Int
  deriving DecidableEq, Repr, Inhabited

namespace Decimal

/-- The decimal digits of a natural number, the leading one first. -/
def digits (n : Nat) : List Char := Nat.toDigits 10 n

def ofDigits (ds : List Char) : Nat := Nat.ofDigitChars 10 ds 0

theorem digits_ne_nil (n : Nat) : digits n ≠ [] := Nat.toDigits_ne_nil

/-- The digits of a number denote that number. -/
@[simp] theorem ofDigits_digits (n : Nat) : ofDigits (digits n) = n :=
  Nat.ofDigitChars_toDigits (by decide) (by decide)

theorem isDigit_of_mem_digits {n : Nat} {c : Char} (h : c ∈ digits n) : c.isDigit = true :=
  Nat.isDigit_of_mem_toDigits (by decide) (by decide) h

/-- The power of ten of the leading digit. -/
def magnitude (d : Decimal) : Int := d.exponent + (digits d.coefficient).length - 1

end Decimal

end Schematron
