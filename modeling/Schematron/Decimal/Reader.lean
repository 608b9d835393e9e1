import Schematron.Decimal.Basic

/-!
# Reading decimals

The free form in which a number is given by hand: an optional sign, digits with
an optional point anywhere among them, and an optional exponent. At least one
digit has to stand beside the point.
-/

namespace Schematron

namespace Decimal

/-- The sign of a text and what follows it; no sign is a plus. -/
def readSign : List Char → Bool × List Char
  | '-' :: rest => (true, rest)
  | '+' :: rest => (false, rest)
  | cs => (false, cs)

/-- A natural number that takes the whole text. -/
def readNat? (cs : List Char) : Option Nat :=
  if !cs.isEmpty && cs.all Char.isDigit then some (ofDigits cs) else none

/-- An integer that takes the whole text. -/
def readInt? (cs : List Char) : Option Int :=
  let (negative, cs) := readSign cs
  (readNat? cs).map fun n => if negative then -(n : Int) else n

/-- The exponent that takes the rest of a text; an empty rest is an exponent of zero. -/
def readExponent? : List Char → Option Int
  | [] => some 0
  | 'e' :: rest => readInt? rest
  | 'E' :: rest => readInt? rest
  | _ => none

/-- The digits behind the point, if the text starts with one, and what follows. -/
def readPlaces : List Char → List Char × List Char
  | '.' :: rest => (rest.takeWhile Char.isDigit, rest.dropWhile Char.isDigit)
  | cs => ([], cs)

/-- A decimal that takes the whole text. -/
def read? (cs : List Char) : Option Decimal := do
  let (negative, cs) := readSign cs
  let whole := cs.takeWhile Char.isDigit
  let (places, cs) := readPlaces (cs.dropWhile Char.isDigit)
  guard !(whole ++ places).isEmpty
  let exponent ← readExponent? cs
  return ⟨negative, ofDigits (whole ++ places), exponent - places.length⟩

end Decimal

end Schematron
