import Schematron.Decimal.Basic

/-!
# Decimal texts

A layout decides how a decimal is written: up to which magnitude with all its
places, from there on with an exponent, and whether a whole number keeps a zero
after the point. `plain` is the layout of numbers in expressions and messages,
`tagged` the one of decimals in configuration texts, where the form of a number
tells a decimal from an integer.
-/

namespace Schematron

namespace Decimal

structure Layout where
  /-- The magnitudes written with all places: from the first and below the second bound, or all
  of them. -/
  positional : Option (Int × Int)
  /-- Whether a whole number is written with a zero after the point. -/
  pointZero : Bool

namespace Layout

/-- All places, and no point in a whole number. -/
def plain : Layout := ⟨none, false⟩

/-- All places for magnitudes from `-5` to `15`, always with a point; an exponent elsewhere. -/
def tagged : Layout := ⟨some (-5, 16), true⟩

def isPositional (l : Layout) (magnitude : Int) : Bool :=
  match l.positional with
  | none => true
  | some (low, high) => low ≤ magnitude && magnitude < high

end Layout

/-- The digits `ds` with a point before the last `places` of them, or with zeros behind them. -/
def positionalText (pointZero : Bool) (ds : List Char) (exponent : Int) : List Char :=
  if 0 ≤ exponent then
    ds ++ List.replicate exponent.toNat '0' ++ if pointZero then ['.', '0'] else []
  else
    let places := (-exponent).toNat
    if places < ds.length then
      ds.take (ds.length - places) ++ '.' :: ds.drop (ds.length - places)
    else
      '0' :: '.' :: List.replicate (places - ds.length) '0' ++ ds

/-- One digit before the point and the power of ten behind an `e`, always with its sign. -/
def exponentText (ds : List Char) (magnitude : Int) : List Char :=
  let mantissa := match ds with
    | first :: second :: rest => first :: '.' :: second :: rest
    | short => short
  mantissa ++ 'e' :: (if magnitude < 0 then '-' else '+') :: digits magnitude.natAbs

def textChars (l : Layout) (d : Decimal) : List Char :=
  let ds := digits d.coefficient
  let body :=
    if l.isPositional d.magnitude then positionalText l.pointZero ds d.exponent
    else exponentText ds d.magnitude
  if d.negative then '-' :: body else body

def text (l : Layout) (d : Decimal) : String := String.ofList (d.textChars l)

end Decimal

end Schematron
