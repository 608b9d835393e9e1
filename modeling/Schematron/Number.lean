import Schematron.Decimal.Layout
import Schematron.Decimal.Reader
import Schematron.Decimal.Rounding
import Schematron.Decimal.Shortest

/-!
# Numbers in comparisons

The bound of a comparison is an integer of 64 bits or a double-precision
decimal, and stays what it was given as: a decimal that happens to be whole is
no integer. `Number.text` writes a number as an XPath 1.0 expression. XPath has
no literal for the infinities and for the undefined number, so these are written
as divisions that evaluate to them.
-/

namespace Schematron

/-- The bound of a comparison. -/
inductive Number where
  | integer (value : Int64)
  | decimal (value : Binary64)
  deriving DecidableEq, Repr

namespace Number

/-- The smallest and the largest integer that is kept as one. -/
def integerRange : Int × Int := (Int64.minValue.toInt, Int64.maxValue.toInt)

def isInRange (n : Int) : Bool := integerRange.1 ≤ n && n ≤ integerRange.2

/-- Numeric equality. An integer never equals a decimal. -/
def equals : Number → Number → Bool
  | integer a, integer b => a = b
  | decimal a, decimal b => a.equals b
  | _, _ => false

def integerText (n : Int64) : String :=
  let digits := Decimal.digits n.toInt.natAbs
  String.ofList (if n < 0 then '-' :: digits else digits)

/-- A decimal as an XPath expression: the fewest digits that read back, without an exponent. -/
def decimalText (x : Binary64) : String :=
  match x with
  | .nan => "(0 div 0)"
  | .infinite true => "(-1 div 0)"
  | .infinite false => "(1 div 0)"
  | x => ((x.shortest? .away).map (Decimal.text .plain)).getD ""

/-- The number as an XPath expression. -/
def text : Number → String
  | integer n => integerText n
  | decimal x => decimalText x

def readInteger? (s : String) : Option Number := do
  let n ← Decimal.readInt? s.toList
  guard (isInRange n)
  return .integer (Int64.ofInt n)

/-- Reads a decimal, which may be the name of an infinity or of the undefined number in any
case. -/
def readDecimal? (s : String) : Option Number :=
  let (negative, rest) := Decimal.readSign s.toList
  match String.ofList (rest.map Char.toLower) with
  | "nan" => some (.decimal .nan)
  | "inf" => some (.decimal (.infinite negative))
  | "infinity" => some (.decimal (.infinite negative))
  | _ => (Decimal.read? s.toList).map (.decimal ∘ Binary64.ofDecimal)

end Number

end Schematron
