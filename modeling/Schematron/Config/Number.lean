import Schematron.Json.Basic
import Schematron.Number

/-!
# Numbers in configuration

A number keeps the form it is written in: an integer that fits 64 bits is an
integer, and everything else is a decimal, rounded to double precision. A number
beyond that range is refused. A decimal is written with the fewest digits that
read back, and one that is no finite number has no text but `null`.
-/

namespace Schematron

namespace Number

/-- The rounded decimal, unless it is too large. -/
def ofDecimal? (d : Decimal) : Option Number :=
  let x := Binary64.ofDecimal d
  if x.isFinite then some (.decimal x) else none

def ofJson? : Json → Option Number
  | .integer n =>
    if isInRange n then some (.integer (Int64.ofInt n)) else ofDecimal? ⟨n < 0, n.natAbs, 0⟩
  | .decimal d => ofDecimal? d
  | _ => none

def toJson : Number → Json
  | integer n => .integer n.toInt
  | decimal x =>
    match x.shortest? .even with
    | some d => .decimal d
    | none => .null

/-- The bound that a value gives to a comparison: `null` is none. -/
def boundOfJson? : Json → Option (Option Number)
  | .null => some none
  | j => (ofJson? j).map some

/-- The value of a bound, which is `null` without one. -/
def boundToJson : Option Number → Json
  | none => .null
  | some n => n.toJson

end Number

end Schematron
