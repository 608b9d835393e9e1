import Schematron.Decimal.Basic

/-!
# JSON values

A JSON value as its text gives it. Members of an object keep their order and
may repeat a name, because whether a repetition matters is decided by whoever
reads the value. Numbers are exact: an integer stays apart from a decimal, and
no decimal is rounded here.

A string may have no characters to stand for: an escape can name half of a
surrogate pair without the other half. Such a string is well formed as text, so
it is a value, but it reads as `none`.
-/

namespace Schematron

inductive Json where
  | null
  | bool (value : Bool)
  /-- A number written with digits alone, apart from a negative zero. -/
  | integer (value : Int)
  /-- A number with a fraction or an exponent, or a negative zero. -/
  | decimal (value : Decimal)
  /-- A string; `none` when it holds an unpaired surrogate. -/
  | string (text : Option String)
  | array (items : List Json)
  | object (members : List (Option String × Json))
  deriving Inhabited

namespace Json

def ofString (s : String) : Json := .string (some s)

def ofNat (n : Nat) : Json := .integer n

def ofMembers (members : List (String × Json)) : Json :=
  .object (members.map fun m => (some m.1, m.2))

end Json

end Schematron
