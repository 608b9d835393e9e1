import Schematron.Json.Basic
import Schematron.Decimal.Layout

/-!
# Writing JSON texts

The compact form: no blanks, members in their order, and only those characters
escaped that may not stand in a string. A decimal is written so that it cannot
be taken for an integer.
-/

namespace Schematron

namespace Json

/-- The lower-case hexadecimal digit of a number below sixteen. -/
def hexChar (n : Nat) : Char := Nat.digitChar n

/-- A character inside a string: quotes, backslashes and control characters are escaped, those
with a letter of their own by it. -/
def escapeChar (c : Char) : List Char :=
  if c = '"' then ['\\', '"']
  else if c = '\\' then ['\\', '\\']
  else if c = '\x08' then ['\\', 'b']
  else if c = '\x0c' then ['\\', 'f']
  else if c = '\n' then ['\\', 'n']
  else if c = '\r' then ['\\', 'r']
  else if c = '\t' then ['\\', 't']
  else if c < ' ' then ['\\', 'u', '0', '0', hexChar (c.toNat / 16), hexChar (c.toNat % 16)]
  else [c]

/-- A string in quotes. -/
def quoted (s : String) : List Char := '"' :: s.toList.flatMap escapeChar ++ ['"']

/-- An integer in decimal digits. -/
def integerChars (n : Int) : List Char :=
  if n < 0 then '-' :: Decimal.digits n.natAbs else Decimal.digits n.natAbs

/-- A string that stands for no text is written empty. -/
def stringChars (s : Option String) : List Char := quoted (s.getD "")

mutual

def chars : Json → List Char
  | .null => ['n', 'u', 'l', 'l']
  | .bool true => ['t', 'r', 'u', 'e']
  | .bool false => ['f', 'a', 'l', 's', 'e']
  | .integer n => integerChars n
  | .decimal d => d.textChars .tagged
  | .string s => stringChars s
  | .array items => '[' :: itemsChars items ++ [']']
  | .object members => '\x7b' :: membersChars members ++ ['\x7d']
termination_by structural value => value

def itemsChars : List Json → List Char
  | [] => []
  | item :: rest => item.chars ++ moreItemsChars rest
termination_by structural items => items

/-- The items behind the first one, each after a comma. -/
def moreItemsChars : List Json → List Char
  | [] => []
  | item :: rest => ',' :: item.chars ++ moreItemsChars rest
termination_by structural items => items

def membersChars : List (Option String × Json) → List Char
  | [] => []
  | member :: rest => memberChars member ++ moreMembersChars rest
termination_by structural members => members

/-- The members behind the first one, each after a comma. -/
def moreMembersChars : List (Option String × Json) → List Char
  | [] => []
  | member :: rest => ',' :: memberChars member ++ moreMembersChars rest
termination_by structural members => members

def memberChars : Option String × Json → List Char
  | (name, value) => stringChars name ++ ':' :: value.chars
termination_by structural member => member

end

def print (value : Json) : String := String.ofList value.chars

end Json

end Schematron
