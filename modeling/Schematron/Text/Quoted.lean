import Schematron.Text.Visible

/-!
# Quoted characters

A character in single quotes, as it stands in a message. What would not be seen
there is escaped, by a letter where it has one and by its code point otherwise.
-/

namespace Schematron

namespace Text

/-- An escape by the code point, in lower-case hexadecimal digits. -/
def codePointEscape (c : Char) : String :=
  "\\u\x7b" ++ String.ofList (Nat.toDigits 16 c.toNat) ++ "\x7d"

/-- A character as it stands between single quotes. -/
def escapeQuoted (c : Char) : String :=
  if c = '\x00' then "\\0"
  else if c = '\t' then "\\t"
  else if c = '\n' then "\\n"
  else if c = '\r' then "\\r"
  else if c = '\'' then "\\'"
  else if c = '\\' then "\\\\"
  else if isVisible c then c.toString
  else codePointEscape c

def quoted (c : Char) : String := "'" ++ escapeQuoted c ++ "'"

end Text

end Schematron
