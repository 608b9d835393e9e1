/-!
# Escaped characters

The characters that cannot stand for themselves in markup, and the references
that are written for them. Text needs three of them; an attribute value needs
the two quotes as well. Nothing else is escaped, blanks and control characters
included.
-/

namespace Schematron

namespace Markup

def escapeTextChar (c : Char) : List Char :=
  if c = '<' then ['&', 'l', 't', ';']
  else if c = '>' then ['&', 'g', 't', ';']
  else if c = '&' then ['&', 'a', 'm', 'p', ';']
  else [c]

def escapeValueChar (c : Char) : List Char :=
  if c = '\'' then ['&', 'a', 'p', 'o', 's', ';']
  else if c = '"' then ['&', 'q', 'u', 'o', 't', ';']
  else escapeTextChar c

def escapeText (s : String) : String := String.ofList (s.toList.flatMap escapeTextChar)

/-- An attribute value as it is written between its quotes. -/
def escapeValue (s : String) : String := String.ofList (s.toList.flatMap escapeValueChar)

end Markup

end Schematron
