import Schematron.Markup.Escape

/-!
# Markup tokens

The units in which markup is written: the declaration, tags and texts. Names and
attribute keys are written as they are given, values and texts escaped.
-/

namespace Schematron

abbrev Attribute := String × String

/-- The content of a start tag or of an empty-element tag. -/
structure Tag where
  /-- The qualified name. -/
  name : String
  attributes : List Attribute
  deriving DecidableEq, Repr

/-- A unit of markup. -/
inductive Token where
  | declaration
  | startTag (tag : Tag)
  | endTag (name : String)
  | emptyTag (tag : Tag)
  | text (content : String)
  deriving DecidableEq, Repr

/-- An attribute as it is written, with the space before it. -/
def Attribute.markup (a : Attribute) : String :=
  " " ++ a.1 ++ "=\"" ++ Markup.escapeValue a.2 ++ "\""

def Tag.markup (t : Tag) : String := t.name ++ String.join (t.attributes.map Attribute.markup)

def Token.markup : Token → String
  | .declaration => "<?xml version=\"1.0\" encoding=\"UTF-8\"?>"
  | .startTag tag => "<" ++ tag.markup ++ ">"
  | .endTag name => "</" ++ name ++ ">"
  | .emptyTag tag => "<" ++ tag.markup ++ "/>"
  | .text content => Markup.escapeText content

end Schematron
