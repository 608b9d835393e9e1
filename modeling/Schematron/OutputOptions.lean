import Schematron.OutputError
import Schematron.Text.Blank
import Schematron.Text.Quoted

/-!
# Output options

How a document is written: its indentation, whether an XML declaration stands in
front, and the namespace of its elements. `validate` refuses options with which
the element names or the indentation would not be markup.
-/

namespace Schematron

structure OutputOptions where
  /-- The width of one level of indentation; with none, everything is on one line. -/
  indent : Nat
  /-- The character that indents. -/
  indentChar : Char
  /-- Whether an XML declaration stands before the root element. -/
  xmlDeclaration : Bool
  /-- The namespace prefix of every element. -/
  nsPrefix : String
  /-- The namespace that the prefix is bound to on the root element. -/
  namespaceUri : String
  deriving DecidableEq, Repr

namespace OutputOptions

/-- The conventional prefix, an XML declaration, and levels of two spaces. -/
def standard : OutputOptions where
  indent := 2
  indentChar := ' '
  xmlDeclaration := true
  nsPrefix := "sch"
  namespaceUri := "http://purl.oclc.org/dsdl/schematron"

/-- Everything on one line, without an XML declaration. -/
def compact : OutputOptions := { standard with indent := 0, xmlDeclaration := false }

/-- A change of one of the options. -/
inductive Setting where
  | indent (width : Nat)
  | indentChar (c : Char)
  | xmlDeclaration (enabled : Bool)
  | nsPrefix (name : String)
  | namespaceUri (uri : String)
  deriving DecidableEq, Repr

def set (o : OutputOptions) : Setting → OutputOptions
  | .indent width => { o with indent := width }
  | .indentChar c => { o with indentChar := c }
  | .xmlDeclaration enabled => { o with xmlDeclaration := enabled }
  | .nsPrefix name => { o with nsPrefix := name }
  | .namespaceUri uri => { o with namespaceUri := uri }

/-- Whether a prefix can stand before the colon of an element name. -/
def isPrefixName (s : String) : Bool := s.toList.all fun c => c ≠ ':' && !Text.isBlank c

/-- Refuses unusable options. The prefix is checked before the indentation character, which
has to be usable even if nothing is indented. -/
def validate (o : OutputOptions) : Except OutputError Unit :=
  if o.nsPrefix = "" then .error (.invalidConfig "namespace prefix must not be empty")
  else if !isPrefixName o.nsPrefix then
    .error (.invalidConfig ("namespace prefix '" ++ o.nsPrefix ++ "' is not an XML name"))
  else if o.indentChar ≠ ' ' ∧ o.indentChar ≠ '\t' then
    .error (.invalidConfig
      ("indent character " ++ Text.quoted o.indentChar ++ " must be a space or a tab"))
  else .ok ()

end OutputOptions

end Schematron
