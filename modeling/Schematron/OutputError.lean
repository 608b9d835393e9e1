import Schematron.Tree.Basic

/-!
# Errors of writing a document
-/

namespace Schematron

inductive OutputError where
  /-- The options cannot be used. -/
  | invalidConfig (reason : String)
  /-- An element was closed when none was open. -/
  | noOpenElement
  /-- The document ended inside the element of this qualified name. -/
  | unclosedElement (name : String)
  /-- The file of this path was not written. -/
  | writeError (path reason : String)
  /-- The constraints do not form rules. -/
  | constraint (error : TreeError)
  /-- The destination takes no more text. -/
  | io (reason : String)
  deriving DecidableEq, Repr

namespace OutputError

def message : OutputError → String
  | invalidConfig reason => "Invalid output configuration: " ++ reason
  | noOpenElement => "No open element to close"
  | unclosedElement name => "Element '" ++ name ++ "' was never closed"
  | writeError path reason => "Failed to write '" ++ path ++ "': " ++ reason
  | constraint error => "Constraint error: " ++ error.message
  | io reason => "I/O error: " ++ reason

end OutputError

end Schematron
