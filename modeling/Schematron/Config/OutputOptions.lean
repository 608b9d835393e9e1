import Schematron.Config.Record
import Schematron.OutputOptions

/-!
# Output options in configuration

The options are a record. The width of the indentation is a machine word, and
the indentation character a text of one character.
-/

namespace Schematron

namespace Config

/-- A natural number below `2 ^ 64`, written as an integer. -/
def readWord : Json → Option Nat
  | .integer n => if 0 ≤ n && n < (UInt64.size : Int) then some n.toNat else none
  | _ => none

def readChar (j : Json) : Option Char := do
  match (← readText j).toList with
  | [c] => return c
  | _ => none

end Config

namespace OutputOptions

def fields : List (Config.Field OutputOptions) :=
  [{ name := "indent"
     aliases := []
     set := fun j o => (Config.readWord j).map fun n => { o with indent := n }
     get := fun o => .ofNat o.indent },
   { name := "indent_char"
     aliases := []
     set := fun j o => (Config.readChar j).map fun c => { o with indentChar := c }
     get := fun o => .ofString o.indentChar.toString },
   { name := "xml_declaration"
     aliases := []
     set := fun j o => (Config.readBool j).map fun b => { o with xmlDeclaration := b }
     get := fun o => .bool o.xmlDeclaration },
   { name := "prefix"
     aliases := []
     set := fun j o => (Config.readText j).map fun s => { o with nsPrefix := s }
     get := fun o => .ofString o.nsPrefix },
   { name := "namespace_uri"
     aliases := []
     set := fun j o => (Config.readText j).map fun s => { o with namespaceUri := s }
     get := fun o => .ofString o.namespaceUri }]

def ofJson? (j : Json) : Option OutputOptions := Config.readRecord fields standard j

def toJson (o : OutputOptions) : Json := .ofMembers (Config.writeRecord fields o)

end OutputOptions

end Schematron
