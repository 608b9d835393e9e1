import Schematron.Markup.Basic
import Schematron.Message
import Schematron.Tree.Rules

/-!
# Documents

The elements of a schema: namespace bindings, paragraphs, and patterns with
their rules. Attributes that are not set are left out, and content is written in
the order in which it was added.

A pattern also holds scopes of constraints. Their tree belongs to the pattern,
and each scope is written as the rules it denests into, in the place where the
scope was opened.
-/

namespace Schematron

/-- The attributes of the values that are set. -/
def presentAttributes (pairs : List (String × Option String)) : List Attribute :=
  pairs.filterMap fun pair => pair.2.map fun value => (pair.1, value)

namespace MessagePart

/-- A part of a message: text, or an element that names a value. -/
def toMarkup : MessagePart → Markup
  | text content => .text content
  | valueOf select => .empty "value-of" [("select", select)]

end MessagePart

namespace Message

def toMarkup (m : Message) : List Markup := m.parts.map MessagePart.toMarkup

end Message

namespace Assertion

def toMarkup (a : Assertion) : Markup := .element "assert" [("test", a.test)] a.message.toMarkup

end Assertion

namespace RuleRecord

def toMarkup (r : RuleRecord) : Markup :=
  .element "rule" [("context", r.path)] (r.assertions.map Assertion.toMarkup)

end RuleRecord

/-- A prefix for the location paths of a schema. -/
structure NamespaceBinding where
  nsPrefix : Option String
  uri : Option String
  deriving DecidableEq, Repr

namespace NamespaceBinding

def toMarkup (n : NamespaceBinding) : Markup :=
  .empty "ns" (presentAttributes [("prefix", n.nsPrefix), ("uri", n.uri)])

end NamespaceBinding

structure Paragraph where
  message : Option String
  deriving DecidableEq, Repr

namespace Paragraph

def toMarkup (p : Paragraph) : Markup := .element "p" [] (p.message.toList.map Markup.text)

end Paragraph

/-- A hand-written assertion. -/
structure Assert where
  test : Option String
  message : Option Message
  deriving DecidableEq, Repr

namespace Assert

def toMarkup (a : Assert) : Markup :=
  .element "assert" (presentAttributes [("test", a.test)])
    (match a.message with
      | some m => m.toMarkup
      | none => [])

end Assert

/-- A hand-written rule. -/
structure Rule where
  id : Option String
  context : Option String
  asserts : List Assert
  deriving DecidableEq, Repr

namespace Rule

def toMarkup (r : Rule) : Markup :=
  .element "rule" (presentAttributes [("id", r.id), ("context", r.context)])
    (r.asserts.map Assert.toMarkup)

end Rule

inductive PatternItem where
  | paragraph (p : Paragraph)
  | rule (r : Rule)
  /-- The root of a scope in the pattern's tree. -/
  | scope (root : NodeId)
  deriving DecidableEq, Repr

structure Pattern where
  id : Option String
  name : Option String
  items : List PatternItem
  /-- The tree of all scopes of the pattern. -/
  constraints : Tree
  deriving DecidableEq, Repr

namespace Pattern

def empty (tag : UInt32) : Pattern := ⟨none, none, [], .empty tag⟩

def withId (p : Pattern) (id : String) : Pattern := { p with id := some id }

def withName (p : Pattern) (name : String) : Pattern := { p with name := some name }

def withParagraph (p : Pattern) (paragraph : Paragraph) : Pattern :=
  { p with items := p.items ++ [.paragraph paragraph] }

def withRule (p : Pattern) (rule : Rule) : Pattern := { p with items := p.items ++ [.rule rule] }

/-- Opens a scope of constraints behind the items so far. -/
def addScope (p : Pattern) (context : String) : Except TreeError (NodeId × Pattern) := do
  let (id, constraints) ← p.constraints.addScope context
  return (id, { p with items := p.items ++ [.scope id], constraints })

/-- Declares a constraint below another one of the pattern. -/
def addChild (p : Pattern) (parent : NodeId) (context : String) (kind : Kind) :
    Except TreeError (NodeId × Pattern) := do
  let (id, constraints) ← p.constraints.addChild parent context kind
  return (id, { p with constraints })

def setValues (p : Pattern) (id : NodeId) (values : ValueSet) : Except TreeError Pattern :=
  (p.constraints.setValues id values).map fun constraints => { p with constraints }

def setRange (p : Pattern) (id : NodeId) (range : NumericRange) : Except TreeError Pattern :=
  (p.constraints.setRange id range).map fun constraints => { p with constraints }

end Pattern

namespace PatternItem

/-- An item of a pattern with the given tree. A scope that the tree does not know stops the
writing. -/
def toMarkup (constraints : Tree) : PatternItem → List Markup
  | paragraph p => [p.toMarkup]
  | rule r => [r.toMarkup]
  | scope root =>
    match constraints.rulesFrom root with
    | .ok records => records.map RuleRecord.toMarkup
    | .error e => [.fail (.constraint e)]

end PatternItem

namespace Pattern

def toMarkup (p : Pattern) : Markup :=
  .element "pattern" (presentAttributes [("id", p.id), ("name", p.name)])
    (p.items.flatMap (PatternItem.toMarkup p.constraints))

end Pattern

inductive SchemaItem where
  | binding (n : NamespaceBinding)
  | paragraph (p : Paragraph)
  | pattern (p : Pattern)
  deriving DecidableEq, Repr

namespace SchemaItem

def toMarkup : SchemaItem → Markup
  | binding n => n.toMarkup
  | paragraph p => p.toMarkup
  | pattern p => p.toMarkup

def pattern? : SchemaItem → Option Pattern
  | pattern p => some p
  | _ => none

end SchemaItem

structure Schema where
  id : Option String
  title : Option String
  items : List SchemaItem
  deriving DecidableEq, Repr

namespace Schema

def patterns (s : Schema) : List Pattern := s.items.filterMap SchemaItem.pattern?

def toMarkup (s : Schema) : Markup :=
  .element "schema" (presentAttributes [("id", s.id), ("title", s.title)])
    (s.items.map SchemaItem.toMarkup)

end Schema

/-- Everything that can be written as a document of its own. -/
inductive Document where
  | schema (s : Schema)
  | binding (n : NamespaceBinding)
  | paragraph (p : Paragraph)
  | pattern (p : Pattern)
  | rule (r : Rule)
  | assert (a : Assert)
  | assertion (a : Assertion)
  | record (r : RuleRecord)
  /-- A message with no element around it. -/
  | message (m : Message)
  deriving DecidableEq, Repr

namespace Document

def toMarkup : Document → List Markup
  | schema s => [s.toMarkup]
  | binding n => [n.toMarkup]
  | paragraph p => [p.toMarkup]
  | pattern p => [p.toMarkup]
  | rule r => [r.toMarkup]
  | assert a => [a.toMarkup]
  | assertion a => [a.toMarkup]
  | record r => [r.toMarkup]
  | message m => m.toMarkup

def toXml (o : OutputOptions) (d : Document) : Except OutputError String :=
  Markup.render o d.toMarkup

end Document

end Schematron
