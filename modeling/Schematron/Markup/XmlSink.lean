import Schematron.Markup.Layout
import Schematron.Markup.Sink
import Schematron.OutputOptions

/-!
# Writing XML

The sink that writes namespaced XML into a buffer. A start tag is held back until
it is known whether its element has content, because an element without content
is written as one empty-element tag. The outermost element declares the
namespace.
-/

namespace Schematron

/-- The state of writing a document. -/
structure XmlSink where
  buffer : Buffer
  layout : Layout
  nsPrefix : String
  namespaceUri : String
  /-- The qualified names of the open elements, the innermost first. -/
  openNames : List String
  /-- The start tag that is held back. -/
  pending : Option Tag
  deriving DecidableEq, Repr

namespace XmlSink

/-- Writes a token. The layout changes although the buffer refuses the token. -/
def put (s : XmlSink) (token : Token) : Outcome × XmlSink :=
  let (markup, layout) := s.layout.place token
  let (outcome, buffer) := s.buffer.append markup
  (outcome, { s with buffer, layout })

/-- The sink of a document that starts in a buffer, with the declaration written if there is to
be one. Unusable options are refused before anything is written. -/
def start (o : OutputOptions) (buffer : Buffer) : Except OutputError XmlSink := do
  o.validate
  let s : XmlSink :=
    { buffer
      layout := .start o.indent o.indentChar
      nsPrefix := o.nsPrefix
      namespaceUri := o.namespaceUri
      openNames := []
      pending := none }
  if o.xmlDeclaration then
    let (outcome, s) := s.put .declaration
    outcome
    return s
  else return s

def depth (s : XmlSink) : Nat := s.openNames.length

/-- Ends the document, with a line break if lines are broken, and gives back the buffer. -/
def finish (s : XmlSink) : Outcome × Buffer :=
  match s.openNames with
  | name :: _ => (.error (.unclosedElement name), s.buffer)
  | [] => if s.layout.isPretty then s.buffer.append "\n" else (.ok (), s.buffer)

def qualified (s : XmlSink) (name : String) : String := s.nsPrefix ++ ":" ++ name

/-- The tag of an element. Outside of every element it declares the namespace. -/
def tag (s : XmlSink) (name : String) (attributes : List Attribute) : Tag :=
  let binding := if s.openNames.isEmpty then [("xmlns:" ++ s.nsPrefix, s.namespaceUri)] else []
  ⟨s.qualified name, binding ++ attributes⟩

/-- Writes the start tag that is held back, if there is one. -/
def flush (s : XmlSink) : Outcome × XmlSink :=
  match s.pending with
  | none => (.ok (), s)
  | some tag => { s with pending := none }.put (.startTag tag)

/-- Opens an element; its start tag is held back. -/
def startElement (name : String) (attributes : List Attribute) (s : XmlSink) :
    Outcome × XmlSink :=
  match s.flush with
  | (.ok (), s) =>
    (.ok (),
      { s with
        openNames := s.qualified name :: s.openNames
        pending := some (s.tag name attributes) })
  | failed => failed

/-- Closes the innermost element: by an end tag, or as an empty element if its start tag is
still held back. -/
def endElement (s : XmlSink) : Outcome × XmlSink :=
  match s.openNames with
  | [] => (.error .noOpenElement, s)
  | name :: rest =>
    match s.pending with
    | some tag => { s with openNames := rest, pending := none }.put (.emptyTag tag)
    | none => { s with openNames := rest }.put (.endTag name)

def emptyElement (name : String) (attributes : List Attribute) (s : XmlSink) :
    Outcome × XmlSink :=
  match s.flush with
  | (.ok (), s) => s.put (.emptyTag (s.tag name attributes))
  | failed => failed

/-- Writes text. An empty text is nothing at all, so the element may still be an empty one. -/
def text (content : String) (s : XmlSink) : Outcome × XmlSink :=
  if content = "" then (.ok (), s)
  else
    match s.flush with
    | (.ok (), s) => s.put (.text content)
    | failed => failed

/-- Only an element that is open can be closed. -/
theorem endElement_of_openNames_eq_nil {s : XmlSink} (h : s.openNames = []) :
    s.endElement = (.error .noOpenElement, s) := by
  unfold endElement
  split <;> simp_all

@[simp] theorem text_empty (s : XmlSink) : text "" s = (.ok (), s) := rfl

instance : Sink XmlSink where
  startElement := startElement
  endElement := endElement
  emptyElement := emptyElement
  text := text

end XmlSink

end Schematron
