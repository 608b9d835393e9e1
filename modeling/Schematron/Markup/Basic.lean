import Schematron.Markup.XmlSink

/-!
# Markup

The content of a document as a tree: elements with their content, elements that
are empty by nature, and texts. A tree may also say that writing stops at a
place with an error. `Markup.write` streams a tree into any sink, and
`Markup.render` gives the XML text of a document.
-/

namespace Schematron

inductive Markup where
  | element (name : String) (attributes : List Attribute) (content : List Markup)
  | empty (name : String) (attributes : List Attribute)
  | text (content : String)
  | fail (error : OutputError)

namespace Markup

variable {σ : Type}

mutual

/-- Streams a piece of a document into a sink. -/
def write [Sink σ] : Markup → σ → Outcome × σ
  | .element name attributes content => Sink.element name attributes (writeAll content)
  | .empty name attributes => Sink.emptyElement name attributes
  | .text content => Sink.text content
  | .fail error => fun s => (.error error, s)

/-- Streams pieces into a sink, one after the other, up to the first that fails. -/
def writeAll [Sink σ] : List Markup → σ → Outcome × σ
  | [] => fun s => (.ok (), s)
  | piece :: rest => Sink.andThen piece.write (writeAll rest)

end

/-- Writes a document into a buffer, with the outcome and the buffer as it is left. -/
def writeTo (o : OutputOptions) (content : List Markup) (buffer : Buffer) : Outcome × Buffer :=
  match XmlSink.start o buffer with
  | .error e => (.error e, buffer)
  | .ok s =>
    match writeAll content s with
    | (.ok (), s) => s.finish
    | (.error e, s) => (.error e, s.buffer)

def render (o : OutputOptions) (content : List Markup) : Except OutputError String :=
  match writeTo o content .unbounded with
  | (.ok (), buffer) => .ok buffer.text
  | (.error e, _) => .error e

end Markup

end Schematron
