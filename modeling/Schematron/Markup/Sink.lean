import Schematron.Markup.Buffer
import Schematron.Markup.Token

/-!
# Sinks

A sink receives a document as a stream of calls, each of which may fail and
changes the sink even then. Element names come without a namespace; qualifying
them is up to the sink.

`Sink.element` brackets a body with the two tags of its element. The element is
closed although the body has failed, and the error of the body is the one that
counts.
-/

namespace Schematron

/-- What can be done with a sink of type `σ`. -/
class Sink (σ : Type) where
  /-- Opens an element. -/
  startElement : String → List Attribute → σ → Outcome × σ
  /-- Closes the innermost open element. -/
  endElement : σ → Outcome × σ
  /-- Writes an element without content. -/
  emptyElement : String → List Attribute → σ → Outcome × σ
  /-- Writes text into the innermost open element. -/
  text : String → σ → Outcome × σ

/-- A call of a sink. -/
inductive SinkCall where
  | startElement (name : String) (attributes : List Attribute)
  | endElement
  | emptyElement (name : String) (attributes : List Attribute)
  | text (content : String)
  deriving DecidableEq, Repr

namespace SinkCall

def send {σ : Type} [Sink σ] : SinkCall → σ → Outcome × σ
  | startElement name attributes => Sink.startElement name attributes
  | endElement => Sink.endElement
  | emptyElement name attributes => Sink.emptyElement name attributes
  | text content => Sink.text content

end SinkCall

namespace Sink

variable {σ : Type}

/-- The first of two outcomes that is an error. -/
def firstError : Outcome → Outcome → Outcome
  | .error e, _ => .error e
  | .ok (), second => second

/-- A step followed by another one, which is left out if the first fails. -/
def andThen (first second : σ → Outcome × σ) (s : σ) : Outcome × σ :=
  match first s with
  | (.ok (), s) => second s
  | failed => failed

/-- Writes an element with the content that a body writes. -/
def element [Sink σ] (name : String) (attributes : List Attribute) (body : σ → Outcome × σ)
    (s : σ) : Outcome × σ :=
  match startElement name attributes s with
  | (.error e, s) => (.error e, s)
  | (.ok (), s) =>
    let (outcome, s) := body s
    let (closed, s) := endElement s
    (firstError outcome closed, s)

end Sink

end Schematron
