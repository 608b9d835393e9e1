import Schematron.Markup.Sink

/-!
# Recorded calls

A sink that writes nothing and keeps the calls it receives. It can be told to
fail at some of them, which are kept all the same.
-/

namespace Schematron

/-- The calls so far and the numbers, from one, of the calls that fail. -/
structure Recorder where
  calls : Array SinkCall
  failing : List Nat
  deriving DecidableEq, Repr

namespace Recorder

def start (failing : List Nat) : Recorder := ⟨#[], failing⟩

/-- Keeps a call and fails if it is one of those that do. -/
def record (call : SinkCall) (r : Recorder) : Outcome × Recorder :=
  let r := { r with calls := r.calls.push call }
  let number := r.calls.size
  (if r.failing.contains number then .error (.invalidConfig ("call " ++ toString number))
    else .ok (), r)

instance : Sink Recorder where
  startElement name attributes := record (.startElement name attributes)
  endElement := record .endElement
  emptyElement name attributes := record (.emptyElement name attributes)
  text content := record (.text content)

end Recorder

end Schematron
