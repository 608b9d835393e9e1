import Schematron.OutputError

/-!
# Output buffers

The destination of written text, which may have room for a number of bytes only.
Text beyond that is refused, after as much of it as there is room for has been
taken. A character that is taken in part shows as a replacement character.
-/

namespace Schematron

/-- The outcome of a step that may fail and has no other result. -/
abbrev Outcome := Except OutputError Unit

/-- The written text and the room for more. -/
structure Buffer where
  text : String
  /-- The number of bytes that are still accepted, if there is a bound. -/
  room : Option Nat
  deriving DecidableEq, Repr

namespace Buffer

/-- An empty buffer that accepts any text. -/
def unbounded : Buffer := ⟨"", none⟩

/-- An empty buffer that accepts a number of bytes. -/
def bounded (bytes : Nat) : Buffer := ⟨"", some bytes⟩

/-- The characters of which a number of bytes has room for all or some of the encoding. -/
def takeBytes : Nat → List Char → List Char
  | _, [] => []
  | 0, _ :: _ => []
  | room + 1, c :: rest =>
    if c.utf8Size ≤ room + 1 then c :: takeBytes (room + 1 - c.utf8Size) rest else ['\uFFFD']

/-- The buffer with more text, or with as much of it as there is room for. -/
def append (b : Buffer) (more : String) : Outcome × Buffer :=
  match b.room with
  | none => (.ok (), { b with text := b.text ++ more })
  | some room =>
    if more.utf8ByteSize ≤ room then
      (.ok (), ⟨b.text ++ more, some (room - more.utf8ByteSize)⟩)
    else
      (.error (.io "closed"), ⟨b.text ++ String.ofList (takeBytes room more.toList), some 0⟩)

@[simp] theorem append_of_room_eq_none {b : Buffer} (h : b.room = none) (more : String) :
    b.append more = (.ok (), { b with text := b.text ++ more }) := by
  simp [append, h]

end Buffer

end Schematron
