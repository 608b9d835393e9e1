/-!
# Assertion messages

A message is literal text with values interpolated: a value part names a
location path whose value is printed there. Adjacent texts are one part, and an
empty text is none, so a message has one representation for each sequence of
texts and values that reads alike.
-/

namespace Schematron

inductive MessagePart where
  /-- Literal text. -/
  | text (content : String)
  /-- The value of a location path. -/
  | valueOf (select : String)
  deriving DecidableEq, Repr

structure Message where
  parts : List MessagePart
  deriving DecidableEq, Repr, Inhabited

namespace Message

def empty : Message := ⟨[]⟩

/-- The parts with a text behind them, which joins a text that is there already. -/
def appendText (content : String) : List MessagePart → List MessagePart
  | [] => [.text content]
  | [.text before] => [.text (before ++ content)]
  | part :: rest => part :: appendText content rest

def text (m : Message) (content : String) : Message :=
  if content = "" then m else ⟨appendText content m.parts⟩

def valueOf (m : Message) (select : String) : Message := ⟨m.parts ++ [.valueOf select]⟩

/-- The message continued by a part as it is given, which may be an empty text. -/
def add (m : Message) : MessagePart → Message
  | .text content => m.text content
  | .valueOf select => m.valueOf select

def ofParts (parts : List MessagePart) : Message := parts.foldl add empty

def ofString (content : String) : Message := empty.text content

def hasValueOf (m : Message) : Bool :=
  m.parts.any fun
    | .valueOf _ => true
    | .text _ => false

end Message

/-- A part as it is displayed: a value stands in braces. -/
def MessagePart.display : MessagePart → String
  | .text content => content
  | .valueOf select => "\x7b" ++ select ++ "\x7d"

def Message.display (m : Message) : String := String.join (m.parts.map MessagePart.display)

namespace Message

theorem join_display_appendText (content : String) (parts : List MessagePart) :
    String.join ((appendText content parts).map MessagePart.display) =
      String.join (parts.map MessagePart.display) ++ content := by
  fun_induction appendText content parts with
  | case1 => simp [MessagePart.display]
  | case2 before => simp [MessagePart.display]
  | case3 part rest _ ih => simp [ih, String.append_assoc]

@[simp] theorem display_text (m : Message) (content : String) :
    (m.text content).display = m.display ++ content := by
  unfold text
  split
  · next h => simp [h]
  · exact join_display_appendText content m.parts

/-- A value is displayed in braces behind what is there already. -/
@[simp] theorem display_valueOf (m : Message) (select : String) :
    (m.valueOf select).display = m.display ++ (MessagePart.valueOf select).display := by
  simp [display, valueOf]

end Message

end Schematron
