import Schematron.Markup.Token

/-!
# Line breaks and indentation

With indentation every tag starts a line of its own, unless it comes first or
right behind a text; a text is never moved, because a blank next to it would
belong to it. A start tag indents what follows by one level, and an end tag
takes that level back before it is placed.
-/

namespace Schematron

/-- The state of line breaking between two tokens. -/
structure Layout where
  /-- The number of characters of one level; with none, there are no line breaks. -/
  width : Nat
  /-- The character that indents. -/
  filler : Char
  /-- The number of characters before the next tag of a line. -/
  level : Nat
  /-- Whether the next tag starts a line. -/
  breaks : Bool
  deriving DecidableEq, Repr

namespace Layout

def start (width : Nat) (filler : Char) : Layout := ⟨width, filler, 0, false⟩

/-- Whether lines are broken at all. -/
def isPretty (l : Layout) : Bool := l.width ≠ 0

/-- The blanks before a tag: a line break and the indentation, if the tag starts a line. -/
def lead (l : Layout) : String :=
  if l.isPretty && l.breaks then "\n" ++ String.ofList (List.replicate l.level l.filler) else ""

/-- The layout in which a token is placed: an end tag stands one level up. -/
def before (l : Layout) : Token → Layout
  | .endTag _ => { l with level := l.level - l.width }
  | _ => l

def after (l : Layout) : Token → Layout
  | .startTag _ => { l with level := l.level + l.width, breaks := true }
  | .text _ => { l with breaks := false }
  | _ => { l with breaks := true }

/-- A token with the blanks before it, and the layout behind it. -/
def place (l : Layout) (token : Token) : String × Layout :=
  let here := l.before token
  let lead := match token with
    | .text _ => ""
    | _ => here.lead
  (lead ++ token.markup, here.after token)

end Layout

end Schematron
