import Schematron.Proofs.Markup.Printing

/-!
# Places in an element tree

A place is where a node of a document stands: the nodes before and behind it, and
the elements around it. `OutputOptions.print_fill` cuts the text of a document at a
place, into what comes before, the blanks, the node itself and what comes behind.
-/

namespace Schematron

/-- The text of an element with the text between its two tags, or as one empty tag. -/
def Tag.around (tag : Tag) : Option String → String
  | none => "<" ++ tag.markup ++ "/>"
  | some inner => "<" ++ tag.markup ++ ">" ++ inner ++ "</" ++ tag.name ++ ">"

namespace Xml

/-- What stands between the tags of an element at a depth. An element without children has only
one tag. -/
def between (o : OutputOptions) (depth : Nat) : List Xml → Option String
  | [] => none
  | child :: rest => some (printAll o (depth + 1) true (child :: rest) ++
      o.lead depth (breaksAfter true (child :: rest)))

section

variable {o : OutputOptions} {depth : Nat} {breaks : Bool}

theorem print_element (name : String) (attributes : List Attribute) (children : List Xml) :
    (element name attributes children).print o depth breaks =
      o.lead depth breaks ++ (o.tag depth name attributes).around (between o depth children) := by
  cases children with
  | nil => simp [print, between, Tag.around, String.append_assoc]
  | cons child rest => simp [print, between, Tag.around, String.append_assoc]

theorem between_of_ne_nil {children : List Xml} (some_child : children ≠ []) :
    between o depth children =
      some (printAll o (depth + 1) true children ++ o.lead depth (breaksAfter true children)) := by
  cases children with
  | nil => exact absurd rfl some_child
  | cons child rest => rfl

theorem printAll_append (first second : List Xml) :
    printAll o depth breaks (first ++ second) =
      printAll o depth breaks first ++ printAll o depth (breaksAfter breaks first) second := by
  induction first generalizing breaks with
  | nil => simp [printAll]
  | cons node rest ih =>
      rw [List.cons_append, printAll, ih, printAll, breaksAfter_cons, String.append_assoc]

end

/-- A place among nodes: next to them, or inside of an element that stands next to them. -/
inductive Place where
  | among (before after : List Xml)
  | inside (before : List Xml) (name : String) (attributes : List Attribute) (inner : Place)
    (after : List Xml)

namespace Place

/-- The nodes with another one at the place. -/
def fill (node : Xml) : Place → List Xml
  | among before after => before ++ node :: after
  | inside before name attributes inner after =>
    before ++ .element name attributes (inner.fill node) :: after

def depth : Place → Nat
  | among _ _ => 0
  | inside _ _ _ inner _ => inner.depth + 1

/-- Whether a tag at the place starts a line. -/
def breaks (first : Bool) : Place → Bool
  | among before _ => breaksAfter first before
  | inside _ _ _ inner _ => inner.breaks true

def front (o : OutputOptions) (depth : Nat) (first : Bool) : Place → String
  | among before _ => printAll o depth first before
  | inside before name attributes inner _ =>
    printAll o depth first before ++ o.lead depth (breaksAfter first before) ++
      "<" ++ (o.tag depth name attributes).markup ++ ">" ++ inner.front o (depth + 1) true

/-- The text behind a node at the place. -/
def back (o : OutputOptions) (depth : Nat) (node : Xml) : Place → String
  | among _ after => printAll o depth (!node.isText) after
  | inside _ name attributes inner after =>
    inner.back o (depth + 1) node ++ o.lead depth (breaksAfter true (inner.fill node)) ++
      "</" ++ (o.tag depth name attributes).name ++ ">" ++ printAll o depth true after

theorem fill_ne_nil (place : Place) (node : Xml) : place.fill node ≠ [] := by
  cases place <;> simp [fill]

/-- The text of nodes is cut at a place. -/
theorem printAll_fill (o : OutputOptions) (place : Place) (node : Xml) (first : Bool)
    (depth : Nat) : printAll o depth first (place.fill node) =
      place.front o depth first ++ node.print o (depth + place.depth) (place.breaks first) ++
        place.back o depth node := by
  induction place generalizing depth first with
  | among before after =>
      rw [fill, printAll_append, printAll, front, back, breaks, Place.depth, Nat.add_zero,
        String.append_assoc]
  | inside before name attributes inner after ih =>
      have deeper : depth + 1 + inner.depth = depth + (inner.depth + 1) := by omega
      rw [fill, printAll_append, printAll, print_element,
        between_of_ne_nil (inner.fill_ne_nil node), Tag.around, ih, front, back, breaks,
        Place.depth, deeper]
      simp [isText, String.append_assoc]

end Place

end Xml

namespace OutputOptions

/-- The document around a text that stands for a node at a place, and behind its blanks. -/
def surround (o : OutputOptions) (place : Xml.Place) (node : Xml) (text : String) : String :=
  o.declaration ++ place.front o 0 o.xmlDeclaration ++
    o.lead place.depth (place.breaks o.xmlDeclaration) ++ text ++ place.back o 0 node ++ o.ending

/-- The text of an element at a place stands there in the text of the document. -/
theorem print_fill (o : OutputOptions) (place : Xml.Place) (name : String)
    (attributes : List Attribute) (children : List Xml) :
    o.print (place.fill (.element name attributes children)) =
      o.surround place (.element name attributes children)
        ((o.tag place.depth name attributes).around (Xml.between o place.depth children)) := by
  rw [print, place.printAll_fill, Xml.print_element, surround, Nat.zero_add]
  simp only [String.append_assoc]

end OutputOptions

end Schematron
