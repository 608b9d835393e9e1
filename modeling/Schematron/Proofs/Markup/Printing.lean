import Schematron.Proofs.Markup.Xml

/-!
# Printing element trees directly

The sink that writes a document keeps open elements, a start tag that is held
back and a state of line breaking. `Xml.print` has none of these. It goes down the
tree and knows at each node how deep it is and whether the next tag starts a line;
that an element is empty it sees from the list of its children.

`OutputOptions.typeset_tokensAll` says that both give the same text. The lemma for
it, `Xml.placeAll_tokens`, takes a node through the line breaking: what the layout
counts as indentation is the depth of the recursion.
-/

namespace Schematron

namespace OutputOptions

/-- What stands before a tag at a depth: a new line with as many levels of indentation, if the tag
starts one and lines are broken. -/
def lead (o : OutputOptions) (depth : Nat) (breaks : Bool) : String :=
  if breaks = true ∧ 0 < o.indent then
    "\n" ++ String.ofList (List.replicate (depth * o.indent) o.indentChar)
  else ""

/-- The tag of an element at a depth. Outside of every element it declares the namespace. -/
def tag (o : OutputOptions) (depth : Nat) (name : String) (attributes : List Attribute) : Tag :=
  ⟨o.nsPrefix ++ ":" ++ name, (if depth = 0 then o.binding else []) ++ attributes⟩

def layout (o : OutputOptions) (depth : Nat) (breaks : Bool) : Layout :=
  ⟨o.indent, o.indentChar, depth * o.indent, breaks⟩

end OutputOptions

namespace Xml

def isText : Xml → Bool
  | .text _ => true
  | .element _ _ _ => false

/-- Whether a tag behind some nodes starts a line: it does unless it follows a text. -/
def breaksAfter (breaks : Bool) (nodes : List Xml) : Bool :=
  match nodes.getLast? with
  | none => breaks
  | some last => !last.isText

mutual

/-- The text of a node at a depth, whose first tag starts a line or does not. Names are local. -/
def print (o : OutputOptions) (depth : Nat) (breaks : Bool) : Xml → String
  | .element name attributes [] =>
    o.lead depth breaks ++ "<" ++ (o.tag depth name attributes).markup ++ "/>"
  | .element name attributes (child :: rest) =>
    o.lead depth breaks ++ "<" ++ (o.tag depth name attributes).markup ++ ">" ++
      printAll o (depth + 1) true (child :: rest) ++
      o.lead depth (breaksAfter true (child :: rest)) ++
      "</" ++ (o.tag depth name attributes).name ++ ">"
  | .text content => Markup.escapeText content

def printAll (o : OutputOptions) (depth : Nat) (breaks : Bool) : List Xml → String
  | [] => ""
  | node :: rest => node.print o depth breaks ++ printAll o depth (!node.isText) rest

end

mutual

/-- The tokens of a node. The binding stands before the attributes of an element. -/
def tokens (nsPrefix : String) (binding : List Attribute) : Xml → List Token
  | .element name attributes children =>
    Markup.wrap ⟨nsPrefix ++ ":" ++ name, binding ++ attributes⟩ (tokensAll nsPrefix [] children)
  | .text content => [.text content]

def tokensAll (nsPrefix : String) (binding : List Attribute) : List Xml → List Token
  | [] => []
  | node :: rest => node.tokens nsPrefix binding ++ tokensAll nsPrefix binding rest

end

variable {nsPrefix : String} {binding : List Attribute}

@[simp] theorem breaksAfter_nil (breaks : Bool) : breaksAfter breaks [] = breaks := rfl

theorem breaksAfter_cons (breaks : Bool) (node : Xml) (rest : List Xml) :
    breaksAfter breaks (node :: rest) = breaksAfter (!node.isText) rest := by
  cases rest with
  | nil => rfl
  | cons next more =>
      rw [breaksAfter, List.getLast?_cons_cons, breaksAfter]
      rfl

theorem tokensAll_append (first second : List Xml) :
    tokensAll nsPrefix binding (first ++ second) =
      tokensAll nsPrefix binding first ++ tokensAll nsPrefix binding second := by
  induction first with
  | nil => rfl
  | cons node rest ih => rw [List.cons_append, tokensAll, ih, tokensAll, List.append_assoc]

theorem tokens_ne_nil (node : Xml) : node.tokens nsPrefix binding ≠ [] := by
  cases node with
  | element name attributes children =>
      rw [tokens, Markup.wrap]
      split <;> simp
  | text content => simp [tokens]

/-- Only where there are no nodes there are no tokens. -/
theorem tokensAll_eq_nil_iff {nodes : List Xml} :
    tokensAll nsPrefix binding nodes = [] ↔ nodes = [] := by
  cases nodes with
  | nil => simp [tokensAll]
  | cons node rest => simp [tokensAll, tokens_ne_nil]

end Xml

/-! ### The layout at a depth -/

namespace OutputOptions

variable (o : OutputOptions) (depth : Nat) (breaks : Bool)

theorem lead_layout : (o.layout depth breaks).lead = o.lead depth breaks := by
  rw [Layout.lead, lead, Layout.isPretty, layout]
  by_cases pretty : 0 < o.indent
  · cases breaks <;> simp [pretty, Nat.pos_iff_ne_zero.mp pretty]
  · simp [Nat.eq_zero_of_not_pos pretty]

theorem place_startTag (tag : Tag) :
    (o.layout depth breaks).place (.startTag tag) =
      (o.lead depth breaks ++ "<" ++ tag.markup ++ ">", o.layout (depth + 1) true) := by
  rw [← lead_layout]
  simp [Layout.place, Layout.before, Layout.after, Token.markup, layout, Nat.succ_mul,
    String.append_assoc]

theorem place_endTag (name : String) :
    (o.layout (depth + 1) breaks).place (.endTag name) =
      (o.lead depth breaks ++ "</" ++ name ++ ">", o.layout depth true) := by
  rw [← lead_layout]
  simp [Layout.place, Layout.before, Layout.after, Token.markup, layout, Nat.succ_mul,
    String.append_assoc]

theorem place_emptyTag (tag : Tag) :
    (o.layout depth breaks).place (.emptyTag tag) =
      (o.lead depth breaks ++ "<" ++ tag.markup ++ "/>", o.layout depth true) := by
  rw [← lead_layout]
  simp [Layout.place, Layout.before, Layout.after, Token.markup, layout, String.append_assoc]

theorem place_text (content : String) :
    (o.layout depth breaks).place (.text content) =
      (Markup.escapeText content, o.layout depth false) := by
  simp [Layout.place, Layout.before, Layout.after, Token.markup, layout]

end OutputOptions

namespace Xml

variable (o : OutputOptions)

mutual

/-- Placing the tokens of a node prints it, and a line can break behind it if it is no text. -/
theorem placeAll_tokens (node : Xml) (depth : Nat) (breaks : Bool) :
    (o.layout depth breaks).placeAll
        (node.tokens o.nsPrefix (if depth = 0 then o.binding else [])) =
      (node.print o depth breaks, o.layout depth (!node.isText)) := by
  cases node with
  | element name attributes children =>
      cases children with
      | nil =>
          rw [tokens, tokensAll, Markup.wrap, if_pos rfl, Layout.placeAll, Layout.placeAll,
            o.place_emptyTag, print]
          simp [isText, OutputOptions.tag]
      | cons child rest =>
          have inside := placeAll_tokensAll (child :: rest) (depth + 1) true
          rw [if_neg (Nat.succ_ne_zero depth)] at inside
          rw [tokens, Markup.wrap, if_neg (mt tokensAll_eq_nil_iff.mp (List.cons_ne_nil _ _)),
            List.cons_append, Layout.placeAll, o.place_startTag, Layout.placeAll_append, inside,
            Layout.placeAll, o.place_endTag, Layout.placeAll, print]
          simp [isText, OutputOptions.tag, String.append_assoc]
  | text content =>
      rw [tokens, Layout.placeAll, Layout.placeAll, o.place_text, print]
      simp [isText]

theorem placeAll_tokensAll (nodes : List Xml) (depth : Nat) (breaks : Bool) :
    (o.layout depth breaks).placeAll
        (tokensAll o.nsPrefix (if depth = 0 then o.binding else []) nodes) =
      (printAll o depth breaks nodes, o.layout depth (breaksAfter breaks nodes)) := by
  cases nodes with
  | nil => rfl
  | cons node rest =>
      rw [tokensAll, Layout.placeAll_append, placeAll_tokens node depth breaks,
        placeAll_tokensAll rest depth (!node.isText), printAll, breaksAfter_cons]

end

end Xml

namespace OutputOptions

/-- The XML declaration, if there is to be one. -/
def declaration (o : OutputOptions) : String :=
  if o.xmlDeclaration then "<?xml version=\"1.0\" encoding=\"UTF-8\"?>" else ""

/-- The line break at the end, if lines are broken. -/
def ending (o : OutputOptions) : String := if 0 < o.indent then "\n" else ""

/-- The text of a document of some nodes. A tag that comes first starts no line. -/
def print (o : OutputOptions) (nodes : List Xml) : String :=
  o.declaration ++ Xml.printAll o 0 o.xmlDeclaration nodes ++ o.ending

/-- The tokens of nodes are set as the nodes are printed. -/
theorem typeset_tokensAll (o : OutputOptions) (nodes : List Xml) :
    o.typeset (Xml.tokensAll o.nsPrefix o.binding nodes) = o.print nodes := by
  have ending : (if o.indent ≠ 0 then "\n" else "") = o.ending := by
    simp [OutputOptions.ending, Nat.pos_iff_ne_zero]
  have placed (breaks : Bool) := Xml.placeAll_tokensAll o nodes 0 breaks
  simp only [if_true] at placed
  rw [typeset, print, ending, declaration]
  by_cases declares : o.xmlDeclaration = true
  · have first : (Layout.start o.indent o.indentChar).place .declaration =
        ("<?xml version=\"1.0\" encoding=\"UTF-8\"?>", o.layout 0 true) := by
      simp [Layout.start, Layout.place, Layout.lead, Layout.before, Layout.after, Token.markup,
        layout]
    simp only [declares, if_true]
    rw [Layout.placeAll, first, placed true]
  · have first : Layout.start o.indent o.indentChar = o.layout 0 false := by
      simp [Layout.start, layout]
    rw [Bool.not_eq_true] at declares
    rw [declares, first]
    simp [placed false]

end OutputOptions

end Schematron
