import Schematron.Proofs.Markup.Grammar
import Schematron.Proofs.Markup.Place

/-!
# Printed trees are well-formed

A tree is tidy if its names and keys are names without colons and no element has a
key twice. Printing a tidy tree under a prefix that is such a name gives a document
of the grammar (`wellFormed_print`), whatever its values and texts are: the
characters that would end them are escaped.

The grammar cuts content into texts, references and elements, while printing goes
node by node, and blanks and adjacent texts run together. `Flows` is content that may
be continued to the left by more text, and it is kept by everything that is printed.
-/

namespace Schematron

namespace Grammar

variable {names more : List (List Char)} {rest s : List Char}

/-- A character that ends no text. -/
def IsDataChar (c : Char) : Prop := c ≠ '<' ∧ c ≠ '&' ∧ c ≠ '>'

theorem charData_of_isDataChar (data : ∀ c ∈ s, IsDataChar c) : CharData s := by
  constructor
  · intro c member
    exact ⟨(data c member).1, (data c member).2.1⟩
  · intro marked
    exact (data '>' (marked.subset (by simp))).2.2 rfl

/-- A character of a text is written as a reference, or it is data and stands for itself. -/
theorem reference_or_isDataChar (c : Char) :
    Reference (Markup.escapeTextChar c) ∨ Markup.escapeTextChar c = [c] ∧ IsDataChar c := by
  rw [Markup.escapeTextChar]
  split
  · exact .inl (@Reference.entity ['l', 't'] (by decide))
  · next no_less =>
    split
    · exact .inl (@Reference.entity ['g', 't'] (by decide))
    · next no_greater =>
      split
      · exact .inl (@Reference.entity ['a', 'm', 'p'] (by decide))
      · next no_ampersand => exact .inr ⟨rfl, no_less, no_ampersand, no_greater⟩

/-- In a value a double quote is written as a reference too. -/
theorem reference_or_unquoted (c : Char) : Reference (Markup.escapeValueChar c) ∨
    Markup.escapeValueChar c = [c] ∧ IsDataChar c ∧ c ≠ '"' := by
  rw [Markup.escapeValueChar]
  split
  · exact .inl (@Reference.entity ['a', 'p', 'o', 's'] (by decide))
  · split
    · exact .inl (@Reference.entity ['q', 'u', 'o', 't'] (by decide))
    · next no_quote =>
      rcases reference_or_isDataChar c with written | ⟨itself, data⟩
      · exact .inl written
      · exact .inr ⟨itself, data, no_quote⟩

/-- An escaped value can stand between double quotes. -/
theorem value_escapeValue (s : String) : Value '"' (Markup.escapeValue s).toList := by
  rw [Markup.escapeValue, String.toList_ofList]
  induction s.toList with
  | nil => exact .nil
  | cons c cs ih =>
      rw [List.flatMap_cons]
      rcases reference_or_unquoted c with written | ⟨itself, data, no_quote⟩
      · exact .reference written ih
      · rw [itself]
        exact .char data.1 data.2.1 no_quote ih

/-- Content that may have more text in front of it. -/
def Flows (names : List (List Char)) (rest : List Char) : Prop :=
  ∀ run, (∀ c ∈ run, IsDataChar c) → Content names (run ++ rest)

namespace Flows

theorem nil : Flows [] [] := by
  intro run data
  rw [List.append_nil]
  exact .text (charData_of_isDataChar data)

theorem content (h : Flows names rest) : Content names rest := h [] (by simp)

theorem data (h : Flows names rest) (data : ∀ c ∈ s, IsDataChar c) : Flows names (s ++ rest) := by
  intro run data_run
  rw [← List.append_assoc]
  exact h (run ++ s) (List.forall_mem_append.mpr ⟨data_run, data⟩)

theorem reference (h : Flows names rest) (written : Reference s) : Flows names (s ++ rest) := by
  intro run data_run
  rw [← List.append_assoc]
  exact .item (charData_of_isDataChar data_run) (.reference written) h.content

theorem element (h : Flows more rest) (written : Element names s) :
    Flows (names ++ more) (s ++ rest) := by
  intro run data_run
  rw [← List.append_assoc]
  exact .element (charData_of_isDataChar data_run) written h.content

/-- An escaped text flows into what is behind it. -/
theorem escapeText (h : Flows names rest) (text : String) :
    Flows names ((Markup.escapeText text).toList ++ rest) := by
  rw [Markup.escapeText, String.toList_ofList]
  induction text.toList with
  | nil => exact h
  | cons c cs ih =>
      rw [List.flatMap_cons, List.append_assoc]
      rcases reference_or_isDataChar c with written | ⟨itself, data⟩
      · exact ih.reference written
      · rw [itself]
        exact ih.data (by simpa using data)

end Flows

theorem attributes_markup {attributes : List Attribute}
    (named : ∀ a ∈ attributes, isName a.1.toList = true)
    (distinct : (attributes.map fun a => a.1.toList).Nodup) :
    Attributes (attributes.map fun a => a.1.toList)
      (String.join (attributes.map Attribute.markup)).toList := by
  induction attributes with
  | nil => exact .nil (by simp [Blank])
  | cons a rest ih =>
      obtain ⟨named_first, named_rest⟩ := List.forall_mem_cons.mp named
      rw [List.map_cons, List.nodup_cons] at distinct
      have space : Space [' '] := ⟨by simp, by simp [Blank, isSpace]⟩
      have nothing : Blank [] := by simp [Blank]
      have setting : Setting Value a.1.toList
          (a.1.toList ++ [] ++ '=' :: [] ++ '"' :: (Markup.escapeValue a.2).toList ++ ['"']) :=
        .mk nothing nothing (.inl rfl) (value_escapeValue a.2)
      have written := Attributes.cons space named_first setting distinct.1
        (ih named_rest distinct.2)
      simpa [Attribute.markup] using written

end Grammar

namespace Xml

/-- Names and keys have no colons, and no element has a key twice. -/
inductive Tidy : Xml → Prop where
  | element {name : String} {attributes : List Attribute} {children : List Xml} :
    Grammar.isNCName name.toList = true →
    (∀ a ∈ attributes, Grammar.isNCName a.1.toList = true) →
    (attributes.map fun a => a.1.toList).Nodup → (∀ child ∈ children, Tidy child) →
    Tidy (.element name attributes children)
  | text {content : String} : Tidy (.text content)

mutual

/-- The names of the elements of a node, in the order of their start tags. -/
def names : Xml → List String
  | .element name _ children => name :: namesAll children
  | .text _ => []

def namesAll : List Xml → List String
  | [] => []
  | node :: rest => node.names ++ namesAll rest

end

mutual

/-- The names in a tidy node have no colons. -/
theorem isNCName_of_mem_names (node : Xml) (tidy : node.Tidy) :
    ∀ name ∈ node.names, Grammar.isNCName name.toList = true := by
  cases node with
  | element name attributes children =>
      cases tidy with
      | element named _ _ each =>
          rw [names, List.forall_mem_cons]
          exact ⟨named, isNCName_of_mem_namesAll children each⟩
  | text content => simp [names]

theorem isNCName_of_mem_namesAll (nodes : List Xml) (tidy : ∀ node ∈ nodes, node.Tidy) :
    ∀ name ∈ namesAll nodes, Grammar.isNCName name.toList = true := by
  cases nodes with
  | nil => simp [namesAll]
  | cons node rest =>
      obtain ⟨first, later⟩ := List.forall_mem_cons.mp tidy
      rw [namesAll, List.forall_mem_append]
      exact ⟨isNCName_of_mem_names node first, isNCName_of_mem_namesAll rest later⟩

end

end Xml

/-! ### Printing in the grammar -/

namespace OutputOptions

open Grammar

/-- A name in the namespace of the document. -/
def qualify (o : OutputOptions) (name : String) : List Char := (o.nsPrefix ++ ":" ++ name).toList

variable {o : OutputOptions}

theorem isSpace_indentChar (valid : o.validate = .ok ()) : isSpace o.indentChar = true := by
  rw [validate] at valid
  split at valid
  · cases valid
  · split at valid
    · cases valid
    · split at valid
      · cases valid
      · next usable =>
        by_cases space : o.indentChar = ' '
        · rw [space]
          decide
        · by_cases tab : o.indentChar = '\t'
          · rw [tab]
            decide
          · exact absurd ⟨space, tab⟩ usable

/-- Before a tag there is nothing but white space. -/
theorem blank_lead (valid : o.validate = .ok ()) (depth : Nat) (breaks : Bool) :
    Blank (o.lead depth breaks).toList := by
  intro c member
  rw [lead] at member
  split at member
  · rw [String.toList_append, List.mem_append] at member
    rcases member with line | filler
    · rw [List.mem_singleton.mp (show c ∈ ['\n'] from line)]
      decide
    · rw [String.toList_ofList] at filler
      rw [List.eq_of_mem_replicate filler]
      exact isSpace_indentChar valid
  · cases member

theorem isDataChar_of_isSpace {c : Char} (space : isSpace c = true) : IsDataChar c := by
  simp only [isSpace, Bool.or_eq_true, decide_eq_true_eq] at space
  rcases space with ((rfl | rfl) | rfl) | rfl <;> exact ⟨by decide, by decide, by decide⟩

theorem isName_qualify (prefixed : isNCName o.nsPrefix.toList = true) {name : String}
    (named : isNCName name.toList = true) : isName (o.qualify name) = true := by
  have spelled : o.qualify name = o.nsPrefix.toList ++ ':' :: name.toList := by simp [qualify]
  rw [spelled]
  exact isName_append prefixed named

/-- The attributes of a tidy element are written as the grammar wants them, the binding of the
prefix included. -/
theorem exists_attributes (prefixed : isNCName o.nsPrefix.toList = true) (depth : Nat)
    (name : String) {attributes : List Attribute}
    (keys : ∀ a ∈ attributes, isNCName a.1.toList = true)
    (distinct : (attributes.map fun a => a.1.toList).Nodup) :
    ∃ given written, Attributes given written ∧
      (o.tag depth name attributes).markup.toList = o.qualify name ++ written := by
  have key : ("xmlns:" ++ o.nsPrefix).toList = "xmlns".toList ++ ':' :: o.nsPrefix.toList := by
    simp
  refine ⟨_, _, @attributes_markup (o.tag depth name attributes).attributes ?_ ?_, ?_⟩
  · intro a member
    rcases List.mem_append.mp member with bound | own
    · split at bound
      · rw [List.mem_singleton.mp bound, key]
        exact isName_append (by decide) prefixed
      · cases bound
    · exact isName_of_isNCName (keys a own)
  · rw [tag]
    by_cases outermost : depth = 0
    · rw [if_pos outermost, binding, List.singleton_append, List.map_cons, List.nodup_cons]
      refine ⟨fun taken => ?_, distinct⟩
      obtain ⟨a, member, same⟩ := List.mem_map.mp taken
      apply not_mem_of_isNCName (keys a member)
      rw [same, key]
      simp
    · rwa [if_neg outermost, List.nil_append]
  · rw [Tag.markup, String.toList_append]
    rfl

end OutputOptions

namespace Xml

open Grammar

variable {o : OutputOptions}

/-- An element is an element of the grammar if its content flows. -/
theorem element_around (valid : o.validate = .ok ()) (prefixed : isNCName o.nsPrefix.toList = true)
    {name : String} {attributes : List Attribute} {children : List Xml}
    (tidy : (element name attributes children).Tidy) (depth : Nat)
    (inside : ∀ {rest}, Flows [] rest → Flows ((namesAll children).map o.qualify)
      ((printAll o (depth + 1) true children).toList ++ rest)) :
    Element ((name :: namesAll children).map o.qualify)
      ((o.tag depth name attributes).around (between o depth children)).toList := by
  cases tidy with
  | element named keys distinct _ =>
      have qualified := OutputOptions.isName_qualify prefixed named
      obtain ⟨given, written, grammatical, markup⟩ :=
        OutputOptions.exists_attributes prefixed depth name keys distinct
      cases children with
      | nil =>
          have empty := Element.empty qualified grammatical
          have text : ((o.tag depth name attributes).around (between o depth [])).toList =
              '<' :: o.qualify name ++ written ++ ['/', '>'] := by
            simp [between, Tag.around, markup]
          rw [text]
          exact empty
      | cons child rest =>
          have blank := OutputOptions.blank_lead valid depth (breaksAfter true (child :: rest))
          have content := (inside (Flows.nil.data fun c member =>
            OutputOptions.isDataChar_of_isSpace (blank c member))).content
          have nothing : Blank [] := by simp [Blank]
          have full := Element.full qualified grammatical content nothing
          have named : (o.tag depth name attributes).name.toList = o.qualify name := rfl
          have text :
              ((o.tag depth name attributes).around (between o depth (child :: rest))).toList =
              '<' :: o.qualify name ++ written ++ '>' ::
                ((printAll o (depth + 1) true (child :: rest)).toList ++
                  ((o.lead depth (breaksAfter true (child :: rest))).toList ++ [])) ++
                '<' :: '/' :: o.qualify name ++ [] ++ ['>'] := by
            simp [between, Tag.around, markup, named]
          rw [text]
          exact full

mutual

/-- What is printed flows into what is behind it. -/
theorem flows_print (valid : o.validate = .ok ()) (prefixed : isNCName o.nsPrefix.toList = true)
    (node : Xml) (tidy : node.Tidy) (depth : Nat) (breaks : Bool) {names : List (List Char)}
    {rest : List Char} (h : Flows names rest) :
    Flows (node.names.map o.qualify ++ names) ((node.print o depth breaks).toList ++ rest) := by
  cases node with
  | element name attributes children =>
      have each : ∀ child ∈ children, child.Tidy := by
        cases tidy with
        | element _ _ _ each => exact each
      have written := element_around valid prefixed tidy depth fun {rest} flows => by
        simpa using flows_printAll valid prefixed children each (depth + 1) true flows
      rw [print_element, Xml.names, String.toList_append, List.append_assoc]
      refine (h.element written).data fun c member => ?_
      exact OutputOptions.isDataChar_of_isSpace
        (OutputOptions.blank_lead valid depth breaks c member)
  | text content =>
      rw [Xml.names, print]
      exact h.escapeText content

theorem flows_printAll (valid : o.validate = .ok ())
    (prefixed : isNCName o.nsPrefix.toList = true) (nodes : List Xml)
    (tidy : ∀ node ∈ nodes, node.Tidy)
    (depth : Nat) (breaks : Bool) {names : List (List Char)} {rest : List Char}
    (h : Flows names rest) :
    Flows ((namesAll nodes).map o.qualify ++ names)
      ((printAll o depth breaks nodes).toList ++ rest) := by
  cases nodes with
  | nil => simpa [namesAll, printAll] using h
  | cons node more =>
      obtain ⟨tidy_first, tidy_rest⟩ := List.forall_mem_cons.mp tidy
      have later := flows_printAll valid prefixed more tidy_rest depth (!node.isText) h
      rw [namesAll, printAll, List.map_append, List.append_assoc, String.toList_append,
        List.append_assoc]
      exact flows_print valid prefixed node tidy_first depth breaks later

end

end Xml

namespace Grammar

/-- White space may stand around the root. -/
theorem Misc.of_blank {s : List Char} (blank : Blank s) : Misc s := by
  induction s with
  | nil => exact .nil
  | cons c rest ih =>
      obtain ⟨first, later⟩ := List.forall_mem_cons.mp blank
      exact .space first (ih later)

theorem declaration_written (o : OutputOptions) :
    o.declaration.toList = [] ∨ Declaration o.declaration.toList := by
  rw [OutputOptions.declaration]
  split
  · right
    have space : Space [' '] := ⟨by simp, by simp [Blank, isSpace]⟩
    have nothing : Blank [] := by simp [Blank]
    have version : Setting (fun _ inner => isVersion inner = true) "version".toList
        ("version".toList ++ [] ++ '=' :: [] ++ '"' :: "1.0".toList ++ ['"']) :=
      .mk nothing nothing (.inl rfl) (by decide)
    have encoding : Setting (fun _ inner => isEncoding inner = true) "encoding".toList
        ("encoding".toList ++ [] ++ '=' :: [] ++ '"' :: "UTF-8".toList ++ ['"']) :=
      .mk nothing nothing (.inl rfl) (by decide)
    exact .mk space version (.present space encoding) .absent nothing
  · exact .inl rfl

end Grammar

namespace OutputOptions

open Grammar

variable {o : OutputOptions}

theorem blank_ending (o : OutputOptions) : Blank o.ending.toList := by
  rw [ending]
  split
  · intro c member
    rw [List.mem_singleton.mp (show c ∈ ['\n'] from member)]
    decide
  · intro c member
    cases member

/-- A printed tidy element is a document if all its characters are allowed in one. -/
theorem wellFormed_print (valid : o.validate = .ok ())
    (prefixed : isNCName o.nsPrefix.toList = true) {name : String} {attributes : List Attribute}
    {children : List Xml} (tidy : (Xml.element name attributes children).Tidy)
    (chars : ∀ c ∈ (o.print [.element name attributes children]).toList, isChar c = true) :
    WellFormed ((Xml.namesAll [.element name attributes children]).map o.qualify)
      (o.print [.element name attributes children]).toList := by
  have each : ∀ child ∈ children, child.Tidy := by
    cases tidy with
    | element _ _ _ each => exact each
  have root := Xml.element_around valid prefixed tidy 0 fun {rest} flows => by
    simpa using Xml.flows_printAll valid prefixed children each 1 true flows
  have names : Xml.namesAll [.element name attributes children] =
      name :: Xml.namesAll children := by
    simp [Xml.namesAll, Xml.names]
  refine ⟨chars, _, _, _, _, ?_, declaration_written o,
    .of_blank (blank_lead valid 0 o.xmlDeclaration), names ▸ root, .of_blank (blank_ending o)⟩
  simp [print, Xml.printAll, Xml.print_element]

end OutputOptions

end Schematron
