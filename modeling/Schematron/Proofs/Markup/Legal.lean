import Schematron.Proofs.Markup.WellFormed

/-!
# Legal characters

A string is legal if a document may hold all its characters. Escaping neither adds nor
removes an illegal one, so the text of a tree is legal exactly if the strings in it
are, names and the namespace included.
-/

namespace Schematron

namespace Grammar

/-- A document may hold the string. -/
def Legal (s : String) : Prop := ∀ c ∈ s.toList, isChar c = true

instance (s : String) : Decidable (Legal s) :=
  decidable_of_iff (s.toList.all isChar = true) List.all_eq_true

variable {s t : String}

@[simp] theorem legal_append : Legal (s ++ t) ↔ Legal s ∧ Legal t := by
  rw [Legal, String.toList_append, List.forall_mem_append, Legal, Legal]

theorem legal_join {l : List String} : Legal (String.join l) ↔ ∀ s ∈ l, Legal s := by
  induction l with
  | nil => simp [Legal]
  | cons s rest ih => rw [String.join_cons, legal_append, ih, List.forall_mem_cons]

theorem legal_intercalate {l : List String} (mark : Legal s) (each : ∀ t ∈ l, Legal t) :
    Legal (s.intercalate l) := by
  induction l with
  | nil => simp [Legal]
  | cons t rest ih =>
      obtain ⟨first, later⟩ := List.forall_mem_cons.mp each
      by_cases last : rest = []
      · rwa [last, String.intercalate_singleton]
      · rw [String.intercalate_cons_of_ne_nil last, legal_append, legal_append]
        exact ⟨⟨first, mark⟩, ih later⟩

theorem legal_of_isNCName (named : isNCName s.toList = true) : Legal s :=
  isChar_of_mem_of_isNCName named

/-- Escaping concerns characters that are legal anyway, and so do the references. -/
theorem forall_isChar_flatMap {escape : Char → List Char}
    (escapes : ∀ c, (∀ e ∈ escape c, isChar e = true) ↔ isChar c = true) :
    Legal (String.ofList (s.toList.flatMap escape)) ↔ Legal s := by
  rw [Legal, Legal, String.toList_ofList, List.forall_mem_flatMap]
  simp only [escapes]

theorem forall_isChar_escapeTextChar (c : Char) :
    (∀ e ∈ Markup.escapeTextChar c, isChar e = true) ↔ isChar c = true := by
  rw [Markup.escapeTextChar]
  split
  · next same => exact iff_of_true (List.all_eq_true.mp (by decide)) (by rw [same]; decide)
  · split
    · next same => exact iff_of_true (List.all_eq_true.mp (by decide)) (by rw [same]; decide)
    · split
      · next same => exact iff_of_true (List.all_eq_true.mp (by decide)) (by rw [same]; decide)
      · simp

theorem forall_isChar_escapeValueChar (c : Char) :
    (∀ e ∈ Markup.escapeValueChar c, isChar e = true) ↔ isChar c = true := by
  rw [Markup.escapeValueChar]
  split
  · next same => exact iff_of_true (List.all_eq_true.mp (by decide)) (by rw [same]; decide)
  · split
    · next same => exact iff_of_true (List.all_eq_true.mp (by decide)) (by rw [same]; decide)
    · exact forall_isChar_escapeTextChar c

@[simp] theorem legal_escapeText : Legal (Markup.escapeText s) ↔ Legal s :=
  forall_isChar_flatMap forall_isChar_escapeTextChar

@[simp] theorem legal_escapeValue : Legal (Markup.escapeValue s) ↔ Legal s :=
  forall_isChar_flatMap forall_isChar_escapeValueChar

theorem legal_attribute {a : Attribute} : Legal a.markup ↔ Legal a.1 ∧ Legal a.2 := by
  have space : Legal " " := by decide
  have opening : Legal "=\"" := by decide
  have closing : Legal "\"" := by decide
  simp [Attribute.markup, space, opening, closing]

theorem legal_tag {tag : Tag} :
    Legal tag.markup ↔ Legal tag.name ∧ ∀ a ∈ tag.attributes, Legal a.1 ∧ Legal a.2 := by
  rw [Tag.markup, legal_append, legal_join, List.forall_mem_map]
  simp only [legal_attribute]

theorem isChar_of_isSpace {c : Char} (space : isSpace c = true) : isChar c = true := by
  simp only [isSpace, Bool.or_eq_true, decide_eq_true_eq] at space
  rcases space with ((rfl | rfl) | rfl) | rfl <;> decide

end Grammar

open Grammar

namespace OutputOptions

variable {o : OutputOptions}

theorem legal_lead (valid : o.validate = .ok ()) (depth : Nat) (breaks : Bool) :
    Legal (o.lead depth breaks) :=
  fun c member => isChar_of_isSpace (blank_lead valid depth breaks c member)

theorem legal_ending (o : OutputOptions) : Legal o.ending :=
  fun c member => isChar_of_isSpace (blank_ending o c member)

theorem legal_declaration (o : OutputOptions) : Legal o.declaration := by
  rw [declaration]
  split <;> decide

theorem legal_binding (prefixed : isNCName o.nsPrefix.toList = true) :
    (∀ a ∈ o.binding, Legal a.1 ∧ Legal a.2) ↔ Legal o.namespaceUri := by
  have key : Legal ("xmlns:" ++ o.nsPrefix) :=
    legal_append.mpr ⟨by decide, legal_of_isNCName prefixed⟩
  simp [binding, key]

/-- Only the tag of an outermost element holds the namespace. -/
theorem legal_tag_iff (prefixed : isNCName o.nsPrefix.toList = true) (depth : Nat) {name : String}
    {attributes : List Attribute} (named : isNCName name.toList = true)
    (keys : ∀ a ∈ attributes, isNCName a.1.toList = true) :
    Legal (o.tag depth name attributes).markup ↔
      (depth = 0 → Legal o.namespaceUri) ∧ ∀ a ∈ attributes, Legal a.2 := by
  have qualified : Legal (o.tag depth name attributes).name := by
    have colon : Legal ":" := by decide
    simp [tag, legal_of_isNCName prefixed, legal_of_isNCName named, colon]
  have own : (∀ a ∈ attributes, Legal a.1 ∧ Legal a.2) ↔ ∀ a ∈ attributes, Legal a.2 := by
    constructor
    · intro legal a member
      exact (legal a member).2
    · intro legal a member
      exact ⟨legal_of_isNCName (keys a member), legal a member⟩
  rw [legal_tag, and_iff_right qualified, tag, List.forall_mem_append, own]
  by_cases outermost : depth = 0
  · simp only [outermost, if_true, legal_binding prefixed, forall_const]
  · simp [outermost]

end OutputOptions

namespace Xml

mutual

/-- The values and the texts of a node. -/
def strings : Xml → List String
  | .element _ attributes children => attributes.map (·.2) ++ stringsAll children
  | .text content => [content]

def stringsAll : List Xml → List String
  | [] => []
  | node :: rest => node.strings ++ stringsAll rest

end

variable {o : OutputOptions}

/-- The text of an element is legal if its tag and its content are. -/
theorem legal_print_element (valid : o.validate = .ok ()) (depth : Nat) (breaks : Bool)
    (name : String) (attributes : List Attribute) (children : List Xml) :
    Legal ((element name attributes children).print o depth breaks) ↔
      Legal (o.tag depth name attributes).markup ∧
        Legal (printAll o (depth + 1) true children) := by
  have lead (breaks : Bool) := OutputOptions.legal_lead valid depth breaks
  have opening : Legal "<" := by decide
  have ending : Legal ">" := by decide
  have closing : Legal "</" := by decide
  have single : Legal "/>" := by decide
  have nothing : Legal "" := by decide
  cases children with
  | nil => simp [print, printAll, lead, opening, single, nothing]
  | cons child rest =>
      have name_of_tag (legal : Legal (o.tag depth name attributes).markup) :
          Legal (o.tag depth name attributes).name := (legal_tag.mp legal).1
      simp only [print, legal_append, lead, opening, ending, closing, true_and, and_true]
      exact and_iff_left_of_imp fun h => name_of_tag h.1

mutual

/-- Below the root the text of a node is legal exactly if its strings are. -/
theorem legal_print_iff (valid : o.validate = .ok ()) (prefixed : isNCName o.nsPrefix.toList = true)
    (node : Xml) (tidy : node.Tidy) (depth : Nat) (breaks : Bool) :
    Legal (node.print o (depth + 1) breaks) ↔ ∀ s ∈ node.strings, Legal s := by
  cases node with
  | element name attributes children =>
      cases tidy with
      | element named keys _ each =>
          rw [legal_print_element valid, OutputOptions.legal_tag_iff prefixed _ named keys,
            legal_printAll_iff valid prefixed children each, strings, List.forall_mem_append,
            List.forall_mem_map]
          simp
  | text content => simp [print, strings]

theorem legal_printAll_iff (valid : o.validate = .ok ())
    (prefixed : isNCName o.nsPrefix.toList = true) (nodes : List Xml)
    (tidy : ∀ node ∈ nodes, node.Tidy) (depth : Nat) (breaks : Bool) :
    Legal (printAll o (depth + 1) breaks nodes) ↔ ∀ s ∈ stringsAll nodes, Legal s := by
  cases nodes with
  | nil => simp [printAll, stringsAll, Legal]
  | cons node rest =>
      obtain ⟨tidy_first, tidy_rest⟩ := List.forall_mem_cons.mp tidy
      rw [printAll, stringsAll, legal_append, List.forall_mem_append,
        legal_print_iff valid prefixed node tidy_first,
        legal_printAll_iff valid prefixed rest tidy_rest]

end

end Xml

/-- The text of a document is legal exactly if the namespace and the strings of its tree are. -/
theorem OutputOptions.legal_print_iff {o : OutputOptions} (valid : o.validate = .ok ())
    (prefixed : isNCName o.nsPrefix.toList = true) {name : String} {attributes : List Attribute}
    {children : List Xml} (tidy : (Xml.element name attributes children).Tidy) :
    Legal (o.print [.element name attributes children]) ↔
      Legal o.namespaceUri ∧ ∀ s ∈ (Xml.element name attributes children).strings, Legal s := by
  cases tidy with
  | element named keys _ each =>
      have nothing : Legal "" := by decide
      rw [print, legal_append, legal_append, Xml.printAll, Xml.printAll, legal_append,
        Xml.legal_print_element valid, legal_tag_iff prefixed _ named keys,
        Xml.legal_printAll_iff valid prefixed children each, Xml.strings, List.forall_mem_append,
        List.forall_mem_map]
      simp [o.legal_declaration, o.legal_ending, nothing, and_assoc]

end Schematron
