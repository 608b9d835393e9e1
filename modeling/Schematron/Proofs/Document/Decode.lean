import Schematron.Proofs.Document.Shown
import Schematron.Proofs.Markup.Xml

/-!
# Documents out of element trees

How the parts of a document are read off an element tree. An element is known by
its name under the prefix `sch`, and its attributes have to come in a fixed order,
in which any may be left out. Whatever else stands in the tree is refused.

`Told decode content values` says that pieces of markup can be read back and that
the decoder takes them for the given values. The markup of a document tells what
the document shows.
-/

namespace Schematron

namespace Xml

variable {α : Type}

/-- The qualified name of an element; a text has none. -/
def name : Xml → String
  | .element name _ _ => name
  | .text _ => ""

/-- The values of attributes under the given keys, each of which may be left out. -/
def fields? : List String → List Attribute → Option (List (Option String))
  | [], [] => some []
  | [], _ :: _ => none
  | _ :: keys, [] => (fields? keys []).map (none :: ·)
  | key :: keys, a :: rest =>
    if a.1 = key then (fields? keys rest).map (some a.2 :: ·)
    else (fields? keys (a :: rest)).map (none :: ·)

/-- Decodes the elements of a name by their fields and their children. -/
def element? (name : String) (keys : List String)
    (decode : List (Option String) → List Xml → Option α) : Xml → Option α
  | .element qualified attributes children =>
    if qualified = "sch" ++ ":" ++ name then
      (fields? keys attributes).bind fun fields => decode fields children
    else none
  | .text _ => none

end Xml

/-! ### Decoders -/

def MessagePart.ofXml? : Xml → Option MessagePart
  | .text content => some (.text content)
  | x => x.element? "value-of" ["select"] fun
    | [some select], [] => some (.valueOf select)
    | _, _ => none

/-- An element without children is taken for an assertion with an empty message. -/
def Assert.ofXml? : Xml → Option Assert := Xml.element? "assert" ["test"] fun
  | [test], children => (children.mapM MessagePart.ofXml?).map fun parts => ⟨test, some ⟨parts⟩⟩
  | _, _ => none

def Rule.ofXml? : Xml → Option Rule := Xml.element? "rule" ["id", "context"] fun
  | [id, context], children => (children.mapM Assert.ofXml?).map fun asserts => ⟨id, context, asserts⟩
  | _, _ => none

def NamespaceBinding.ofXml? : Xml → Option NamespaceBinding :=
  Xml.element? "ns" ["prefix", "uri"] fun
    | [nsPrefix, uri], [] => some ⟨nsPrefix, uri⟩
    | _, _ => none

def Paragraph.ofXml? : Xml → Option Paragraph := Xml.element? "p" [] fun
  | [], [] => some ⟨some ""⟩
  | [], [.text content] => some ⟨some content⟩
  | _, _ => none

def PatternItem.ofXml? (x : Xml) : Option PatternItem :=
  match x.name with
  | "sch:p" => (Paragraph.ofXml? x).map .paragraph
  | "sch:rule" => (Rule.ofXml? x).map .rule
  | _ => none

def Pattern.ofXml? : Xml → Option Pattern := Xml.element? "pattern" ["id", "name"] fun
  | [id, name], children => (children.mapM PatternItem.ofXml?).map fun items =>
    ⟨id, name, items, .empty 0⟩
  | _, _ => none

def SchemaItem.ofXml? (x : Xml) : Option SchemaItem :=
  match x.name with
  | "sch:ns" => (NamespaceBinding.ofXml? x).map .binding
  | "sch:p" => (Paragraph.ofXml? x).map .paragraph
  | "sch:pattern" => (Pattern.ofXml? x).map .pattern
  | _ => none

def Schema.ofXml? : Xml → Option Schema := Xml.element? "schema" ["id", "title"] fun
  | [id, title], children => (children.mapM SchemaItem.ofXml?).map fun items => ⟨id, title, items⟩
  | _, _ => none

def Document.ofXml? (x : Xml) : Option Document :=
  match x.name with
  | "sch:schema" => (Schema.ofXml? x).map .schema
  | "sch:ns" => (NamespaceBinding.ofXml? x).map .binding
  | "sch:p" => (Paragraph.ofXml? x).map .paragraph
  | "sch:pattern" => (Pattern.ofXml? x).map .pattern
  | "sch:rule" => (Rule.ofXml? x).map .rule
  | "sch:assert" => (Assert.ofXml? x).map .assert
  | _ => none

/-! ### Fields -/

section presentAttributes

variable {key : String} {pairs : List (String × Option String)}

theorem presentAttributes_cons_some {value : String} :
    presentAttributes ((key, some value) :: pairs) = (key, value) :: presentAttributes pairs := rfl

theorem presentAttributes_cons_none :
    presentAttributes ((key, none) :: pairs) = presentAttributes pairs := rfl

theorem key_of_mem_presentAttributes {a : Attribute} (member : a ∈ presentAttributes pairs) :
    a.1 ∈ pairs.map Prod.fst := by
  obtain ⟨pair, listed, made⟩ := List.mem_filterMap.mp member
  obtain ⟨value, -, rfl⟩ := Option.map_eq_some_iff.mp made
  exact List.mem_map_of_mem listed

end presentAttributes

namespace Xml

theorem fields?_of_absent {key : String} {keys : List String} {attributes : List Attribute}
    (absent : ∀ a ∈ attributes, a.1 ≠ key) :
    fields? (key :: keys) attributes = (fields? keys attributes).map (none :: ·) := by
  cases attributes with
  | nil => rfl
  | cons a rest => exact if_neg (absent a (.head rest))

/-- The fields are the values that the attributes were made of. -/
theorem fields?_presentAttributes {keys : List String} {values : List (Option String)}
    (distinct : keys.Nodup) (lengths : keys.length = values.length) :
    fields? keys (presentAttributes (keys.zip values)) = some values := by
  induction keys generalizing values with
  | nil =>
      rw [List.length_eq_zero_iff.mp lengths.symm]
      rfl
  | cons key keys ih =>
      obtain ⟨value, values, rfl⟩ := List.exists_cons_of_length_eq_add_one lengths.symm
      obtain ⟨fresh, later⟩ := List.nodup_cons.mp distinct
      have rest := @ih values later (Nat.succ.inj lengths)
      cases value with
      | some value =>
          rw [List.zip_cons_cons, presentAttributes_cons_some, fields?, if_pos rfl, rest]
          rfl
      | none =>
          rw [List.zip_cons_cons, presentAttributes_cons_none, fields?_of_absent, rest]
          · rfl
          · rintro a member rfl
            have known := key_of_mem_presentAttributes member
            rw [List.map_fst_zip (Nat.le_of_eq (Nat.succ.inj lengths))] at known
            exact fresh known

variable {name : String} {keys : List String} {x : Xml}
  {decode : List (Option String) → List Xml → Option α}

theorem element?_presentAttributes {values : List (Option String)} {children : List Xml}
    (distinct : keys.Nodup) (lengths : keys.length = values.length) :
    element? name keys decode
      (.element ("sch" ++ ":" ++ name) (presentAttributes (keys.zip values)) children) =
        decode values children := by
  rw [element?, if_pos rfl, fields?_presentAttributes distinct lengths, Option.bind_some]

/-- What is decoded as an element of a name has that name. -/
theorem name_of_element? {value : α} (decoded : element? name keys decode x = some value) :
    x.name = "sch" ++ ":" ++ name := by
  cases x with
  | text content => cases decoded
  | element qualified attributes children =>
      rw [element?] at decoded
      split at decoded
      · next same => exact same
      · cases decoded

end Xml

end Schematron
