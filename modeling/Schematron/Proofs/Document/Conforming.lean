import Schematron.Proofs.Document.ReadBack
import Schematron.Proofs.Document.Strings
import Schematron.Proofs.Markup.Conforming

/-!
# What XML 1.0 leaves of a document

A reader that cuts a text into characters finds every string of a document as it was
given. A reader that conforms to XML 1.0 finds the same elements with the same keys,
but it takes every end of a line for a line feed and every tab and line feed in a value
for a space, since no such character is written as a reference.

`Document.read_conforming` says what is left of each string and, from this, of which
documents nothing is lost: of those without carriage returns whose values have no tabs
and no line feeds either. A set with a tab in a value is not among them, so its test
asks for another value to such a reader.
-/

namespace Schematron

namespace Xml

/-! ### Trees with other strings -/

mutual

def mapStrings (onText onValue : String → String) : Xml → Xml
  | .element name attributes children =>
    .element name (attributes.map fun a => (a.1, onValue a.2))
      (mapStringsAll onText onValue children)
  | .text content => .text (onText content)

def mapStringsAll (onText onValue : String → String) : List Xml → List Xml
  | [] => []
  | x :: rest => x.mapStrings onText onValue :: mapStringsAll onText onValue rest

end

mutual

def texts : Xml → List String
  | .element _ _ children => textsAll children
  | .text content => [content]

def textsAll : List Xml → List String
  | [] => []
  | x :: rest => x.texts ++ textsAll rest

end

mutual

def values : Xml → List String
  | .element _ attributes children => attributes.map Prod.snd ++ valuesAll children
  | .text _ => []

def valuesAll : List Xml → List String
  | [] => []
  | x :: rest => x.values ++ valuesAll rest

end

variable {onText onValue : String → String}

theorem mapStringsAll_eq_map (nodes : List Xml) :
    mapStringsAll onText onValue nodes = nodes.map (mapStrings onText onValue) := by
  induction nodes with
  | nil => rfl
  | cons x rest ih => rw [mapStringsAll, ih, List.map_cons]

theorem map_values_eq_self_iff {attributes : List Attribute} :
    (attributes.map fun a => (a.1, onValue a.2)) = attributes ↔
      ∀ s ∈ attributes.map Prod.snd, onValue s = s := by
  induction attributes with
  | nil => simp
  | cons a rest ih =>
      obtain ⟨key, value⟩ := a
      simp [ih]

mutual

/-- Only a node whose strings all stay is the same as before. -/
theorem mapStrings_eq_self_iff : (x : Xml) → (x.mapStrings onText onValue = x ↔
    (∀ s ∈ x.texts, onText s = s) ∧ ∀ s ∈ x.values, onValue s = s)
  | .element name attributes children => by
      have inner := mapStringsAll_eq_self_iff children
      rw [mapStrings, Xml.element.injEq, texts, values, List.forall_mem_append,
        map_values_eq_self_iff, inner]
      tauto
  | .text content => by simp [mapStrings, texts, values]

theorem mapStringsAll_eq_self_iff : (nodes : List Xml) →
    (mapStringsAll onText onValue nodes = nodes ↔
      (∀ s ∈ textsAll nodes, onText s = s) ∧ ∀ s ∈ valuesAll nodes, onValue s = s)
  | [] => by simp [mapStringsAll, textsAll, valuesAll]
  | x :: rest => by
      have first := mapStrings_eq_self_iff x
      have later := mapStringsAll_eq_self_iff rest
      rw [mapStringsAll, List.cons.injEq, textsAll, valuesAll, List.forall_mem_append,
        List.forall_mem_append, first, later]
      tauto

end

def Open.mapStrings (onText onValue : String → String) (e : Open) : Open :=
  ⟨e.tag.mapValues onValue, e.before.map (Xml.mapStrings onText onValue)⟩

/-- Elements are put together without a look at their strings. -/
theorem build_mapStrings (stack : List Open) (siblings : List Xml) (tokens : List Token) :
    build (stack.map (Open.mapStrings onText onValue))
        (siblings.map (mapStrings onText onValue)) (tokens.map (Token.mapStrings onText onValue)) =
      (build stack siblings tokens).map (List.map (mapStrings onText onValue)) := by
  fun_induction build stack siblings tokens with
  | case1 siblings => rfl
  | case2 => rfl
  | case3 stack siblings tag rest ih =>
      rw [List.map_cons, Token.mapStrings, build_startTag]
      exact ih
  | case4 stack siblings tag rest ih =>
      rw [List.map_cons, Token.mapStrings, build_emptyTag, ← ih, List.map_append]
      rfl
  | case5 stack siblings content rest ih =>
      rw [List.map_cons, Token.mapStrings, build_text, ← ih, List.map_append]
      rfl
  | case6 last stack siblings rest ih =>
      rw [← ih, List.map_append, List.map_cons, List.map_cons]
      show build (last.mapStrings onText onValue :: _) _ (.endTag last.tag.name :: _) = _
      refine build_endTag.trans ?_
      rw [List.map_singleton, mapStrings, mapStringsAll_eq_map]
      rfl
  | case7 last stack siblings name rest other => exact if_neg other
  | case8 => rfl
  | case9 stack => cases stack <;> rfl

/-- In place of each string a reader that conforms to XML 1.0 finds what is left of it. -/
theorem readConforming_markup {tokens : List Token}
    (legible : ∀ token ∈ tokens, Reader.Legible token) (apart : tokens.IsChain Reader.Apart) :
    readConforming (String.join (tokens.map Token.markup)) =
      (read (String.join (tokens.map Token.markup))).map
        (mapStrings Reader.unbroken (Reader.spaced ∘ Reader.unbroken)) := by
  have legible' : ∀ token ∈ tokens.map
      (Token.mapStrings Reader.unbroken (Reader.spaced ∘ Reader.unbroken)),
      Reader.Legible token := by
    intro token member
    obtain ⟨before, listed, rfl⟩ := List.mem_map.mp member
    exact (legible before listed).mapStrings _ Reader.unbroken_ne_empty
  have apart' := Reader.isChain_mapStrings apart Reader.unbroken (Reader.spaced ∘ Reader.unbroken)
  have built := @build_mapStrings Reader.unbroken (Reader.spaced ∘ Reader.unbroken) [] [] tokens
  rw [List.map_nil, List.map_nil] at built
  rw [readConforming, Reader.conform_markup legible apart, read, read,
    Reader.tokenize_markup legible' apart', Reader.tokenize_markup legible apart,
    Option.bind_some, Option.bind_some, built]
  cases build [] [] tokens with
  | none => rfl
  | some nodes =>
      cases nodes with
      | nil => rfl
      | cons first rest => cases rest <;> cases first <;> rfl

end Xml

namespace Reader

/-! ### Strings of which nothing is lost -/

theorem unbroken_eq_self_iff {s : String} : unbroken s = s ↔ '\r' ∉ s.toList := by
  rw [unbroken, ← lineEnds_eq_self_iff]
  constructor
  · intro same
    rw [← String.toList_ofList (l := lineEnds false s.toList), same]
  · intro same
    rw [same, String.ofList_toList]

/-- Each blank but the space is replaced. -/
theorem toSpace_eq_self_iff {c : Char} : toSpace c = c ↔ c ≠ '\t' ∧ c ≠ '\n' ∧ c ≠ '\r' := by
  by_cases blank : Grammar.isSpace c = true
  · simp only [Grammar.isSpace, Bool.or_eq_true, decide_eq_true_eq] at blank
    rcases blank with ((rfl | rfl) | rfl) | rfl <;> decide
  · rw [toSpace, if_neg blank]
    simp only [Grammar.isSpace, Bool.or_eq_true, decide_eq_true_eq, not_or] at blank
    exact iff_of_true rfl ⟨blank.1.1.2, blank.2, blank.1.2⟩

theorem toSpace_toSpace (c : Char) : toSpace (toSpace c) = toSpace c := by
  by_cases blank : Grammar.isSpace c = true
  · have space : toSpace c = ' ' := if_pos blank
    rw [space]
    rfl
  · have same : toSpace c = c := if_neg blank
    rw [same, same]

/-- A value stays the same if it has no blanks other than spaces. -/
theorem spaced_unbroken_eq_self_iff {s : String} : (spaced ∘ unbroken) s = s ↔
    '\t' ∉ s.toList ∧ '\n' ∉ s.toList ∧ '\r' ∉ s.toList := by
  have inner : ('\t' ∉ s.toList ∧ '\n' ∉ s.toList ∧ '\r' ∉ s.toList) ↔
      ∀ c ∈ s.toList, toSpace c = c := by
    simp only [toSpace_eq_self_iff]
    constructor
    · rintro ⟨tab, feed, ret⟩ c member
      exact ⟨fun same => tab (same ▸ member), fun same => feed (same ▸ member),
        fun same => ret (same ▸ member)⟩
    · intro each
      exact ⟨fun member => (each _ member).1 rfl, fun member => (each _ member).2.1 rfl,
        fun member => (each _ member).2.2 rfl⟩
  rw [inner]
  constructor
  · intro same c member
    rw [← same, Function.comp_apply, spaced, String.toList_ofList] at member
    obtain ⟨before, -, rfl⟩ := List.mem_map.mp member
    exact toSpace_toSpace before
  · intro each
    have whole : unbroken s = s := unbroken_eq_self_iff.mpr (inner.mpr each).2.2
    have spaces : s.toList.map toSpace = s.toList := by
      rw [List.map_congr_left each, List.map_id']
    rw [Function.comp_apply, whole, spaced, spaces, String.ofList_toList]

end Reader

namespace Document

/-- The text of a document on one line, and what the two readers make of it. -/
theorem exists_conforming {d : Document} (built : d.Built) :
    ∃ text name attributes children,
      d.toXml .compact = .ok text ∧
      Xml.read text = some (.element name
        (("xmlns:sch", OutputOptions.standard.namespaceUri) :: attributes) children) ∧
      Markup.nodesAll "sch" [] d.toMarkup = [.element name attributes children] ∧
      Document.ofXml? (.element name attributes children) = some d.shown ∧
      Xml.readConforming text =
        (Xml.read text).map (Xml.mapStrings Reader.unbroken (Reader.spaced ∘ Reader.unbroken)) := by
  obtain ⟨text, name, attributes, children, written, reading, nodes, -, decoded⟩ :=
    exists_text built OutputOptions.standard.namespaceUri
  obtain ⟨piece, single, legible, -⟩ := exists_legible built
  have legible_ns : Reader.LegibleName "sch" := by decide
  have legible_key : ∀ a ∈ OutputOptions.compact.binding, Reader.LegibleName a.1 := by decide
  have spelled := Markup.render_oneLine (OutputOptions.validate_compactFor
    OutputOptions.standard.namespaceUri) rfl rfl legible
  have same : text = String.join
      ((piece.tokens "sch" OutputOptions.compact.binding).map Token.markup) := by
    rw [toXml, single] at written
    exact Except.ok.inj (written.symm.trans spelled)
  refine ⟨text, name, attributes, children, written, reading, nodes, decoded, ?_⟩
  rw [same]
  apply Xml.readConforming_markup
  · exact legible.tokens legible_ns legible_key
  · exact legible.isChain

theorem unchanged_namespaceUri : (Reader.spaced ∘ Reader.unbroken)
    OutputOptions.standard.namespaceUri = OutputOptions.standard.namespaceUri := by
  apply Reader.spaced_unbroken_eq_self_iff.mpr
  decide

/-- What a reader finds that conforms to XML 1.0, in place of what one finds that reads characters.
The elements, their keys and their order are the same, so a document loses no part. But its texts
have lost their carriage returns, and its values have a space for every other blank. So exactly the
documents are found as they are that have no carriage returns in their texts and no tabs, line feeds
or carriage returns in their values. -/
theorem read_conforming {d : Document} (built : d.Built) :
    ∃ text name attributes children,
      d.toXml .compact = .ok text ∧
      Xml.read text = some (.element name
        (("xmlns:sch", OutputOptions.standard.namespaceUri) :: attributes) children) ∧
      Document.ofXml? (.element name attributes children) = some d.shown ∧
      Xml.readConforming text =
        (Xml.read text).map (Xml.mapStrings Reader.unbroken (Reader.spaced ∘ Reader.unbroken)) ∧
      (Xml.readConforming text = Xml.read text ↔
        (∀ s ∈ (Xml.element name attributes children).texts, '\r' ∉ s.toList) ∧
          ∀ s ∈ (Xml.element name attributes children).values,
            '\t' ∉ s.toList ∧ '\n' ∉ s.toList ∧ '\r' ∉ s.toList) := by
  obtain ⟨text, name, attributes, children, written, reading, -, decoded, conforming⟩ :=
    exists_conforming built
  refine ⟨text, name, attributes, children, written, reading, decoded, conforming, ?_⟩
  rw [conforming, reading, Option.map_some, Option.some.injEq, Xml.mapStrings_eq_self_iff]
  -- The address of the namespace is the only value that is no string of the document.
  have values : (Xml.element name
      (("xmlns:sch", OutputOptions.standard.namespaceUri) :: attributes) children).values =
        OutputOptions.standard.namespaceUri :: (Xml.element name attributes children).values := by
    rw [Xml.values, Xml.values, List.map_cons, List.cons_append]
  rw [values, List.forall_mem_cons, and_iff_right unchanged_namespaceUri]
  simp only [Reader.unbroken_eq_self_iff, Reader.spaced_unbroken_eq_self_iff]
  rfl

end Document

/-- The assertion that a value is two letters with a tab between them. -/
def Assertion.tabbed : Assertion :=
  ⟨ValueSet.test ⟨["a\tb"]⟩ "c", valueMessage "c" "MUST be \"a\tb\""⟩

theorem Assertion.ofKind?_tabbed : ofKind? "c" (.setInclusion ⟨["a\tb"]⟩) = some tabbed := rfl

theorem Document.read_conforming_tabbed :
    (Document.assertion .tabbed).Built ∧ ∃ text name attributes children,
      (Document.assertion .tabbed).toXml .compact = .ok text ∧
      Document.ofXml? (.element name attributes children) =
        some (Document.assertion .tabbed).shown ∧
      Xml.readConforming text =
        (Xml.read text).map (Xml.mapStrings Reader.unbroken (Reader.spaced ∘ Reader.unbroken)) := by
  have built : (Document.assertion .tabbed).Built :=
    Assertion.built_of_ofKind? Assertion.ofKind?_tabbed
  obtain ⟨text, name, attributes, children, written, -, decoded, conforming, -⟩ :=
    Document.read_conforming built
  exact ⟨built, text, name, attributes, children, written, decoded, conforming⟩

/-- Every string of the assertion is legal, but to a reader that conforms to XML 1.0 its test is the
one for a space in place of the tab, by which the value with the tab is not found. -/
theorem Assertion.tab_not_found :
    ofKind? "c" (.setInclusion ⟨["a\tb"]⟩) = some tabbed ∧
    (∀ s ∈ tabbed.strings, Grammar.Legal s) ∧
    (∃ text, (Document.assertion tabbed).toXml .compact = .ok text ∧
      (Xml.readConforming text).map Xml.values =
        some [OutputOptions.standard.namespaceUri, ValueSet.test ⟨["a b"]⟩ "c", "c"]) ∧
    ValueSet.finds ⟨["a\tb"]⟩ "a\tb" = true ∧ ValueSet.finds ⟨["a b"]⟩ "a\tb" = false := by
  have built : (Document.assertion tabbed).Built := built_of_ofKind? ofKind?_tabbed
  obtain ⟨text, name, attributes, children, written, reading, nodes, -, conforming⟩ :=
    Document.exists_conforming built
  cases nodes
  refine ⟨ofKind?_tabbed, by decide, ⟨text, written, ?_⟩, by decide, by decide⟩
  rw [conforming, reading]
  decide +kernel

end Schematron
