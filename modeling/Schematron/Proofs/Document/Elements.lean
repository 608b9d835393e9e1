import Schematron.Proofs.Document.Outcome
import Schematron.Proofs.Markup.Printing

/-!
# The element tree of a document

`Document.elements` is the tree that a document stands for, with local names. It
holds nothing that is not written: attributes without a value and empty texts are
left out, and a scope is there as its rules.

`toXml_eq_print` says that writing a document is nothing but printing this tree.
-/

namespace Schematron

/-- The text node of a text. An empty text has none. -/
def Xml.ofText (content : String) : List Xml := if content = "" then [] else [.text content]

namespace MessagePart

def nodes : MessagePart → List Xml
  | text content => Xml.ofText content
  | valueOf select => [.element "value-of" [("select", select)] []]

end MessagePart

def Message.nodes (m : Message) : List Xml := m.parts.flatMap MessagePart.nodes

def Assertion.tree (a : Assertion) : Xml := .element "assert" [("test", a.test)] a.message.nodes

def RuleRecord.tree (r : RuleRecord) : Xml :=
  .element "rule" [("context", r.path)] (r.assertions.map Assertion.tree)

def NamespaceBinding.tree (n : NamespaceBinding) : Xml :=
  .element "ns" (presentAttributes [("prefix", n.nsPrefix), ("uri", n.uri)]) []

def Paragraph.tree (p : Paragraph) : Xml := .element "p" [] (p.message.toList.flatMap Xml.ofText)

def Assert.tree (a : Assert) : Xml :=
  .element "assert" (presentAttributes [("test", a.test)]) (a.message.toList.flatMap Message.nodes)

def Rule.tree (r : Rule) : Xml :=
  .element "rule" (presentAttributes [("id", r.id), ("context", r.context)])
    (r.asserts.map Assert.tree)

namespace PatternItem

def trees (constraints : Tree) : PatternItem → List Xml
  | paragraph p => [p.tree]
  | rule r => [r.tree]
  | scope root =>
    match constraints.rulesFrom root with
    | .ok records => records.map RuleRecord.tree
    | .error _ => []

end PatternItem

def Pattern.tree (p : Pattern) : Xml :=
  .element "pattern" (presentAttributes [("id", p.id), ("name", p.name)])
    (p.items.flatMap (PatternItem.trees p.constraints))

def SchemaItem.tree : SchemaItem → Xml
  | binding n => n.tree
  | paragraph p => p.tree
  | pattern p => p.tree

def Schema.tree (s : Schema) : Xml :=
  .element "schema" (presentAttributes [("id", s.id), ("title", s.title)])
    (s.items.map SchemaItem.tree)

namespace Document

/-- The nodes of a document: one tree, or those of a message that has no element around it. -/
def elements : Document → List Xml
  | schema s => [s.tree]
  | binding n => [n.tree]
  | paragraph p => [p.tree]
  | pattern p => [p.tree]
  | rule r => [r.tree]
  | assert a => [a.tree]
  | assertion a => [a.tree]
  | record r => [r.tree]
  | message m => m.nodes

end Document

/-! ### Markup and trees -/

namespace Markup

/-- The tokens of some pieces are those of some nodes. -/
def Depicts (content : List Markup) (nodes : List Xml) : Prop :=
  ∀ nsPrefix binding, content.flatMap (tokens nsPrefix binding) =
    Xml.tokensAll nsPrefix binding nodes

namespace Depicts

variable {content more : List Markup} {nodes others : List Xml} {name : String}
  {attributes : List Attribute}

theorem nil : Depicts [] [] := fun _ _ => rfl

theorem append (h : Depicts content nodes) (h' : Depicts more others) :
    Depicts (content ++ more) (nodes ++ others) := by
  intro nsPrefix binding
  rw [List.flatMap_append, h, h', Xml.tokensAll_append]

theorem flatMap {α : Type} {f : α → List Markup} {g : α → List Xml} {l : List α}
    (each : ∀ a ∈ l, Depicts (f a) (g a)) : Depicts (l.flatMap f) (l.flatMap g) :=
  related_flatMap nil append each

theorem map {α : Type} {f : α → Markup} {g : α → Xml} {l : List α}
    (each : ∀ a ∈ l, Depicts [f a] [g a]) : Depicts (l.map f) (l.map g) := by
  rw [List.map_eq_flatMap, List.map_eq_flatMap]
  exact flatMap each

theorem text (content : String) : Depicts [.text content] (Xml.ofText content) := by
  intro nsPrefix binding
  rw [List.flatMap_singleton, tokens, Xml.ofText]
  split <;> rfl

theorem empty : Depicts [.empty name attributes] [.element name attributes []] := fun _ _ => rfl

/-- An element without tokens inside has no nodes inside either, so both are one empty tag. -/
theorem element (complete : ∀ piece ∈ content, piece.outcome = .ok ())
    (h : Depicts content nodes) :
    Depicts [.element name attributes content] [.element name attributes nodes] := by
  intro nsPrefix binding
  rw [List.flatMap_singleton, tokens, tokensAll_of_complete complete, h, Xml.tokensAll,
    Xml.tokensAll, List.append_nil, Xml.tokens]

end Depicts

end Markup

open Markup (Depicts)

theorem Message.depicts (m : Message) : Depicts m.toMarkup m.nodes := by
  rw [toMarkup, nodes, List.map_eq_flatMap]
  refine .flatMap fun part _ => ?_
  cases part with
  | text content => exact .text content
  | valueOf select => exact .empty

theorem Assertion.depicts (a : Assertion) : Depicts [a.toMarkup] [a.tree] :=
  .element a.message.outcome_toMarkup a.message.depicts

theorem RuleRecord.depicts (r : RuleRecord) : Depicts [r.toMarkup] [r.tree] := by
  refine .element (fun piece member => ?_) (.map fun a _ => a.depicts)
  obtain ⟨a, -, rfl⟩ := List.mem_map.mp member
  exact a.outcome_toMarkup

theorem Paragraph.depicts (p : Paragraph) : Depicts [p.toMarkup] [p.tree] := by
  refine .element (fun piece member => ?_) ?_
  · obtain ⟨text, -, rfl⟩ := List.mem_map.mp member
    rfl
  · rw [List.map_eq_flatMap]
    exact .flatMap fun text _ => .text text

theorem Assert.depicts (a : Assert) : Depicts [a.toMarkup] [a.tree] := by
  obtain ⟨test, message⟩ := a
  cases message with
  | none => exact .element (by simp) .nil
  | some m =>
      refine .element m.outcome_toMarkup ?_
      rw [Option.toList_some, List.flatMap_singleton]
      exact m.depicts

theorem Rule.depicts (r : Rule) : Depicts [r.toMarkup] [r.tree] := by
  refine .element (fun piece member => ?_) (.map fun a _ => a.depicts)
  obtain ⟨a, -, rfl⟩ := List.mem_map.mp member
  exact a.outcome_toMarkup

theorem PatternItem.depicts {constraints : Tree} (item : PatternItem)
    (known : ∀ root, item = .scope root → ∃ records, constraints.rulesFrom root = .ok records) :
    Depicts (item.toMarkup constraints) (item.trees constraints) := by
  cases item with
  | paragraph p => exact p.depicts
  | rule r => exact r.depicts
  | scope root =>
      obtain ⟨records, flat⟩ := known root rfl
      rw [toMarkup, trees]
      simp only [flat]
      exact .map fun r _ => r.depicts

namespace Pattern

variable {p : Pattern}

theorem Sound.depicts (h : p.Sound) : Depicts [p.toMarkup] [p.tree] := by
  refine .element ?_ (.flatMap fun item member => item.depicts ?_)
  · exact Markup.outcomeAll_eq_ok_iff.mp h.outcome_toMarkup
  · rintro root rfl
    exact h.exists_rules member

end Pattern

theorem Schema.depicts {s : Schema} (sound : ∀ p ∈ s.patterns, p.Sound) :
    Depicts [s.toMarkup] [s.tree] := by
  refine .element ?_ (.map fun item member => ?_)
  · exact Markup.outcomeAll_eq_ok_iff.mp (Schema.outcome_toMarkup sound)
  · cases item with
    | binding n => exact .empty
    | paragraph p => exact p.depicts
    | pattern p =>
        have listed : p ∈ s.patterns := List.mem_filterMap.mpr ⟨.pattern p, member, rfl⟩
        exact (sound p listed).depicts

namespace Document

variable {d : Document} {o : OutputOptions}

/-- The markup of a document has the tokens of its nodes. -/
theorem depicts (reachable : ∀ p ∈ d.patterns, p.Reachable) : Depicts d.toMarkup d.elements := by
  cases d with
  | schema s => exact Schema.depicts fun p member => (reachable p member).sound
  | binding n => exact .empty
  | paragraph p => exact p.depicts
  | pattern p => exact (reachable p (.head _)).sound.depicts
  | rule r => exact r.depicts
  | assert a => exact a.depicts
  | assertion a => exact a.depicts
  | record r => exact r.depicts
  | message m => exact m.depicts

/-- Under usable options a document is the text of the tokens of its nodes. -/
theorem toXml_eq_typeset (valid : o.validate = .ok ())
    (reachable : ∀ p ∈ d.patterns, p.Reachable) :
    d.toXml o = .ok (o.typeset (Xml.tokensAll o.nsPrefix o.binding d.elements)) := by
  have complete := outcome_toMarkup reachable
  rw [toXml, Markup.render_of_complete valid complete, Markup.tokensAll_of_complete complete,
    depicts reachable]

/-- What goes through the sink comes out as the recursion down the tree prints it: the declaration
if there is to be one, the nodes of the document, and a last line break if lines are broken. The
first tag of the nodes starts a line only behind a declaration. -/
theorem toXml_eq_print (valid : o.validate = .ok ()) (reachable : ∀ p ∈ d.patterns, p.Reachable) :
    d.toXml o =
      .ok (o.declaration ++ Xml.printAll o 0 o.xmlDeclaration d.elements ++ o.ending) := by
  rw [toXml_eq_typeset valid reachable, o.typeset_tokensAll, OutputOptions.print]

/-- A pattern with an empty paragraph, a rule whose message starts with a value, and a scope. -/
def mixed : Document := .pattern (.run 7
  [.setId (some "p"), .paragraph ⟨some ""⟩,
    .rule ⟨none, some "a", [⟨some "b", some (.ofParts [.valueOf "c", .text "<"])⟩, ⟨none, none⟩]⟩,
    .scope "/", .child ⟨7, 0⟩ "d" .requiredPresence])

/-- One tab for each level, under a short namespace. -/
def tabbed : OutputOptions := ⟨1, '\t', true, "s", "urn:s"⟩

theorem toXml_eq_print_mixed :
    tabbed.validate = .ok () ∧ (∀ p ∈ mixed.patterns, p.Reachable) ∧
    mixed.toXml tabbed = .ok ("<?xml version=\"1.0\" encoding=\"UTF-8\"?>\n" ++
      "<s:pattern xmlns:s=\"urn:s\" id=\"p\">\n" ++
      "\t<s:p/>\n" ++
      "\t<s:rule context=\"a\">\n" ++
      "\t\t<s:assert test=\"b\">\n" ++
      "\t\t\t<s:value-of select=\"c\"/>&lt;</s:assert>\n" ++
      "\t\t<s:assert/>\n" ++
      "\t</s:rule>\n" ++
      "\t<s:rule context=\"/\">\n" ++
      "\t\t<s:assert test=\"count(d) &gt;= 1\">element \"d\" is REQUIRED</s:assert>\n" ++
      "\t</s:rule>\n" ++
      "</s:pattern>\n") := by
  have valid : tabbed.validate = .ok () := by decide
  have reachable : ∀ p ∈ mixed.patterns, p.Reachable := by
    intro p member
    rw [List.mem_singleton.mp member]
    exact ⟨7, _, rfl⟩
  refine ⟨valid, reachable, ?_⟩
  rw [toXml_eq_print valid reachable]
  decide +kernel

end Document

end Schematron
