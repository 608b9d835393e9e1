import Schematron.Proofs.Document.Reachable

/-!
# Documents from built parts

The values of a document may be any strings, but its messages and its patterns
can only be made by their operations. `Document.Built` says that they were. The
rules that a tree denests into hold such messages of their own accord.
-/

namespace Schematron

def Assert.Built (a : Assert) : Prop := ∀ m ∈ a.message, m.Built

def Rule.Built (r : Rule) : Prop := ∀ a ∈ r.asserts, a.Built

def Assertion.Built (a : Assertion) : Prop := a.message.Built

def RuleRecord.Built (r : RuleRecord) : Prop := ∀ a ∈ r.assertions, a.Built

/-- A history leads to the pattern, and the messages of its hand-written rules were built. -/
structure Pattern.Built (p : Pattern) : Prop where
  reachable : p.Reachable
  rules : ∀ r, .rule r ∈ p.items → r.Built

def Schema.Built (s : Schema) : Prop := ∀ p ∈ s.patterns, p.Built

/-- The document has a root element, and its parts were built. A message alone has no root. -/
def Document.Built : Document → Prop
  | .schema s => s.Built
  | .binding _ => True
  | .paragraph _ => True
  | .pattern p => p.Built
  | .rule r => r.Built
  | .assert a => a.Built
  | .assertion a => a.Built
  | .record r => r.Built
  | .message _ => False

/-! ### Messages of constraints -/

theorem Assertion.built_of_ofKind? {context : String} {kind : Kind} {a : Assertion}
    (made : ofKind? context kind = some a) : a.Built := by
  obtain ⟨requirement, presence | value⟩ := message_of_ofKind? made
  · rw [Built, presence]
    exact Message.Built.empty.add (.text _)
  · rw [Built, value]
    exact ((Message.Built.empty.add (.text _)).add (.valueOf _)).add (.text _)

theorem Assertion.Made.built {a : Assertion} (made : a.Made) : a.Built := by
  obtain ⟨context, kind, made⟩ := made
  exact built_of_ofKind? made

/-- A scope of a sound pattern is written as rules with built messages. -/
theorem Pattern.Sound.exists_built_rules {p : Pattern} (h : p.Sound) {root : NodeId}
    (member : .scope root ∈ p.items) :
    ∃ records, p.constraints.rulesFrom root = .ok records ∧ ∀ r ∈ records, r.Built := by
  obtain ⟨records, flat⟩ := h.exists_rules member
  refine ⟨records, flat, fun r listed a inside => ?_⟩
  exact (Tree.made_of_rulesFrom flat r listed a inside).built

end Schematron
