import Schematron.Assertion
import Schematron.Tree.Path

/-!
# Rules of a tree

A tree of constraints denests into a flat list of rules. Every node with
children makes one rule for its absolute path, which holds the assertions of the
children in ascending order of their contexts; a rule without assertions is left
out. The rule of a node comes before the rules of its children, and the roots
come in the order of their declaration.

A child is declared after its parent, so the descent passes from each place to a
larger one and ends with the array.
-/

namespace Schematron

/-- The assertions that hold wherever a location path leads. -/
structure RuleRecord where
  /-- The absolute path the rule applies to. -/
  path : String
  assertions : List Assertion
  deriving DecidableEq, Repr

namespace Tree

/-- The assertions of a node's children. Scopes among them assert nothing. -/
def assertionsUnder (t : Tree) (node : Node) : Except TreeError (List Assertion) := do
  let assertions ← node.children.entries.mapM fun (context, child) => do
    return Assertion.ofKind? context (← t.node child).kind
  return assertions.filterMap id

/-- The rule of a node as a list, which is empty when there is nothing to assert. -/
def ruleList (path : String) (assertions : List Assertion) : List RuleRecord :=
  if assertions.isEmpty then [] else [⟨path, assertions⟩]

/-- The rules of a node and of everything below it. -/
def rulesFrom (t : Tree) (id : NodeId) : Except TreeError (List RuleRecord) := do
  let node ← t.node id
  if node.isLeaf then return []
  let assertions ← t.assertionsUnder node
  let path ← t.path id
  let nested ← node.children.entries.mapM fun (_, child) =>
    if _h : id.index < child.index ∧ child.index < t.nodes.size then t.rulesFrom child
    else .error (.unknownNode child)
  return ruleList path assertions ++ nested.flatten
termination_by t.nodes.size - id.index

/-- The rules of the whole tree, root by root. -/
def rules (t : Tree) : Except TreeError (List RuleRecord) := do
  return (← t.roots.mapM t.rulesFrom).flatten

end Tree

end Schematron
