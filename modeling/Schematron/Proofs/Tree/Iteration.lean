import Schematron.Proofs.Tree.Children
import Schematron.Tree.Rules

/-!
# Children that are listed in any order

A tree keeps the children of a node in the order of their contexts. A map that
hands them out in some other order, which may be another one for every node, is
as good: the rules sort what they are handed. `rulesVia` computes the rules from
such listings, and it computes the same rules.
-/

namespace Schematron

namespace Tree

/-- For each node some listing of its children, in any order. -/
def Lists (t : Tree) (listed : NodeId → List (String × NodeId)) : Prop :=
  ∀ id n, t.get? id = some n → (listed id).Perm n.children.entries

/-- The rules of a node and of everything below it, with the children of every node taken from a
listing and sorted by their contexts. -/
def rulesFromVia (t : Tree) (listed : NodeId → List (String × NodeId)) (id : NodeId) :
    Except TreeError (List RuleRecord) := do
  let node ← t.node id
  if node.isLeaf then return []
  let children := Children.sortByContext (listed id)
  let assertions ← children.mapM fun (context, child) => do
    return Assertion.ofKind? context (← t.node child).kind
  let path ← t.path id
  let nested ← children.mapM fun (_, child) =>
    if _h : id.index < child.index ∧ child.index < t.nodes.size then t.rulesFromVia listed child
    else .error (.unknownNode child)
  return ruleList path (assertions.filterMap fun assertion => assertion) ++ nested.flatten
termination_by t.nodes.size - id.index

/-- The rules of the whole tree from such listings, root by root. -/
def rulesVia (t : Tree) (listed : NodeId → List (String × NodeId)) :
    Except TreeError (List RuleRecord) := do
  return (← t.roots.mapM (t.rulesFromVia listed)).flatten

variable {t : Tree} {listed : NodeId → List (String × NodeId)}

/-- The rules from a node on do not depend on the listings. -/
theorem rulesFromVia_eq (lists : t.Lists listed) (id : NodeId) :
    t.rulesFromVia listed id = t.rulesFrom id := by
  generalize room : t.nodes.size - id.index = bound
  induction bound using Nat.strongRecOn generalizing id with
  | ind bound ih =>
      rw [rulesFromVia, rulesFrom]
      cases found : t.node id with
      | error e => rfl
      | ok n =>
          have sorted : Children.sortByContext (listed id) = n.children.entries :=
            Children.sortByContext_of_perm (lists id n (node_eq_ok_iff.mp found))
          have below : (fun entry : String × NodeId =>
              if _h : id.index < entry.2.index ∧ entry.2.index < t.nodes.size then
                t.rulesFromVia listed entry.2
              else .error (.unknownNode entry.2)) = fun entry =>
              if _h : id.index < entry.2.index ∧ entry.2.index < t.nodes.size then
                t.rulesFrom entry.2
              else .error (.unknownNode entry.2) := by
            funext entry
            split
            · next later => exact ih (t.nodes.size - entry.2.index) (by omega) entry.2 rfl
            · rfl
          simp only [sorted, below, assertionsUnder, bind_assoc, pure_bind]
          rfl

theorem rulesVia_eq (lists : t.Lists listed) : t.rulesVia listed = t.rules := by
  have same : t.rulesFromVia listed = t.rulesFrom := funext fun id => rulesFromVia_eq lists id
  rw [rulesVia, rules, same]

end Tree

end Schematron
