import Mathlib.Logic.Relation
import Schematron.Proofs.Tree.Arena

/-!
# What the links of a tree add up to

`Tree.Sound` ties the parents, the children and the roots of a tree together.
`Tree.Intact` adds what follows from it for somebody who only follows links: a
context is taken exactly if some node was declared under it, every child leads
back to its parent, and no links form a cycle, neither those from parents to
children nor those from children to parents.
-/

namespace Schematron

namespace Tree

/-- A link leads from one node down to another: the second declares the first as its parent, or
the first has the second among its children. -/
def Above (t : Tree) (p q : NodeId) : Prop :=
  (∃ n, t.get? q = some n ∧ n.parent = some p) ∨
    ∃ n context, t.get? p = some n ∧ n.children.get? context = some q

/-- Nodes, parents, children and roots agree, and their links form trees. -/
structure Intact (t : Tree) : Prop extends Sound t where
  /-- No root is listed twice. -/
  roots_once : t.roots.Nodup
  /-- A context names a child exactly if a node was declared under it. -/
  child_exists_iff : ∀ {p n context}, t.get? p = some n →
    ((∃ q, n.children.get? context = some q) ↔ ∃ q, t.IsChild p context q)
  /-- A child is a later node, and says itself whose child it is and under which context. -/
  child_found : ∀ {p n context q}, t.get? p = some n → n.children.get? context = some q →
    ∃ m, t.get? q = some m ∧ p.index < q.index ∧ m.context = context ∧ m.parent = some p
  acyclic : ∀ id, ¬ Relation.TransGen t.Above id id

variable {t : Tree} {p q : NodeId} {context : String}

/-- Of the nodes that were declared under a context, one was declared last. -/
theorem exists_isLastChild (child : t.IsChild p context q) :
    ∃ last, t.IsLastChild p context last := by
  -- Each node that is not the last one has a later one, and the places end with the tree.
  generalize room : t.size - q.index = bound
  induction bound using Nat.strongRecOn generalizing q with
  | ind bound ih =>
      by_cases last : ∀ other, t.IsChild p context other → other.index ≤ q.index
      · exact ⟨q, child, last⟩
      · obtain ⟨other, not_before⟩ := Classical.not_forall.mp last
        obtain ⟨child', later⟩ := Classical.not_imp.mp not_before
        have inside : other.index < t.size := by
          obtain ⟨n, found, -⟩ := child'
          exact (issued_of_get? found).2
        exact ih (t.size - other.index) (by omega) child' rfl

namespace Sound

theorem index_lt_of_above (h : t.Sound) (above : t.Above p q) : p.index < q.index := by
  rcases above with ⟨n, found, parent⟩ | ⟨n, context, found, linked⟩
  · exact (h.parent_earlier found parent).2
  · obtain ⟨m, -, -, -, later⟩ := h.child_later found linked
    exact later

theorem index_lt_of_transGen (h : t.Sound) (way : Relation.TransGen t.Above p q) :
    p.index < q.index := by
  induction way with
  | single above => exact h.index_lt_of_above above
  | tail _ above ih => exact Nat.lt_trans ih (h.index_lt_of_above above)

/-- Agreement is all that it takes. -/
theorem intact (h : t.Sound) : t.Intact where
  toSound := h
  roots_once := by
    refine h.roots_ascending.imp ?_
    rintro a b lt rfl
    exact Nat.lt_irrefl _ lt
  child_exists_iff {p n context} found := by
    constructor
    · rintro ⟨q, linked⟩
      exact ⟨q, ((h.child_iff found).mp linked).1⟩
    · rintro ⟨q, child⟩
      obtain ⟨last, declared_last⟩ := exists_isLastChild child
      exact ⟨last, (h.child_iff found).mpr declared_last⟩
  child_found {p n context q} found linked := by
    obtain ⟨m, mem, parent, named, later⟩ := h.child_later found linked
    exact ⟨m, mem, later, named, parent⟩
  acyclic id cycle := Nat.lt_irrefl _ (h.index_lt_of_transGen cycle)

end Sound

end Tree

end Schematron
