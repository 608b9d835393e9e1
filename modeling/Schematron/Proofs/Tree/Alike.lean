import Mathlib.Data.List.Forall2
import Schematron.Proofs.Tree.Rules

/-!
# Trees of the same shape

Two trees may hold the same constraints although their nodes stand in different
places, have identifiers of different tags and are mixed with different nodes
that nothing leads to any more. `Tree.Alike` is a relation between the
identifiers of two trees that the roots, the parents and the children respect.

Rules do not mention identifiers, so trees that are alike have the same rules.
Nothing is asked of nodes that the relation leaves out.
-/

namespace List

variable {α β γ : Type} {S : α → β → Prop}

theorem filterMap_eq_of_forall₂ {f : α → Option γ} {g : β → Option γ} {l : List α} {l' : List β}
    (pairs : Forall₂ S l l') (same : ∀ a b, S a b → f a = g b) : l.filterMap f = l'.filterMap g := by
  induction pairs with
  | nil => rfl
  | cons pair _ ih => rw [filterMap_cons, filterMap_cons, same _ _ pair, ih]

theorem flatMap_eq_of_forall₂ {f : α → List γ} {g : β → List γ} {l : List α} {l' : List β}
    (pairs : Forall₂ S l l') (same : ∀ a b, S a b → f a = g b) : l.flatMap f = l'.flatMap g := by
  induction pairs with
  | nil => rfl
  | cons pair _ ih => rw [flatMap_cons, flatMap_cons, same _ _ pair, ih]

end List

namespace Schematron

variable {R : NodeId → NodeId → Prop}

/-- Children in which related nodes are found have related entries, one for one. -/
theorem Children.forall₂_entries {cs cs' : Children}
    (same : ∀ context, Option.Rel R (cs.get? context) (cs'.get? context)) :
    List.Forall₂ (fun a b => a.1 = b.1 ∧ R a.2 b.2) cs.entries cs'.entries := by
  -- The entries of `cs` become those of `cs'` if every node is replaced by its counterpart.
  have partners : cs'.entries =
      cs.entries.map fun entry => (entry.1, (cs'.get? entry.1).getD entry.2) := by
    refine eq_of_mem_iff cs'.ascending (List.pairwise_map.mpr cs.ascending) ?_
    rintro ⟨context, id'⟩
    rw [mem_entries_iff, List.mem_map]
    constructor
    · intro found'
      have related := same context
      rw [found'] at related
      cases found : cs.get? context with
      | none =>
          rw [found] at related
          cases related
      | some id =>
          refine ⟨(context, id), cs.mem_entries_iff.mpr found, ?_⟩
          simp [found']
    · rintro ⟨⟨context, id⟩, member, pair⟩
      have related := same context
      rw [cs.mem_entries_iff.mp member] at related
      cases found' : cs'.get? context with
      | none =>
          rw [found'] at related
          cases related
      | some other =>
          simp only [found', Option.getD_some] at pair
          cases pair
          exact found'
  rw [partners, List.forall₂_map_right_iff, List.forall₂_same]
  rintro ⟨context, id⟩ member
  have related := same context
  rw [cs.mem_entries_iff.mp member] at related
  cases found' : cs'.get? context with
  | none =>
      rw [found'] at related
      cases related
  | some id' =>
      rw [found'] at related
      cases related with
      | some pair => exact ⟨rfl, pair⟩

/-- Nodes that say the same, with related parents and children. -/
structure Node.Alike (R : NodeId → NodeId → Prop) (n n' : Node) : Prop where
  context : n.context = n'.context
  kind : n.kind = n'.kind
  parent : Option.Rel R n.parent n'.parent
  child : ∀ context, Option.Rel R (n.children.get? context) (n'.children.get? context)

namespace Tree

/-- A relation between the identifiers of two trees under which the trees have the same shape. -/
structure Alike (R : NodeId → NodeId → Prop) (t t' : Tree) : Prop where
  roots : List.Forall₂ R t.roots t'.roots
  node : ∀ {id id'}, R id id' →
    ∃ n n', t.get? id = some n ∧ t'.get? id' = some n' ∧ Node.Alike R n n'

namespace Alike

variable {t t' : Tree} {id id' : NodeId}

theorem path_eq (alike : t.Alike R t') (h : t.Sound) (h' : t'.Sound) (related : R id id') :
    t.path id = t'.path id' := by
  obtain ⟨n, -, found, -, -⟩ := alike.node related
  refine h.up_induction (motive := fun id => ∀ id', R id id' → t.path id = t'.path id')
    ?_ ?_ id n found id' related
  · intro id n found root id' related
    obtain ⟨m, n', mem, found', same⟩ := alike.node related
    rw [found] at mem
    cases mem
    have parents := same.parent
    rw [root] at parents
    cases root' : n'.parent with
    | none => rw [path_of_root found root, path_of_root found' root', same.context]
    | some p' =>
        rw [root'] at parents
        cases parents
  · intro id n p found parent ih id' related
    obtain ⟨m, n', mem, found', same⟩ := alike.node related
    rw [found] at mem
    cases mem
    have parents := same.parent
    rw [parent] at parents
    cases parent' : n'.parent with
    | none =>
        rw [parent'] at parents
        cases parents
    | some p' =>
        rw [parent'] at parents
        cases parents with
        | some above =>
            rw [path_of_child h found parent, path_of_child h' found' parent', ih p' above,
              same.context]

/-- The walks from related nodes go the same ways and meet related nodes. -/
theorem forall₂_visits (alike : t.Alike R t') (h : t.Sound) (h' : t'.Sound)
    (related : R id id') :
    List.Forall₂ (fun a b => a.1 = b.1 ∧ R a.2 b.2) (t.visits id) (t'.visits id') := by
  obtain ⟨n, -, found, -, -⟩ := alike.node related
  refine h.down_induction (motive := fun id => ∀ id', R id id' →
    List.Forall₂ (fun a b => a.1 = b.1 ∧ R a.2 b.2) (t.visits id) (t'.visits id'))
    ?_ id n found id' related
  intro id n found ih id' related
  obtain ⟨m, n', mem, found', same⟩ := alike.node related
  rw [found] at mem
  cases mem
  rw [h.visits_eq found, h'.visits_eq found']
  refine .cons ⟨rfl, related⟩ ?_
  have below : ∀ entries entries' : List (String × NodeId),
      entries ⊆ n.children.entries →
      List.Forall₂ (fun a b => a.1 = b.1 ∧ R a.2 b.2) entries entries' →
      List.Forall₂ (fun a b => a.1 = b.1 ∧ R a.2 b.2)
        (entries.flatMap fun entry =>
          (t.visits entry.2).map fun visit => (entry.1 :: visit.1, visit.2))
        (entries'.flatMap fun entry =>
          (t'.visits entry.2).map fun visit => (entry.1 :: visit.1, visit.2)) := by
    intro entries entries' inside pairs
    induction pairs with
    | nil => exact .nil
    | @cons entry entry' rest rest' pair _ rest_ih =>
        obtain ⟨context, child⟩ := entry
        obtain ⟨context', child'⟩ := entry'
        obtain ⟨rfl, children⟩ := pair
        have linked := n.children.mem_entries_iff.mp (inside (.head rest))
        refine List.rel_append ?_ (rest_ih fun entry later => inside (.tail _ later))
        rw [List.forall₂_map_left_iff, List.forall₂_map_right_iff]
        refine (ih context child linked child' children).imp ?_
        rintro ⟨way, last⟩ ⟨way', last'⟩ ⟨rfl, ends⟩
        exact ⟨rfl, ends⟩
  exact below _ _ (fun _ member => member) (Children.forall₂_entries same.child)

theorem ruleOf?_eq (alike : t.Alike R t') (h : t.Sound) (h' : t'.Sound) (related : R id id') :
    t.ruleOf? id = t'.ruleOf? id' := by
  obtain ⟨n, n', found, found', same⟩ := alike.node related
  obtain ⟨path, climbed⟩ := h.exists_path found
  have climbed' : t'.path id' = .ok path := by rw [← alike.path_eq h h' related, climbed]
  have assertions : n.children.entries.filterMap t.assertionOf? =
      n'.children.entries.filterMap t'.assertionOf? := by
    refine List.filterMap_eq_of_forall₂ (Children.forall₂_entries same.child) ?_
    rintro ⟨context, child⟩ ⟨context', child'⟩ ⟨rfl, children⟩
    obtain ⟨m, m', below, below', kinds⟩ := alike.node children
    simp only [assertionOf?, below, below', Option.bind_some, kinds.kind]
  have lists : (t.ruleOf? id).toList = (t'.ruleOf? id').toList := by
    rw [← Sound.ruleList_eq found climbed, ← Sound.ruleList_eq found' climbed', assertions]
  cases rule : t.ruleOf? id <;> cases rule' : t'.ruleOf? id' <;> simp_all

/-- The rules along walks from related nodes are the same. -/
theorem rules_along_eq (alike : t.Alike R t') (h : t.Sound) (h' : t'.Sound)
    (related : R id id') :
    t.visitedRules id = t'.visitedRules id' := by
  refine List.filterMap_eq_of_forall₂ (alike.forall₂_visits h h' related) ?_
  rintro ⟨way, last⟩ ⟨way', last'⟩ ⟨-, ends⟩
  exact alike.ruleOf?_eq h h' ends

theorem rulesFrom_eq (alike : t.Alike R t') (h : t.Sound) (h' : t'.Sound) (related : R id id') :
    t.rulesFrom id = t'.rulesFrom id' := by
  obtain ⟨n, n', found, found', -⟩ := alike.node related
  rw [h.rulesFrom_eq found, h'.rulesFrom_eq found', alike.rules_along_eq h h' related]

/-- Trees of the same shape have the same rules. -/
theorem rules_eq (alike : t.Alike R t') (h : t.Sound) (h' : t'.Sound) : t.rules = t'.rules := by
  rw [h.rules_eq, h'.rules_eq]
  refine congrArg Except.ok (List.flatMap_eq_of_forall₂ alike.roots ?_)
  intro root root' related
  exact alike.rules_along_eq h h' related

end Alike

end Tree

end Schematron
