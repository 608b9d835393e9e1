import Schematron.Proofs.Tree.Path
import Schematron.Proofs.Tree.Walk
import Schematron.Tree.Rules

/-!
# Rules along a walk

The rules of a sound tree are computed without failure, and they are the rules
of the visited nodes one after the other. `ruleOf?` is the rule of a single node:
its path with the assertions of the children that are no scopes, and nothing if
there is no such child.

Whatever the tree, the assertions in its rules are those of constraints.
-/

namespace Schematron

namespace Tree

/-- The children of a node that assert something, with their contexts. -/
def asserted (t : Tree) (id : NodeId) : List (String × NodeId) :=
  match t.get? id with
  | none => []
  | some n => n.children.entries.filter fun entry =>
      (t.get? entry.2).any fun child => child.kind ≠ .scope

/-- What a child asserts in the rule of its parent. -/
def assertionOf? (t : Tree) (entry : String × NodeId) : Option Assertion :=
  (t.get? entry.2).bind fun child => Assertion.ofKind? entry.1 child.kind

def ruleOf? (t : Tree) (id : NodeId) : Option RuleRecord :=
  if t.asserted id = [] then none
  else (t.path id).toOption.map fun path => ⟨path, (t.asserted id).filterMap t.assertionOf?⟩

/-- The rules of the nodes visited from a node on. -/
def visitedRules (t : Tree) (id : NodeId) : List RuleRecord :=
  (t.visits id).filterMap fun visit => t.ruleOf? visit.2

variable {t : Tree} {id child : NodeId} {n : Node} {context : String}

/-- A child asserts something exactly if it is found under its context and is no scope. -/
theorem mem_asserted_iff : (context, child) ∈ t.asserted id ↔
    ∃ n m, t.get? id = some n ∧ n.children.get? context = some child ∧
      t.get? child = some m ∧ m.kind ≠ .scope := by
  rw [asserted]
  cases found : t.get? id with
  | none => simp
  | some n =>
      rw [List.mem_filter, Children.mem_entries_iff]
      cases below : t.get? child <;> simp

theorem asserted_ascending (t : Tree) (id : NodeId) : Ascending (t.asserted id) := by
  rw [asserted]
  split
  · exact .nil
  · next n _ => exact n.children.ascending.sublist List.filter_sublist

/-- Scopes contribute nothing, so only the other children count. -/
theorem filterMap_asserted (found : t.get? id = some n) :
    (t.asserted id).filterMap t.assertionOf? = n.children.entries.filterMap t.assertionOf? := by
  simp only [asserted, found, List.filterMap_filter]
  apply List.filterMap_congr
  rintro ⟨context, child⟩ -
  split
  · rfl
  · next silent =>
    cases below : t.get? child with
    | none => simp [assertionOf?, below]
    | some m =>
        have scope : m.kind = .scope := by simpa [below] using silent
        simp [assertionOf?, below, scope, Assertion.ofKind?]

/-- Every child that counts has an assertion. -/
theorem exists_assertion {entry : String × NodeId} (member : entry ∈ t.asserted id) :
    ∃ a, t.assertionOf? entry = some a := by
  obtain ⟨n, m, -, -, below, kind⟩ := mem_asserted_iff.mp member
  rw [assertionOf?, below]
  exact Option.ne_none_iff_exists'.mp fun silent => kind (Assertion.ofKind?_eq_none_iff.mp silent)

theorem filterMap_asserted_eq_nil_iff :
    (t.asserted id).filterMap t.assertionOf? = [] ↔ t.asserted id = [] := by
  rw [List.filterMap_eq_nil_iff]
  constructor
  · intro silent
    apply List.eq_nil_iff_forall_not_mem.mpr
    intro entry member
    obtain ⟨a, speaks⟩ := exists_assertion member
    rw [silent entry member] at speaks
    cases speaks
  · intro silent entry member
    rw [silent] at member
    cases member

namespace Sound

/-- The assertions under a node are those of its children in their order. -/
theorem assertionsUnder_eq (h : t.Sound) (found : t.get? id = some n) :
    t.assertionsUnder n = .ok (n.children.entries.filterMap t.assertionOf?) := by
  have each : ∀ entry ∈ n.children.entries,
      (do return Assertion.ofKind? entry.1 (← t.node entry.2).kind) =
        Except.ok (t.assertionOf? entry) := by
    rintro ⟨context, child⟩ member
    obtain ⟨m, below, -⟩ := h.child_later found ((Children.mem_entries_iff _).mp member)
    rw [node_eq_ok_iff.mpr below]
    simp [assertionOf?, below, bind, Except.bind, pure, Except.pure]
  rw [assertionsUnder, Except.mapM_of_forall_ok each]
  simp [bind, Except.bind, pure, Except.pure, List.filterMap_map]

/-- The rule of a node in the form in which it is put before the rules below. -/
theorem ruleList_eq (found : t.get? id = some n) {path : String} (climbed : t.path id = .ok path) :
    ruleList path (n.children.entries.filterMap t.assertionOf?) = (t.ruleOf? id).toList := by
  rw [← filterMap_asserted found, ruleList, ruleOf?, climbed]
  by_cases silent : t.asserted id = []
  · simp [silent]
  · have speaks := mt filterMap_asserted_eq_nil_iff.mp silent
    rw [if_neg silent, if_neg (mt List.isEmpty_iff.mp speaks)]
    rfl

/-- The rules from a node on are those of the visited nodes. -/
theorem rulesFrom_eq (h : t.Sound) (found : t.get? id = some n) :
    t.rulesFrom id = .ok (t.visitedRules id) := by
  refine h.down_induction (motive := fun id => t.rulesFrom id = .ok (t.visitedRules id)) ?_ id n
    found
  intro id n found ih
  obtain ⟨path, climbed⟩ := h.exists_path found
  have below : ∀ entry ∈ n.children.entries,
      (if id.index < entry.2.index ∧ entry.2.index < t.nodes.size then t.rulesFrom entry.2
        else .error (.unknownNode entry.2)) = .ok (t.visitedRules entry.2) := by
    rintro ⟨context, child⟩ member
    have linked := (Children.mem_entries_iff _).mp member
    obtain ⟨m, mem, -, -, later⟩ := h.child_later found linked
    rw [if_pos ⟨later, (issued_of_get? mem).2⟩]
    exact ih context child linked
  rw [rulesFrom, node_eq_ok_iff.mpr found, visitedRules, h.visits_eq found, List.filterMap_cons]
  by_cases leaf : n.isLeaf = true
  · have no_entries : n.children.entries = [] := List.isEmpty_iff.mp leaf
    have silent : t.ruleOf? id = none := if_pos (by simp [asserted, found, no_entries])
    simp [bind, Except.bind, pure, Except.pure, leaf, no_entries, silent]
  · simp only [bind, Except.bind, pure, Except.pure, leaf, h.assertionsUnder_eq found, climbed,
      dite_eq_ite, Except.mapM_of_forall_ok below, ruleList_eq found climbed]
    rw [if_neg (by simp), ← List.flatMap_def, List.filterMap_flatMap]
    cases rule : t.ruleOf? id <;> simp [List.filterMap_map, visitedRules]

theorem mapM_rulesFrom_eq (h : t.Sound) :
    t.roots.mapM t.rulesFrom = .ok (t.roots.map t.visitedRules) := by
  refine Except.mapM_of_forall_ok fun root member => ?_
  obtain ⟨n, found, -⟩ := h.mem_roots_iff.mp member
  exact h.rulesFrom_eq found

/-- The rules of a tree are those of the nodes visited from its roots. -/
theorem rules_eq (h : t.Sound) : t.rules = .ok (t.roots.flatMap t.visitedRules) := by
  rw [rules, h.mapM_rulesFrom_eq]
  rfl

end Sound

end Tree

/-- The assertion is that of some constraint. -/
def Assertion.Made (a : Assertion) : Prop := ∃ context kind, ofKind? context kind = some a

namespace Tree

variable {t : Tree} {id : NodeId} {records : List RuleRecord}

theorem made_of_assertionsUnder {n : Node} {assertions : List Assertion}
    (found : t.assertionsUnder n = .ok assertions) : ∀ a ∈ assertions, a.Made := by
  obtain ⟨options, mapped, same⟩ := Except.bind_eq_ok_iff.mp found
  cases same
  intro a member
  obtain ⟨_, inside, rfl⟩ := List.mem_filterMap.mp member
  obtain ⟨⟨context, child⟩, -, made⟩ := Except.exists_of_mem_mapM mapped (some a) inside
  obtain ⟨m, -, made⟩ := Except.bind_eq_ok_iff.mp made
  exact ⟨context, m.kind, Except.ok.inj made⟩

theorem made_of_rulesFrom (flat : t.rulesFrom id = .ok records) :
    ∀ record ∈ records, ∀ a ∈ record.assertions, a.Made := by
  induction id using rulesFrom.induct t generalizing records with
  | case1 id ih =>
      rw [rulesFrom] at flat
      obtain ⟨n, -, flat⟩ := Except.bind_eq_ok_iff.mp flat
      split at flat
      · cases flat
        simp
      · obtain ⟨assertions, under, flat⟩ := Except.bind_eq_ok_iff.mp flat
        obtain ⟨path, -, flat⟩ := Except.bind_eq_ok_iff.mp flat
        obtain ⟨nested, below, flat⟩ := Except.bind_eq_ok_iff.mp flat
        cases flat
        intro record member
        rcases List.mem_append.mp member with own | inside
        · rw [ruleList] at own
          split at own
          · cases own
          · rw [List.mem_singleton.mp own]
            exact made_of_assertionsUnder under
        · obtain ⟨deeper, listed, inside⟩ := List.mem_flatten.mp inside
          obtain ⟨⟨context, child⟩, -, flat⟩ := Except.exists_of_mem_mapM below deeper listed
          simp only at flat
          split at flat
          · next later => exact ih child later flat record inside
          · cases flat

theorem made_of_rules (flat : t.rules = .ok records) :
    ∀ record ∈ records, ∀ a ∈ record.assertions, a.Made := by
  obtain ⟨nested, mapped, same⟩ := Except.bind_eq_ok_iff.mp flat
  cases same
  intro record member
  obtain ⟨records, listed, inside⟩ := List.mem_flatten.mp member
  obtain ⟨root, -, flat⟩ := Except.exists_of_mem_mapM mapped records listed
  exact made_of_rulesFrom flat record inside

end Tree

end Schematron
