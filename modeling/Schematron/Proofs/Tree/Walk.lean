import Schematron.Proofs.Tree.Arena
import Schematron.Proofs.Tree.Children

/-!
# Walking down a tree

`Leads` follows the children of a tree: a way is the list of the contexts by
which a node is reached from another one. In a sound tree a node is reached by
one way at most, since the last step of a way is settled by the node's parent.

`visits` walks through everything below a node. It meets exactly the nodes that
some way leads to, in the lexicographic order of the ways, where a way comes
before those that continue it.
-/

namespace Schematron

namespace Tree

/-- The children lead from one node to another by a way of contexts. -/
inductive Leads (t : Tree) : NodeId → List String → NodeId → Prop where
  | here {id : NodeId} {n : Node} : t.get? id = some n → Leads t id [] id
  | down {id child last : NodeId} {n : Node} {context : String} {way : List String} :
      t.get? id = some n → n.children.get? context = some child → Leads t child way last →
      Leads t id (context :: way) last

/-- Every node below a node with the way to it, a node before its children. -/
def visits (t : Tree) (id : NodeId) : List (List String × NodeId) :=
  match t.get? id with
  | none => []
  | some n =>
    ([], id) :: n.children.entries.flatMap fun (context, child) =>
      if _h : id.index < child.index ∧ child.index < t.size then
        (t.visits child).map fun (way, last) => (context :: way, last)
      else []
termination_by t.size - id.index

variable {t : Tree} {id child last p q r : NodeId} {n : Node} {context : String}
variable {way way' : List String}

namespace Leads

theorem target_found (h : t.Leads id way last) : ∃ n, t.get? last = some n := by
  induction h with
  | here found => exact ⟨_, found⟩
  | down _ _ _ ih => exact ih

@[simp] theorem nil_iff : t.Leads id [] last ↔ (∃ n, t.get? id = some n) ∧ id = last := by
  constructor
  · intro h
    cases h with
    | here found => exact ⟨⟨_, found⟩, rfl⟩
  · rintro ⟨⟨n, found⟩, rfl⟩
    exact .here found

theorem cons_iff (found : t.get? id = some n) : t.Leads id (context :: way) last ↔
    ∃ child, n.children.get? context = some child ∧ t.Leads child way last := by
  constructor
  · intro h
    cases h with
    | down found' linked below =>
        rw [found] at found'
        cases found'
        exact ⟨_, linked, below⟩
  · rintro ⟨child, linked, below⟩
    exact .down found linked below

theorem trans (h : t.Leads p way q) (h' : t.Leads q way' r) : t.Leads p (way ++ way') r := by
  induction h with
  | here _ => exact h'
  | down found linked _ ih => exact .down found linked (ih h')

/-- The last step of a way that goes anywhere. -/
theorem eq_or_last_step (h : t.Leads id way last) : (way = [] ∧ last = id) ∨
    ∃ before context p n, way = before ++ [context] ∧ t.Leads id before p ∧
      t.get? p = some n ∧ n.children.get? context = some last := by
  induction h with
  | here _ => exact .inl ⟨rfl, rfl⟩
  | @down id child last n context way found linked below ih =>
      right
      rcases ih with ⟨rfl, rfl⟩ | ⟨before, context', p, m, rfl, above, mem, linked'⟩
      · exact ⟨[], context, id, n, rfl, .here found, found, linked⟩
      · exact ⟨context :: before, context', p, m, rfl, .down found linked above, mem, linked'⟩

/-- A way leads to later nodes only. -/
theorem index_le (h : t.Leads id way last) (sound : t.Sound) :
    id.index + way.length ≤ last.index := by
  induction h with
  | here _ => exact Nat.le_refl _
  | down found linked _ ih =>
      obtain ⟨m, -, -, -, later⟩ := sound.child_later found linked
      rw [List.length_cons]
      omega

/-- Of two nodes above the same node, one is above the other. -/
theorem comparable (sound : t.Sound) (h : t.Leads p way r) (h' : t.Leads q way' r) :
    (∃ between, t.Leads p between q ∧ way = between ++ way') ∨
      ∃ between, t.Leads q between p ∧ way' = between ++ way := by
  -- The induction climbs from the common node, whose parent ends both ways but their last step.
  generalize place : r.index = index
  induction index using Nat.strongRecOn generalizing r way way' with
  | ind index ih =>
      rcases h.eq_or_last_step with ⟨rfl, rfl⟩ | ⟨before, c, a, m, rfl, above, found, linked⟩
      · exact .inr ⟨way', h', by simp⟩
      · rcases h'.eq_or_last_step with
          ⟨rfl, rfl⟩ | ⟨before', c', a', m', rfl, above', found', linked'⟩
        · exact .inl ⟨before ++ [c], h, by simp⟩
        · obtain ⟨o, mem, parent, context, later⟩ := sound.child_later found linked
          obtain ⟨o', mem', parent', context', -⟩ := sound.child_later found' linked'
          rw [mem] at mem'
          cases mem'
          rw [parent] at parent'
          cases parent'
          subst context context'
          rcases ih a.index (place ▸ later) above above' rfl with
            ⟨between, link, rfl⟩ | ⟨between, link, rfl⟩
          · exact .inl ⟨between, link, by simp⟩
          · exact .inr ⟨between, link, by simp⟩

/-- No way leads back to its beginning. -/
theorem eq_nil_of_self (sound : t.Sound) (h : t.Leads id way id) : way = [] := by
  have later := h.index_le sound
  exact List.length_eq_zero_iff.mp (by omega)

/-- A node is reached by one way only. -/
theorem way_unique (sound : t.Sound) (h : t.Leads id way last) (h' : t.Leads id way' last) :
    way = way' := by
  rcases comparable sound h h' with ⟨between, back, rfl⟩ | ⟨between, back, rfl⟩
  · rw [back.eq_nil_of_self sound, List.nil_append]
  · rw [back.eq_nil_of_self sound, List.nil_append]

theorem target_unique (h : t.Leads id way p) (h' : t.Leads id way q) : p = q := by
  induction h with
  | here found => exact (nil_iff.mp h').2
  | down found linked _ ih =>
      obtain ⟨child', linked', below'⟩ := (cons_iff found).mp h'
      rw [linked] at linked'
      cases linked'
      exact ih below'

end Leads

namespace Sound

/-- What the children hand up to their parents holds of every node. -/
theorem down_induction (h : t.Sound) {motive : NodeId → Prop}
    (node : ∀ id n, t.get? id = some n →
      (∀ context child, n.children.get? context = some child → motive child) → motive id)
    (id : NodeId) (n : Node) (found : t.get? id = some n) : motive id := by
  generalize room : t.size - id.index = bound
  induction bound using Nat.strongRecOn generalizing id n with
  | ind bound ih =>
      refine node id n found fun context child linked => ?_
      obtain ⟨m, mem, -, -, later⟩ := h.child_later found linked
      have inside := (issued_of_get? mem).2
      exact ih (t.size - child.index) (by omega) child m mem rfl

/-- The visits of a node in terms of those of its children. -/
theorem visits_eq (h : t.Sound) (found : t.get? id = some n) :
    t.visits id = ([], id) :: n.children.entries.flatMap fun entry =>
      (t.visits entry.2).map fun visit => (entry.1 :: visit.1, visit.2) := by
  rw [visits]
  simp only [found]
  refine congrArg _ (List.flatMap_congr ?_)
  rintro ⟨context, child⟩ member
  obtain ⟨m, mem, -, -, later⟩ := h.child_later found ((Children.mem_entries_iff _).mp member)
  exact dif_pos ⟨later, (issued_of_get? mem).2⟩

/-- Exactly the nodes below a node are visited. -/
theorem mem_visits_iff (h : t.Sound) (found : t.get? id = some n) :
    (way, last) ∈ t.visits id ↔ t.Leads id way last := by
  refine h.down_induction
    (motive := fun id => ∀ way last, (way, last) ∈ t.visits id ↔ t.Leads id way last)
    ?_ id n found way last
  intro id n found ih way last
  rw [h.visits_eq found, List.mem_cons, List.mem_flatMap]
  cases way with
  | nil => simp [found, eq_comm]
  | cons context way =>
      rw [Leads.cons_iff found]
      constructor
      · rintro (impossible | ⟨⟨context', child⟩, member, visited⟩)
        · cases impossible
        · obtain ⟨⟨way', last'⟩, below, same⟩ := List.mem_map.mp visited
          cases same
          have linked := (Children.mem_entries_iff _).mp member
          exact ⟨child, linked, (ih _ child linked _ _).mp below⟩
      · rintro ⟨child, linked, below⟩
        right
        refine ⟨(context, child), (Children.mem_entries_iff _).mpr linked, ?_⟩
        exact List.mem_map_of_mem ((ih _ child linked _ _).mpr below)

/-- The visits are in the lexicographic order of their ways. -/
theorem visits_ascending (h : t.Sound) (found : t.get? id = some n) :
    (t.visits id).Pairwise fun a b => a.1 < b.1 := by
  refine h.down_induction (motive := fun id => (t.visits id).Pairwise fun a b => a.1 < b.1)
    ?_ id n found
  intro id n found ih
  rw [h.visits_eq found, List.pairwise_cons, List.pairwise_flatMap]
  refine ⟨?_, ?_, ?_⟩
  · rintro ⟨way, last⟩ member
    obtain ⟨⟨context, child⟩, -, visited⟩ := List.mem_flatMap.mp member
    obtain ⟨visit, -, same⟩ := List.mem_map.mp visited
    cases same
    exact List.nil_lt_cons context visit.1
  · rintro ⟨context, child⟩ member
    rw [List.pairwise_map]
    refine (ih context child ((Children.mem_entries_iff _).mp member)).imp ?_
    intro a b lt
    exact List.cons_lt_cons_iff.mpr (.inr ⟨rfl, lt⟩)
  · refine n.children.ascending.imp ?_
    intro a b lt x hx y hy
    obtain ⟨visit, -, rfl⟩ := List.mem_map.mp hx
    obtain ⟨visit', -, rfl⟩ := List.mem_map.mp hy
    exact List.cons_lt_cons_iff.mpr (.inl lt)

end Sound

end Tree

end Schematron
