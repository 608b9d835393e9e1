import Schematron.Tree.Basic

/-!
# The links between the nodes of a tree

A tree keeps the same structure four times: in the order of its nodes, in the
parent of each node, in the children of each node and in the list of the roots.
`Tree.Sound` says that the four agree. Each operation that succeeds is one of
`withRoot`, `withChild` and a change of a node's kind, and each of them leaves a
sound tree sound.

A context names the child that was declared last under it. Earlier ones stay in
the tree and keep their parent, but their parent does not know them any more.
-/

namespace Schematron

namespace Tree

/-- A node in use was issued by the tree and lies among its nodes. -/
theorem issued_of_get? {t : Tree} {id : NodeId} {n : Node} (found : t.get? id = some n) :
    id.tag = t.tag ∧ id.index < t.size := by
  rw [get?] at found
  split at found
  · next tag => exact ⟨tag, (Array.getElem?_eq_some_iff.mp found).1⟩
  · cases found

/-- A node in use is not the next one. -/
theorem ne_nextId_of_get? {t : Tree} {id : NodeId} {n : Node} (found : t.get? id = some n) :
    id ≠ t.nextId := by
  rintro rfl
  rw [get?_nextId] at found
  cases found

@[simp] theorem nextId_index (t : Tree) : t.nextId.index = t.size := rfl

/-- A node declares another one as its parent and says by which context it is found there. -/
def IsChild (t : Tree) (parent : NodeId) (context : String) (child : NodeId) : Prop :=
  ∃ n, t.get? child = some n ∧ n.parent = some parent ∧ n.context = context

/-- The child that was declared last under a context. -/
def IsLastChild (t : Tree) (parent : NodeId) (context : String) (child : NodeId) : Prop :=
  t.IsChild parent context child ∧
    ∀ other, t.IsChild parent context other → other.index ≤ child.index

/-- Nodes, parents, children and roots agree. -/
structure Sound (t : Tree) : Prop where
  context_ne : ∀ {id n}, t.get? id = some n → n.context ≠ ""
  /-- A parent belongs to the tree and was declared before its children. -/
  parent_earlier : ∀ {id n p}, t.get? id = some n → n.parent = some p →
    p.tag = t.tag ∧ p.index < id.index
  mem_roots_iff : ∀ {id}, id ∈ t.roots ↔ ∃ n, t.get? id = some n ∧ n.parent = none
  /-- The roots are listed once each, in the order of their declaration. -/
  roots_ascending : t.roots.Pairwise fun a b => a.index < b.index
  /-- A context names the last of the children that were declared under it. -/
  child_iff : ∀ {p n context q}, t.get? p = some n →
    (n.children.get? context = some q ↔ t.IsLastChild p context q)

def withRoot (t : Tree) (context : String) (kind : Kind) : Tree :=
  { t.push ⟨context, kind, none, .empty⟩ with roots := t.roots ++ [t.nextId] }

/-- The tree with one child more, which its parent finds by its context. -/
def withChild (t : Tree) (parent : NodeId) (context : String) (kind : Kind) : Tree :=
  (t.push ⟨context, kind, some parent, .empty⟩).modify parent (·.link context t.nextId)

/-- The tree with a node's kind changed. -/
def withKind (t : Tree) (id : NodeId) (change : Kind → Kind) : Tree :=
  t.modify id fun n => { n with kind := change n.kind }

variable {t : Tree} {parent : NodeId} {context : String} {kind : Kind}

theorem addRoot_of_ne (named : context ≠ "") :
    t.addRoot context kind = .ok (t.nextId, t.withRoot context kind) :=
  if_neg named

theorem addChild_of_get? {n : Node} (found : t.get? parent = some n) (named : context ≠ "") :
    t.addChild parent context kind = .ok (t.nextId, t.withChild parent context kind) := by
  simp [addChild, found, named, withChild]

@[simp] theorem tag_withRoot : (t.withRoot context kind).tag = t.tag := rfl

@[simp] theorem size_withRoot : (t.withRoot context kind).size = t.size + 1 := t.size_push _

@[simp] theorem roots_withRoot : (t.withRoot context kind).roots = t.roots ++ [t.nextId] := rfl

@[simp] theorem get?_withRoot (id : NodeId) : (t.withRoot context kind).get? id =
    if id = t.nextId then some ⟨context, kind, none, .empty⟩ else t.get? id :=
  t.get?_push _ id

@[simp] theorem tag_withChild : (t.withChild parent context kind).tag = t.tag := by
  rw [withChild, tag_modify, tag_push]

@[simp] theorem size_withChild : (t.withChild parent context kind).size = t.size + 1 := by
  simp [withChild]

@[simp] theorem roots_withChild : (t.withChild parent context kind).roots = t.roots := by
  rw [withChild, roots_modify, roots_push]

/-- The new node stands in the next place, and its parent has it under its context. -/
theorem get?_withChild {n : Node} (found : t.get? parent = some n) (id : NodeId) :
    (t.withChild parent context kind).get? id =
      if id = t.nextId then some ⟨context, kind, some parent, .empty⟩
      else if id = parent then some (n.link context t.nextId) else t.get? id := by
  have old := ne_nextId_of_get? found
  simp only [withChild, get?_modify, get?_push]
  by_cases new : id = t.nextId
  · rw [if_neg (new ▸ old.symm), if_pos new, if_pos new]
  · by_cases self : id = parent
    · simp [self, old, found]
    · simp [self, new]

@[simp] theorem tag_withKind (id : NodeId) (change : Kind → Kind) :
    (t.withKind id change).tag = t.tag := by
  simp [withKind]

@[simp] theorem size_withKind (id : NodeId) (change : Kind → Kind) :
    (t.withKind id change).size = t.size := by
  simp [withKind]

@[simp] theorem roots_withKind (id : NodeId) (change : Kind → Kind) :
    (t.withKind id change).roots = t.roots := by
  simp [withKind]

@[simp] theorem get?_withKind (id other : NodeId) (change : Kind → Kind) :
    (t.withKind id change).get? other =
      if other = id then (t.get? other).map fun n => { n with kind := change n.kind }
      else t.get? other := by
  simp [withKind]

/-- A new root is nobody's child. -/
theorem isChild_withRoot {p q : NodeId} {c : String} :
    (t.withRoot context kind).IsChild p c q ↔ t.IsChild p c q := by
  unfold IsChild
  by_cases new : q = t.nextId
  · subst new
    simp
  · simp [new]

/-- A new child is a child of its parent, and all others stay what they are. -/
theorem isChild_withChild {n : Node} (found : t.get? parent = some n) {p q : NodeId} {c : String} :
    (t.withChild parent context kind).IsChild p c q ↔
      (q = t.nextId ∧ p = parent ∧ c = context) ∨ t.IsChild p c q := by
  unfold IsChild
  simp only [get?_withChild found]
  by_cases new : q = t.nextId
  · subst new
    simp [eq_comm]
  · by_cases self : q = parent
    · subst self
      simp [new, found, Node.link]
    · simp [new, self]

/-- The kind of a node does not decide whose child it is. -/
theorem isChild_withKind {id p q : NodeId} {c : String} {change : Kind → Kind} :
    (t.withKind id change).IsChild p c q ↔ t.IsChild p c q := by
  unfold IsChild
  rw [get?_withKind]
  by_cases self : q = id
  · cases found : t.get? q <;> simp [self]
  · simp [self]

namespace Sound

/-- A child is found among the nodes, and was declared after its parent. -/
theorem child_later (h : t.Sound) {p q : NodeId} {n : Node} {c : String}
    (found : t.get? p = some n) (child : n.children.get? c = some q) :
    ∃ m, t.get? q = some m ∧ m.parent = some p ∧ m.context = c ∧ p.index < q.index := by
  obtain ⟨⟨m, mem, parent, context⟩, -⟩ := (h.child_iff found).mp child
  exact ⟨m, mem, parent, context, (h.parent_earlier mem parent).2⟩

/-- No node is a child of one that comes in the next place. -/
theorem not_isChild_nextId (h : t.Sound) {c : String} {q : NodeId} : ¬ t.IsChild t.nextId c q := by
  rintro ⟨n, found, parent, -⟩
  have earlier := (h.parent_earlier found parent).2
  have inside := (issued_of_get? found).2
  simp only [nextId_index] at earlier
  omega

/-- Nothing is wrong with a tree without nodes. -/
theorem empty (tag : UInt32) : (Tree.empty tag).Sound where
  context_ne found := by simp at found
  parent_earlier found := by simp at found
  mem_roots_iff := by simp [Tree.empty, get?]
  roots_ascending := .nil
  child_iff found := by simp at found

theorem withRoot (h : t.Sound) (named : context ≠ "") : (t.withRoot context kind).Sound where
  context_ne {id n} found := by
    rw [get?_withRoot] at found
    split at found
    · cases found
      exact named
    · exact h.context_ne found
  parent_earlier {id n p} found parent := by
    rw [get?_withRoot] at found
    split at found
    · cases found
      cases parent
    · exact h.parent_earlier found parent
  mem_roots_iff {id} := by
    rw [roots_withRoot, List.mem_append, h.mem_roots_iff, get?_withRoot]
    by_cases new : id = t.nextId
    · subst new
      simp
    · simp [new]
  roots_ascending := by
    rw [roots_withRoot, List.pairwise_append]
    refine ⟨h.roots_ascending, by simp, ?_⟩
    intro a ha b hb
    obtain ⟨n, found, -⟩ := h.mem_roots_iff.mp ha
    rw [List.mem_singleton] at hb
    rw [hb, nextId_index]
    exact (issued_of_get? found).2
  child_iff {p n c q} found := by
    simp only [IsLastChild, isChild_withRoot]
    rw [get?_withRoot] at found
    split at found
    · next new =>
      subst new
      cases found
      simp [h.not_isChild_nextId]
    · exact h.child_iff found

theorem withChild (h : t.Sound) {n : Node} (found : t.get? parent = some n)
    (named : context ≠ "") : (t.withChild parent context kind).Sound where
  context_ne {id m} found' := by
    rw [get?_withChild found] at found'
    split at found'
    · cases found'
      exact named
    · split at found'
      · cases found'
        change n.context ≠ ""
        exact h.context_ne found
      · exact h.context_ne found'
  parent_earlier {id m p} found' parent' := by
    rw [tag_withChild]
    rw [get?_withChild found] at found'
    split at found'
    · next new =>
      cases found'
      cases parent'
      rw [new, nextId_index]
      exact issued_of_get? found
    · split at found'
      · next self =>
        cases found'
        exact self ▸ h.parent_earlier found parent'
      · exact h.parent_earlier found' parent'
  mem_roots_iff {id} := by
    rw [roots_withChild, h.mem_roots_iff, get?_withChild found]
    by_cases new : id = t.nextId
    · subst new
      simp
    · by_cases self : id = parent
      · subst self
        simp [new, found, Node.link]
      · simp [new, self]
  roots_ascending := by
    rw [roots_withChild]
    exact h.roots_ascending
  child_iff {p m c q} found' := by
    simp only [IsLastChild, isChild_withChild found]
    rw [get?_withChild found] at found'
    split at found'
    · next new =>
      subst new
      cases found'
      have differ : t.nextId ≠ parent := (ne_nextId_of_get? found).symm
      simp [h.not_isChild_nextId, differ]
    · split at found'
      · next self =>
        subst self
        cases found'
        by_cases replaced : c = context
        · -- The new node comes behind every earlier child of the context.
          subst replaced
          simp only [Node.link, Children.get?_insert, if_true, and_true, Option.some.injEq]
          constructor
          · rintro rfl
            refine ⟨.inl rfl, ?_⟩
            rintro other (rfl | ⟨o, inside, -⟩)
            · exact Nat.le_refl _
            · exact Nat.le_of_lt (issued_of_get? inside).2
          · rintro ⟨rfl | ⟨o, inside, -⟩, last⟩
            · rfl
            · have later := last _ (.inl rfl)
              have earlier := (issued_of_get? inside).2
              rw [nextId_index] at later
              omega
        · simp only [Node.link, Children.get?_insert, replaced, and_false, false_or]
          exact h.child_iff found
      · next other =>
        simp only [other, false_and, and_false, false_or]
        exact h.child_iff found'

theorem withKind (h : t.Sound) (id : NodeId) (change : Kind → Kind) :
    (t.withKind id change).Sound := by
  -- A node that is found stands for one of the tree that differs in nothing but its kind.
  have before {q : NodeId} {n : Node} (found : (t.withKind id change).get? q = some n) :
      ∃ m, t.get? q = some m ∧ n.context = m.context ∧ n.parent = m.parent ∧
        n.children = m.children := by
    rw [get?_withKind] at found
    split at found
    · obtain ⟨m, mem, rfl⟩ := Option.map_eq_some_iff.mp found
      exact ⟨m, mem, rfl, rfl, rfl⟩
    · exact ⟨n, found, rfl, rfl, rfl⟩
  constructor
  · intro q n found
    obtain ⟨m, mem, context, -, -⟩ := before found
    exact context ▸ h.context_ne mem
  · intro q n p found parent
    obtain ⟨m, mem, -, parents, -⟩ := before found
    rw [tag_withKind]
    exact h.parent_earlier mem (parents ▸ parent)
  · intro q
    rw [roots_withKind, h.mem_roots_iff, get?_withKind]
    by_cases self : q = id
    · cases found : t.get? q <;> simp [self]
    · simp [self]
  · rw [roots_withKind]
    exact h.roots_ascending
  · intro p n c q found
    obtain ⟨m, mem, -, -, children⟩ := before found
    simp only [IsLastChild, isChild_withKind, children]
    exact h.child_iff mem

end Sound

end Tree

end Schematron
