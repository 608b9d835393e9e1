import Mathlib.Data.List.Induction
import Mathlib.Logic.Function.Basic
import Schematron.Proofs.Tree.Alike
import Schematron.Proofs.Tree.History

/-!
# Declarations in different orders

A plan says what is to be declared: every declaration has a context and a kind
and names its parent by another declaration. Making the declarations in some
order grows a tree; which identifier a declaration gets, and with which tag,
depends on the order and on the tree.

`Grown` describes the tree by the plan and the order alone, and `Grown.declare`
shows that one more declaration keeps the description. An order matters in two
ways only: the roots are listed as they come, and of the declarations that share
parent and context the last one is linked. Two orders that agree in both lead to
trees of the same shape.
-/

namespace Schematron

/-- What is declared, with the parent named by its declaration. -/
structure Declaration (ι : Type) where
  /-- The declaration of the parent; a root has none. -/
  parent : Option ι
  context : String
  kind : Kind
  deriving DecidableEq, Repr

/-- A tree with the identifiers that the declarations made so far have got in it. -/
structure Growth (ι : Type) where
  tree : Tree
  ids : ι → Option NodeId

variable {ι : Type} [DecidableEq ι]

namespace Growth

def start (tag : UInt32) : Growth ι := ⟨.empty tag, fun _ => none⟩

/-- The declaration of a root or of a child, if its parent is declared and the tree accepts it. -/
def added (plan : ι → Declaration ι) (g : Growth ι) (i : ι) : Option (NodeId × Tree) :=
  match (plan i).parent with
  | none => (g.tree.addRoot (plan i).context (plan i).kind).toOption
  | some p => (g.ids p).bind fun parent =>
      (g.tree.addChild parent (plan i).context (plan i).kind).toOption

/-- One declaration of a plan is made. -/
def declare (plan : ι → Declaration ι) (g : Growth ι) (i : ι) : Option (Growth ι) :=
  (g.added plan i).map fun made => ⟨made.2, Function.update g.ids i (some made.1)⟩

def run (plan : ι → Declaration ι) (tag : UInt32) (order : List ι) : Option (Growth ι) :=
  order.foldlM (declare plan) (start tag)

end Growth

namespace Declaration

variable {plan : ι → Declaration ι}

/-- A declaration puts a child under a parent and a context. -/
def puts (plan : ι → Declaration ι) (parent : ι) (context : String) (i : ι) : Bool :=
  (plan i).parent = some parent && (plan i).context = context

def isRoot (plan : ι → Declaration ι) (i : ι) : Bool := (plan i).parent.isNone

/-- Two declarations share parent and context. -/
def shares (plan : ι → Declaration ι) (i j : ι) : Bool :=
  (plan i).parent.isSome && (plan i).parent = (plan j).parent &&
    (plan i).context = (plan j).context

/-- An order makes every declaration once, after that of its parent, and none with an empty
context. -/
structure Orders (plan : ι → Declaration ι) (order : List ι) : Prop where
  once : order.Nodup
  named : ∀ i ∈ order, (plan i).context ≠ ""
  parent_first : ∀ i ∈ order, ∀ p, (plan i).parent = some p → order.idxOf p < order.idxOf i

/-- Two orders make the same declarations and agree in the order of the roots and in the order
of the declarations that share parent and context. -/
structure Reorders (plan : ι → Declaration ι) (order order' : List ι) : Prop where
  perm : order.Perm order'
  roots : order.filter (isRoot plan) = order'.filter (isRoot plan)
  siblings : ∀ i ∈ order, order.filter (shares plan i) = order'.filter (shares plan i)

/-- Every context of a parent is declared in the same order. -/
theorem Reorders.filter_puts {order order' : List ι} (h : Reorders plan order order') (parent : ι)
    (context : String) :
    order.filter (puts plan parent context) = order'.filter (puts plan parent context) := by
  by_cases silent : ∀ i ∈ order, ¬ puts plan parent context i = true
  · have silent' : ∀ i ∈ order', ¬ puts plan parent context i = true :=
      fun i member => silent i (h.perm.mem_iff.mpr member)
    rw [List.filter_eq_nil_iff.mpr silent, List.filter_eq_nil_iff.mpr silent']
  · simp only [not_forall, not_not] at silent
    obtain ⟨i, member, put⟩ := silent
    have same : puts plan parent context = shares plan i := by
      funext j
      simp only [puts, Bool.and_eq_true, decide_eq_true_eq] at put
      obtain ⟨above, named⟩ := put
      simp [puts, shares, above, named, eq_comm]
    rw [same]
    exact h.siblings i member

/-- The declaration that a context of a parent is linked to after an order. -/
def linked? (plan : ι → Declaration ι) (order : List ι) (parent : ι) (context : String) :
    Option ι :=
  (order.filter (puts plan parent context)).getLast?

theorem mem_of_linked? {order : List ι} {parent i : ι} {context : String}
    (linked : linked? plan order parent context = some i) :
    i ∈ order ∧ (plan i).parent = some parent ∧ (plan i).context = context := by
  have member := List.mem_of_getLast? linked
  simpa [puts] using member

theorem linked?_concat (order : List ι) (i parent : ι) (context : String) :
    linked? plan (order ++ [i]) parent context =
      if puts plan parent context i then some i else linked? plan order parent context := by
  unfold linked?
  rw [List.filter_append]
  by_cases put : puts plan parent context i = true <;> simp [put]

/-- The tree that the declarations of an order lead to, in terms of the plan. -/
structure Grown (plan : ι → Declaration ι) (order : List ι) (g : Growth ι) : Prop where
  sound : g.tree.Sound
  mem_iff : ∀ {i}, i ∈ order ↔ ∃ id, g.ids i = some id
  injective : ∀ {i j id}, g.ids i = some id → g.ids j = some id → i = j
  roots : g.tree.roots.map some = (order.filter (isRoot plan)).map g.ids
  /-- A declaration is found as its plan has it, under its parent and with the children that
  were declared last under their contexts. -/
  node : ∀ {i id}, g.ids i = some id → ∃ n, g.tree.get? id = some n ∧
    n.context = (plan i).context ∧ n.kind = (plan i).kind ∧
    n.parent.map some = (plan i).parent.map g.ids ∧
    ∀ context, n.children.get? context = (linked? plan order i context).bind g.ids

namespace Grown

variable {order order' : List ι} {g g' : Growth ι} {i : ι}

theorem start (tag : UInt32) : Grown plan [] (Growth.start tag) where
  sound := Tree.Sound.empty tag
  mem_iff := by simp [Growth.start]
  injective := by simp [Growth.start]
  roots := rfl
  node := by simp [Growth.start]

/-- The parent of a declaration was declared itself. -/
theorem parent_mem (h : Grown plan order g) {p : ι} (member : i ∈ order)
    (parent : (plan i).parent = some p) : p ∈ order := by
  obtain ⟨id, found⟩ := h.mem_iff.mp member
  obtain ⟨n, -, -, -, parents, -⟩ := h.node found
  rw [parent, Option.map_some, Option.map_eq_some_iff] at parents
  obtain ⟨above, -, declared⟩ := parents
  exact h.mem_iff.mpr ⟨above, declared.symm⟩

/-- A tree with one node more, in the next place, is grown by the declaration of that node. The
two declarations of a tree differ in the roots and in the node that is told of the new one. -/
theorem extend (h : Grown plan order g) (fresh : i ∉ order)
    (above : ∀ p, (plan i).parent = some p → p ∈ order) {t : Tree} (sound : t.Sound)
    (roots : t.roots = g.tree.roots ++ if isRoot plan i then [g.tree.nextId] else [])
    (new : t.get? g.tree.nextId = some ⟨(plan i).context, (plan i).kind,
      (plan i).parent.bind g.ids, .empty⟩)
    (old : ∀ {j id n}, g.ids j = some id → g.tree.get? id = some n →
      ∃ n', t.get? id = some n' ∧ n'.context = n.context ∧ n'.kind = n.kind ∧
        n'.parent = n.parent ∧ ∀ context, n'.children.get? context =
          if puts plan j context i then some g.tree.nextId else n.children.get? context) :
    Grown plan (order ++ [i]) ⟨t, Function.update g.ids i (some g.tree.nextId)⟩ := by
  have other {j : ι} (member : j ∈ order) : j ≠ i := fun same => fresh (same ▸ member)
  have kept {j : ι} (member : j ∈ order) :
      Function.update g.ids i (some g.tree.nextId) j = g.ids j :=
    Function.update_of_ne (other member) _ _
  -- The new declaration is nobody's parent yet, so parents keep their identifiers.
  have parents_kept {j : ι} (member : j ∈ order ++ [i]) :
      (plan j).parent.map (Function.update g.ids i (some g.tree.nextId)) =
        (plan j).parent.map g.ids := by
    cases parent : (plan j).parent with
    | none => rfl
    | some p =>
        have declared : p ∈ order := by
          rcases List.mem_append.mp member with inside | last
          · exact h.parent_mem inside parent
          · rw [List.mem_singleton.mp last] at parent
            exact above p parent
        rw [Option.map_some, Option.map_some, kept declared]
  constructor
  · exact sound
  · intro j
    rw [List.mem_append, List.mem_singleton]
    by_cases same : j = i
    · simp [same]
    · simp [same, h.mem_iff]
  · intro j k id hj hk
    have unused {l : ι} : g.ids l ≠ some g.tree.nextId := by
      intro found
      obtain ⟨n, inside, -⟩ := h.node found
      exact Tree.ne_nextId_of_get? inside rfl
    by_cases hji : j = i <;> by_cases hki : k = i
    · exact hji.trans hki.symm
    · simp only [hji, Function.update_self, Function.update_of_ne hki] at hj hk
      exact absurd (hk.trans hj.symm) unused
    · simp only [hki, Function.update_self, Function.update_of_ne hji] at hj hk
      exact absurd (hj.trans hk.symm) unused
    · simp only [Function.update_of_ne hji, Function.update_of_ne hki] at hj hk
      exact h.injective hj hk
  · have before : (order.filter (isRoot plan)).map
        (Function.update g.ids i (some g.tree.nextId)) = (order.filter (isRoot plan)).map g.ids :=
      List.map_congr_left fun j member => kept (List.mem_of_mem_filter member)
    rw [roots, List.filter_append, List.map_append, List.map_append, before, h.roots]
    by_cases root : isRoot plan i = true <;> simp [root]
  · intro j id found
    change Function.update g.ids i (some g.tree.nextId) j = some id at found
    by_cases same : j = i
    · subst same
      rw [Function.update_self] at found
      cases found
      refine ⟨_, new, rfl, rfl, ?_, ?_⟩
      · rw [parents_kept (by simp)]
        cases parent : (plan j).parent with
        | none => rfl
        | some p =>
            obtain ⟨id, declared⟩ := h.mem_iff.mp (above p parent)
            simp [declared]
      · intro context
        have childless : linked? plan (order ++ [j]) j context = none := by
          rw [Option.eq_none_iff_forall_ne_some]
          intro k linked
          obtain ⟨member, parent, -⟩ := mem_of_linked? linked
          rcases List.mem_append.mp member with inside | last
          · exact fresh (h.parent_mem inside parent)
          · rw [List.mem_singleton.mp last] at parent
            exact fresh (above j parent)
        rw [childless]
        rfl
    · rw [Function.update_of_ne same] at found
      obtain ⟨n, inside, context, kind, parent, children⟩ := h.node found
      obtain ⟨n', inside', context', kind', parent', children'⟩ := old found inside
      refine ⟨n', inside', context'.trans context, kind'.trans kind, ?_, ?_⟩
      · have member : j ∈ order := h.mem_iff.mpr ⟨id, found⟩
        rw [parent', parent, parents_kept (List.mem_append_left _ member)]
      · intro context
        rw [children', linked?_concat, children]
        by_cases put : puts plan j context i = true
        · simp [put]
        · simp only [put, if_false, Bool.false_eq_true]
          cases linked : linked? plan order j context with
          | none => rfl
          | some k => exact (kept (mem_of_linked? linked).1).symm

/-- One more declaration succeeds if its parent is declared and its context is not empty. -/
theorem declare (h : Grown plan order g) (fresh : i ∉ order) (named : (plan i).context ≠ "")
    (above : ∀ p, (plan i).parent = some p → p ∈ order) :
    ∃ g', g.declare plan i = some g' ∧ Grown plan (order ++ [i]) g' := by
  cases parent : (plan i).parent with
  | none =>
      refine ⟨⟨g.tree.withRoot (plan i).context (plan i).kind, _⟩, ?_,
        h.extend fresh above (h.sound.withRoot named) ?_ ?_ ?_⟩
      · simp [Growth.declare, Growth.added, parent, Tree.addRoot_of_ne named, Except.toOption]
      · simp [isRoot, parent]
      · simp [parent]
      · intro j id n found inside
        refine ⟨n, ?_, rfl, rfl, rfl, ?_⟩
        · rw [Tree.get?_withRoot, if_neg (Tree.ne_nextId_of_get? inside), inside]
        · simp [puts, parent]
  | some p =>
      obtain ⟨pid, declared⟩ := h.mem_iff.mp (above p parent)
      obtain ⟨m, at_parent, -⟩ := h.node declared
      refine ⟨⟨g.tree.withChild pid (plan i).context (plan i).kind, _⟩, ?_,
        h.extend fresh above (h.sound.withChild at_parent named) ?_ ?_ ?_⟩
      · simp [Growth.declare, Growth.added, parent, declared,
          Tree.addChild_of_get? at_parent named, Except.toOption]
      · simp [isRoot, parent]
      · rw [Tree.get?_withChild at_parent, if_pos rfl]
        simp [parent, declared]
      · intro j id n found inside
        rw [Tree.get?_withChild at_parent, if_neg (Tree.ne_nextId_of_get? inside)]
        by_cases same : id = pid
        · subst same
          have named_alike : p = j := h.injective declared found
          rw [at_parent] at inside
          cases inside
          refine ⟨_, if_pos rfl, rfl, rfl, rfl, fun context => ?_⟩
          simp [Node.link, puts, parent, named_alike, eq_comm]
        · refine ⟨n, by rw [if_neg same, inside], rfl, rfl, rfl, fun context => ?_⟩
          have differ : p ≠ j := by
            rintro rfl
            exact same (Option.some.inj (found.symm.trans declared))
          simp [puts, parent, differ]

end Grown

/-- The last declaration of an order comes after an order of the others. -/
theorem Orders.of_concat {order : List ι} {i : ι} (h : Orders plan (order ++ [i])) :
    Orders plan order ∧ i ∉ order ∧ (plan i).context ≠ "" ∧
      ∀ p, (plan i).parent = some p → p ∈ order := by
  have fresh : i ∉ order := by
    intro member
    exact (List.nodup_append.mp h.once).2.2 i member i (by simp) rfl
  -- A place before the end of the longer order is a place in the shorter one.
  have declared_before {p : ι} {place : Nat} (bound : place ≤ order.length)
      (earlier : (order ++ [i]).idxOf p < place) :
      p ∈ order ∧ (order ++ [i]).idxOf p = order.idxOf p := by
    by_cases member : p ∈ order
    · exact ⟨member, List.idxOf_append_of_mem member⟩
    · rw [List.idxOf_append_of_notMem member] at earlier
      omega
  refine ⟨⟨(List.nodup_append.mp h.once).1, ?_, ?_⟩, fresh, h.named i (by simp), ?_⟩
  · intro j member
    exact h.named j (List.mem_append_left _ member)
  · intro j member p parent
    have earlier := h.parent_first j (List.mem_append_left _ member) p parent
    rw [List.idxOf_append_of_mem member] at earlier
    have inside : order.idxOf j < order.length := List.idxOf_lt_length_of_mem member
    rw [← (declared_before (Nat.le_of_lt inside) earlier).2]
    exact earlier
  · intro p parent
    have earlier := h.parent_first i (by simp) p parent
    have last : (order ++ [i]).idxOf i = order.length := by
      rw [List.idxOf_append_of_notMem fresh]
      simp
    rw [last] at earlier
    exact (declared_before (Nat.le_refl _) earlier).1

/-- Every order succeeds, whatever the tag of the tree is. -/
theorem Orders.exists_run {order : List ι} (h : Orders plan order) (tag : UInt32) :
    ∃ g, Growth.run plan tag order = some g ∧ Grown plan order g := by
  induction order using List.reverseRecOn with
  | nil => exact ⟨_, rfl, Grown.start tag⟩
  | append_singleton order i ih =>
      obtain ⟨before, fresh, named, above⟩ := h.of_concat
      obtain ⟨g, grown, invariant⟩ := ih before
      obtain ⟨g', declared, invariant'⟩ := invariant.declare fresh named above
      refine ⟨g', ?_, invariant'⟩
      rw [Growth.run, List.foldlM_append]
      change (Growth.run plan tag order).bind _ = _
      simp [grown, declared]

def Same (g g' : Growth ι) (id id' : NodeId) : Prop :=
  ∃ i, g.ids i = some id ∧ g'.ids i = some id'

/-- Two orders that agree lead to trees of the same shape. -/
theorem Grown.alike {order order' : List ι} {g g' : Growth ι} (h : Grown plan order g)
    (h' : Grown plan order' g') (same : Reorders plan order order') :
    g.tree.Alike (Same g g') g'.tree := by
  have both {i : ι} {id : NodeId} (found : g.ids i = some id) : ∃ id', g'.ids i = some id' :=
    h'.mem_iff.mp (same.perm.mem_iff.mp (h.mem_iff.mpr ⟨id, found⟩))
  constructor
  · have roots := h.roots
    have roots' := h'.roots
    rw [← same.roots] at roots'
    generalize order.filter (isRoot plan) = listed at roots roots'
    revert roots roots'
    generalize g.tree.roots = starts, g'.tree.roots = starts'
    intro roots roots'
    induction listed generalizing starts starts' with
    | nil =>
        rw [List.map_nil, List.map_eq_nil_iff] at roots roots'
        subst roots roots'
        exact .nil
    | cons i rest ih =>
        rw [List.map_cons, List.map_eq_cons_iff] at roots roots'
        obtain ⟨id, starts, rfl, found, roots⟩ := roots
        obtain ⟨id', starts', rfl, found', roots'⟩ := roots'
        exact .cons ⟨i, found.symm, found'.symm⟩ (ih starts starts' roots roots')
  · rintro id id' ⟨i, found, found'⟩
    obtain ⟨n, inside, context, kind, parent, children⟩ := h.node found
    obtain ⟨n', inside', context', kind', parent', children'⟩ := h'.node found'
    refine ⟨n, n', inside, inside', context.trans context'.symm, kind.trans kind'.symm, ?_, ?_⟩
    · cases above : (plan i).parent with
      | none =>
          rw [above, Option.map_none, Option.map_eq_none_iff] at parent parent'
          rw [parent, parent']
          exact .none
      | some p =>
          rw [above, Option.map_some, Option.map_eq_some_iff] at parent parent'
          obtain ⟨pid, parent, declared⟩ := parent
          obtain ⟨pid', parent', declared'⟩ := parent'
          rw [parent, parent']
          exact .some ⟨p, declared.symm, declared'.symm⟩
    · intro context
      have linked_alike : linked? plan order' i context = linked? plan order i context := by
        rw [linked?, linked?, same.filter_puts]
      rw [children, children', linked_alike]
      cases linked : linked? plan order i context with
      | none => exact .none
      | some k =>
          obtain ⟨kid, declared⟩ := h.mem_iff.mp (mem_of_linked? linked).1
          obtain ⟨kid', declared'⟩ := both declared
          rw [Option.bind_some, Option.bind_some, declared, declared']
          exact .some ⟨k, declared, declared'⟩

end Declaration

end Schematron
