import Schematron.Proofs.Tree.Identity

/-!
# Declarations in place

A tree that is changed in place passes through states that no declaration is
meant to leave behind: a new node stands in the array before its parent has a
link to it, and the link is only made after the parent was looked for once more.
`InPlace` spells these steps out as computations that may fail between any two of
them, and whose failures leave the tree as it is at that moment.

None of them fails half-way. Every reason to refuse a declaration is found before
the tree is touched, so the steps have the outcome of the operation that makes
them at once (`InPlace.addChild_eq`), and a refused declaration leaves no trace.
-/

namespace Schematron

/-- The outcome in place of what is done at once or not at all. -/
def allOrNothing {σ α : Type} (s : σ) :
    Except TreeError (α × σ) → EStateM.Result TreeError σ α
  | .ok (a, s') => .ok a s'
  | .error e => .error e s

/-- With a reason to refuse, a declaration fails for that reason and leaves the state as it was.
Without one it succeeds. -/
def Settles {σ : Type} (refusal : Option TreeError) (s : σ) (declared : NodeId → σ → Prop) :
    EStateM.Result TreeError σ NodeId → Prop
  | .ok id s' => refusal = none ∧ declared id s'
  | .error e s' => refusal = some e ∧ s' = s

namespace Settles

variable {σ : Type} {s : σ} {declared : NodeId → σ → Prop}
variable {outcome : EStateM.Result TreeError σ NodeId}

theorem refused {e : TreeError} (h : Settles (some e) s declared outcome) :
    outcome = .error e s := by
  cases outcome with
  | ok id s' => cases h.1
  | error e' s' =>
      obtain ⟨same, rfl⟩ := h
      rw [Option.some.inj same]

theorem done (h : Settles none s declared outcome) :
    ∃ id s', outcome = .ok id s' ∧ declared id s' := by
  cases outcome with
  | ok id s' => exact ⟨id, s', rfl, h.2⟩
  | error e s' => cases h.1

end Settles

/-- Steps that declare a node are as good as the operation that declares it at once, which is
refused for the given reason only and otherwise does what is said. -/
structure AtOnce {σ : Type} (s : σ) (steps : EStateM TreeError σ NodeId)
    (operation : Except TreeError (NodeId × σ)) (refusal : Option TreeError)
    (declared : NodeId → σ → Prop) : Prop where
  steps_eq : steps s = allOrNothing s operation
  settles : Settles refusal s declared (allOrNothing s operation)

namespace Tree

/-! ### Step by step -/

namespace InPlace

def node (id : NodeId) : EStateM TreeError Tree Node := fun t =>
  match t.get? id with
  | some n => .ok n t
  | none => .error (.unknownNode id) t

/-- Puts a node behind the others, if it has a context. -/
def push (context : String) (kind : Kind) (parent : Option NodeId) :
    EStateM TreeError Tree NodeId := do
  if context = "" then throw .emptyContext
  let t ← get
  set (t.push ⟨context, kind, parent, .empty⟩)
  return t.nextId

/-- Declares a root: puts the node there and lists it. -/
def addRoot (context : String) (kind : Kind) : EStateM TreeError Tree NodeId := do
  let id ← push context kind none
  let t ← get
  set { t with roots := t.roots ++ [id] }
  return id

/-- Declares a child: looks for the parent, puts the node there, looks for the parent again and
links the node. -/
def addChild (parent : NodeId) (context : String) (kind : Kind) :
    EStateM TreeError Tree NodeId := do
  let _ ← node parent
  let id ← push context kind (some parent)
  let _ ← node parent
  let t ← get
  set (t.modify parent (·.link context id))
  return id

variable {t : Tree} {id parent : NodeId} {context : String} {kind : Kind}

theorem node_eq (id : NodeId) (t : Tree) :
    node id t = allOrNothing t ((t.node id).map fun n => (n, t)) := by
  rw [node, Tree.node]
  cases t.get? id <;> rfl

theorem push_of_empty (parent : Option NodeId) : push "" kind parent t = .error .emptyContext t :=
  rfl

theorem push_of_ne (named : context ≠ "") (parent : Option NodeId) :
    push context kind parent t = .ok t.nextId (t.push ⟨context, kind, parent, .empty⟩) := by
  simp only [push, named, if_false]
  rfl

/-- A root is declared at once or not at all. -/
theorem addRoot_eq (context : String) (kind : Kind) (t : Tree) :
    addRoot context kind t = allOrNothing t (t.addRoot context kind) := by
  by_cases named : context = ""
  · subst named
    rfl
  · simp only [addRoot, Tree.addRoot, if_neg named, bind, EStateM.bind, push_of_ne named]
    rfl

/-- A child is declared at once or not at all: the parent is still there when it is looked for
again. -/
theorem addChild_eq (parent : NodeId) (context : String) (kind : Kind) (t : Tree) :
    addChild parent context kind t = allOrNothing t (t.addChild parent context kind) := by
  cases found : t.get? parent with
  | none =>
      have refused : node parent t = .error (.unknownNode parent) t := by rw [node, found]
      simp only [addChild, Tree.addChild, found, bind, EStateM.bind, refused]
      rfl
  | some n =>
      have known : node parent t = .ok n t := by rw [node, found]
      by_cases named : context = ""
      · subst named
        simp only [addChild, Tree.addChild, found, bind, EStateM.bind, known, push_of_empty]
        rfl
      · have still : node parent (t.push ⟨context, kind, some parent, .empty⟩) =
            .ok n (t.push ⟨context, kind, some parent, .empty⟩) := by
          rw [node, get?_push, if_neg (ne_nextId_of_get? found), found]
        simp only [addChild, Tree.addChild, found, if_neg named, bind, EStateM.bind, known,
          push_of_ne named, still]
        rfl

end InPlace

/-! ### What is refused and what is done -/

/-- Why a root is refused, if it is. -/
def rootRefusal (context : String) : Option TreeError :=
  if context = "" then some .emptyContext else none

/-- Why a child is refused, if it is. An unknown parent is reported before a missing context. -/
def childRefusal (t : Tree) (parent : NodeId) (context : String) : Option TreeError :=
  if t.get? parent = none then some (.unknownNode parent) else rootRefusal context

/-- One node more: it stands in the next place, its parent links it by its context or the roots
list it, and nothing else is different. -/
structure Declared (t : Tree) (id : NodeId) (node : Node) (t' : Tree) : Prop where
  id_eq : id = t.nextId
  tag : t'.tag = t.tag
  size : t'.size = t.size + 1
  new : t'.get? id = some node
  old : ∀ other m, t.get? other = some m → t'.get? other =
    some (if node.parent = some other then m.link node.context id else m)
  roots : t'.roots = if node.parent = none then t.roots ++ [id] else t.roots

/-- An operation on a node is refused exactly if the tree does not have the node. -/
def RefusesUnknown {α : Type} (t : Tree) (id : NodeId) (outcome : Except TreeError α) : Prop :=
  ∀ e, outcome = .error e ↔ t.get? id = none ∧ e = .unknownNode id

variable {t : Tree} {id parent : NodeId} {context : String} {kind : Kind}

theorem declared_withRoot (context : String) (kind : Kind) :
    t.Declared t.nextId ⟨context, kind, none, .empty⟩ (t.withRoot context kind) where
  id_eq := rfl
  tag := tag_withRoot
  size := size_withRoot
  new := by rw [get?_withRoot, if_pos rfl]
  old other m found := by
    rw [get?_withRoot, if_neg (ne_nextId_of_get? found), found]
    rfl
  roots := roots_withRoot

theorem declared_withChild {n : Node} (found : t.get? parent = some n) (context : String)
    (kind : Kind) :
    t.Declared t.nextId ⟨context, kind, some parent, .empty⟩ (t.withChild parent context kind)
    where
  id_eq := rfl
  tag := tag_withChild
  size := size_withChild
  new := by rw [get?_withChild found, if_pos rfl]
  old other m found' := by
    rw [get?_withChild found, if_neg (ne_nextId_of_get? found')]
    by_cases self : other = parent
    · subst self
      rw [found] at found'
      cases found'
      simp
    · simp [self, Ne.symm self, found']
  roots := roots_withChild

theorem atOnce_addRoot (context : String) (kind : Kind) (t : Tree) :
    AtOnce t (InPlace.addRoot context kind) (t.addRoot context kind) (rootRefusal context)
      fun id t' => t.Declared id ⟨context, kind, none, .empty⟩ t' where
  steps_eq := InPlace.addRoot_eq context kind t
  settles := by
    by_cases named : context = ""
    · rw [addRoot, if_pos named]
      exact ⟨if_pos named, rfl⟩
    · rw [addRoot_of_ne named]
      exact ⟨if_neg named, declared_withRoot context kind⟩

theorem atOnce_addChild (parent : NodeId) (context : String) (kind : Kind) (t : Tree) :
    AtOnce t (InPlace.addChild parent context kind) (t.addChild parent context kind)
      (t.childRefusal parent context)
      fun id t' => t.Declared id ⟨context, kind, some parent, .empty⟩ t' where
  steps_eq := InPlace.addChild_eq parent context kind t
  settles := by
    cases found : t.get? parent with
    | none =>
        rw [addChild, found]
        exact ⟨if_pos found, rfl⟩
    | some n =>
        have known : ¬ t.get? parent = none := by simp [found]
        by_cases named : context = ""
        · simp only [addChild, found, if_pos named]
          exact ⟨(if_neg known).trans (if_pos named), rfl⟩
        · rw [addChild_of_get? found named]
          exact ⟨(if_neg known).trans (if_neg named), declared_withChild found context kind⟩

/-- Whatever is made of a node is refused only for want of the node. -/
theorem refusesUnknown_map {α : Type} (f : Node → α) :
    t.RefusesUnknown id ((t.node id).map f) := by
  intro e
  cases found : t.get? id <;> simp [node, found, Except.map, eq_comm]

theorem Sound.refusesUnknown_path (h : t.Sound) (id : NodeId) :
    t.RefusesUnknown id (t.path id) := by
  intro e
  cases found : t.get? id with
  | none =>
      rw [(rejects_of_get? found).path]
      simp [eq_comm]
  | some n =>
      obtain ⟨path, climbed⟩ := h.exists_path found
      simp [climbed]

end Tree

end Schematron
