import Schematron.Kind
import Schematron.Tree.Children

/-!
# Constraint trees

A tree holds the constraints of one document structure. Its nodes live in one
array in the order of their declaration; a node knows its parent, and its
children by their contexts. Declaring a child again under the same context
replaces the link to the earlier one, which stays in the array without being
reachable any more.

Identifiers carry the tag of the tree that issued them, so that a tree rejects
the identifiers of every other one. A copy of a tree is the same value and keeps
the tag.

`get?` is the view of a tree: the statements behind the operations say what each
of them does to the nodes that are found.
-/

namespace Schematron

inductive TreeError where
  /-- A constraint was declared with an empty context. -/
  | emptyContext
  /-- The tree has no node of this identifier. -/
  | unknownNode (id : NodeId)
  deriving DecidableEq, Repr

namespace TreeError

def message : TreeError → String
  | emptyContext => "constraint context must not be empty"
  | unknownNode id => "unknown constraint node " ++ id.display

end TreeError

/-- A constraint: a location path relative to the parent's, and what is said about it. -/
structure Node where
  context : String
  kind : Kind
  /-- The enclosing constraint; a root has none. -/
  parent : Option NodeId
  children : Children
  deriving DecidableEq, Repr

namespace Node

def isLeaf (n : Node) : Bool := n.children.isEmpty

/-- The node with a child under a context, in place of the one it has there. -/
def link (n : Node) (context : String) (child : NodeId) : Node :=
  { n with children := n.children.insert context child }

end Node

/-- One or more constraint trees that share an array of nodes. -/
structure Tree where
  tag : UInt32
  /-- Every declared node, those that are no longer reachable included. -/
  nodes : Array Node
  /-- The nodes without a parent, in the order of their declaration. -/
  roots : List NodeId
  deriving DecidableEq, Repr

namespace Tree

def empty (tag : UInt32) : Tree := ⟨tag, #[], []⟩

def size (t : Tree) : Nat := t.nodes.size

def isEmpty (t : Tree) : Bool := t.nodes.isEmpty

/-- The node of an identifier that this tree issued. -/
def get? (t : Tree) (id : NodeId) : Option Node :=
  if id.tag = t.tag then t.nodes[id.index]? else none

def node (t : Tree) (id : NodeId) : Except TreeError Node :=
  match t.get? id with
  | some n => .ok n
  | none => .error (.unknownNode id)

theorem node_eq_ok_iff {t : Tree} {id : NodeId} {n : Node} :
    t.node id = .ok n ↔ t.get? id = some n := by
  unfold node
  split <;> simp_all

theorem get?_of_tag_ne {t : Tree} {id : NodeId} (h : id.tag ≠ t.tag) : t.get? id = none := by
  simp [get?, h]

def scopeRoots (t : Tree) : List NodeId :=
  t.roots.filter fun id => (t.get? id).any fun n => n.kind.isScope

/-- The identifier that the next declaration gets. -/
def nextId (t : Tree) : NodeId := ⟨t.tag, t.nodes.size⟩

/-- The tree with one node more, which no other node knows yet. -/
def push (t : Tree) (node : Node) : Tree := { t with nodes := t.nodes.push node }

/-- The tree with the node of an identifier changed, if there is one. -/
def modify (t : Tree) (id : NodeId) (change : Node → Node) : Tree :=
  if id.tag = t.tag then { t with nodes := t.nodes.modify id.index change } else t

/-- Declares a root, whose context is taken as an absolute path. -/
def addRoot (t : Tree) (context : String) (kind : Kind) : Except TreeError (NodeId × Tree) :=
  if context = "" then .error .emptyContext
  else
    .ok (t.nextId,
      { t.push ⟨context, kind, none, .empty⟩ with roots := t.roots ++ [t.nextId] })

/-- Declares a root that only holds other constraints. -/
def addScope (t : Tree) (context : String) : Except TreeError (NodeId × Tree) :=
  t.addRoot context .scope

/-- Declares a child, in place of the parent's child of the same context if there is one. The
parent is looked for before the context is checked. -/
def addChild (t : Tree) (parent : NodeId) (context : String) (kind : Kind) :
    Except TreeError (NodeId × Tree) :=
  match t.get? parent with
  | none => .error (.unknownNode parent)
  | some _ =>
    if context = "" then .error .emptyContext
    else
      .ok (t.nextId,
        (t.push ⟨context, kind, some parent, .empty⟩).modify parent (·.link context t.nextId))

/-- The set of a set constraint, and `none` for a node of another kind. -/
def values? (t : Tree) (id : NodeId) : Except TreeError (Option ValueSet) :=
  (t.node id).map fun n => n.kind.values?

def range? (t : Tree) (id : NodeId) : Except TreeError (Option NumericRange) :=
  (t.node id).map fun n => n.kind.range?

/-- Gives a set constraint another set; nodes of other kinds stay as they are. -/
def setValues (t : Tree) (id : NodeId) (values : ValueSet) : Except TreeError Tree :=
  (t.node id).map fun _ => t.modify id fun n => { n with kind := n.kind.withValues values }

/-- Gives a numeric constraint another range; nodes of other kinds stay as they are. -/
def setRange (t : Tree) (id : NodeId) (range : NumericRange) : Except TreeError Tree :=
  (t.node id).map fun _ => t.modify id fun n => { n with kind := n.kind.withRange range }

@[simp] theorem get?_empty (tag : UInt32) (id : NodeId) : (Tree.empty tag).get? id = none := by
  simp [get?, empty]

@[simp] theorem get?_nextId (t : Tree) : t.get? t.nextId = none := by
  simp [get?, nextId]

@[simp] theorem tag_push (t : Tree) (node : Node) : (t.push node).tag = t.tag := rfl

@[simp] theorem roots_push (t : Tree) (node : Node) : (t.push node).roots = t.roots := rfl

@[simp] theorem size_push (t : Tree) (node : Node) : (t.push node).size = t.size + 1 := by
  simp [push, size]

/-- A new node is found under the next identifier, and all others are found as before. -/
@[simp] theorem get?_push (t : Tree) (node : Node) (id : NodeId) :
    (t.push node).get? id = if id = t.nextId then some node else t.get? id := by
  obtain ⟨tag, index⟩ := id
  simp only [get?, push, nextId, Array.getElem?_push, NodeId.mk.injEq]
  grind

@[simp] theorem tag_modify (t : Tree) (id : NodeId) (change : Node → Node) :
    (t.modify id change).tag = t.tag := by
  unfold modify
  split <;> rfl

@[simp] theorem roots_modify (t : Tree) (id : NodeId) (change : Node → Node) :
    (t.modify id change).roots = t.roots := by
  unfold modify
  split <;> rfl

@[simp] theorem size_modify (t : Tree) (id : NodeId) (change : Node → Node) :
    (t.modify id change).size = t.size := by
  unfold modify
  split <;> simp [size]

/-- A changed node is found changed, and all others are found as before. -/
@[simp] theorem get?_modify (t : Tree) (id : NodeId) (change : Node → Node) (other : NodeId) :
    (t.modify id change).get? other =
      if other = id then (t.get? other).map change else t.get? other := by
  obtain ⟨tag, index⟩ := id
  obtain ⟨otherTag, otherIndex⟩ := other
  unfold modify get?
  split <;> simp only [Array.getElem?_modify, NodeId.mk.injEq] <;> grind

end Tree

end Schematron
