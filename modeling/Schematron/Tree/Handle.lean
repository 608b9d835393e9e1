import Schematron.Tree.Path

/-!
# Handles

A handle is a node together with its tree, held for declaring what is below the
node. A tree hands it out for a node that it has. From then on the handle looks
at the place of the node and no longer at the tag of its identifier.

The handle of a child takes the tree over. What it does to the tree shows in the
handle of the parent once that one has the tree back.
-/

namespace Schematron

/-- A node that is held with its tree. -/
structure Handle where
  tree : Tree
  id : NodeId
  deriving DecidableEq, Repr

namespace Handle

/-- The node in the place of the handle. Without one in that place the handle cannot be used. -/
def node? (h : Handle) : Option Node := h.tree.nodes[h.id.index]?

def context? (h : Handle) : Option String := h.node?.map Node.context

def kind? (h : Handle) : Option Kind := h.node?.map Node.kind

def path (h : Handle) : Except TreeError String := h.tree.path h.id

/-- Declares a child and hands it out. -/
def addChild (h : Handle) (context : String) (kind : Kind) : Except TreeError Handle :=
  (h.tree.addChild h.id context kind).map fun (id, tree) => ⟨tree, id⟩

def values? (h : Handle) : Option ValueSet := (h.tree.values? h.id).toOption.join

def range? (h : Handle) : Option NumericRange := (h.tree.range? h.id).toOption.join

def setValues (h : Handle) (values : ValueSet) : Handle :=
  match h.tree.setValues h.id values with
  | .ok tree => { h with tree }
  | .error _ => h

def setRange (h : Handle) (range : NumericRange) : Handle :=
  match h.tree.setRange h.id range with
  | .ok tree => { h with tree }
  | .error _ => h

/-- A node of the tree is what its handle looks at. -/
theorem node?_of_get? {h : Handle} {n : Node} (found : h.tree.get? h.id = some n) :
    h.node? = some n := by
  rw [Tree.get?] at found
  split at found
  · exact found
  · cases found

end Handle

namespace Tree

/-- Declares a root that only holds other constraints, and hands it out. -/
def scope (t : Tree) (context : String) : Except TreeError Handle :=
  (t.addScope context).map fun (id, tree) => ⟨tree, id⟩

def handle (t : Tree) (id : NodeId) : Except TreeError Handle := (t.node id).map fun _ => ⟨t, id⟩

end Tree

end Schematron
