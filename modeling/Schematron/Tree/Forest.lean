import Schematron.Tree.Basic

/-!
# Forests

Several trees side by side. Each tree that is planted gets the next tag of the
forest, so identifiers of different trees differ and are ordered by the planting
of their trees. A copy of a tree shares the tag of its source: identifiers issued
before the copy mean the same node in both, and identifiers issued later by one
of the two are identifiers of the other as soon as it has a node in that place.
-/

namespace Schematron

/-- Trees with the supply of their tags. -/
structure Forest where
  /-- The tag of the tree that is planted next. -/
  nextTag : UInt32
  trees : Array Tree
  deriving Repr

namespace Forest

def empty : Forest := ⟨0, #[]⟩

/-- One more tree without nodes. -/
def plant (f : Forest) : Forest :=
  ⟨f.nextTag + 1, f.trees.push (Tree.empty f.nextTag)⟩

/-- One more tree, which is a copy of one that is there. -/
def copy (f : Forest) (tree : Tree) : Forest := { f with trees := f.trees.push tree }

def set (f : Forest) (place : Nat) (tree : Tree) : Forest :=
  { f with trees := f.trees.setIfInBounds place tree }

end Forest

end Schematron
