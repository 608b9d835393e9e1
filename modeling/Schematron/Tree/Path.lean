import Schematron.Tree.Basic

/-!
# Absolute paths

The absolute path of a node joins the contexts from its root down to it with
slashes. No slash is put behind a path that is exactly `/`, so a context below
the document root does not start with two of them.

A parent is declared before its children, so the climb to the root passes from
each place to a smaller one.
-/

namespace Schematron

/-- A path continued by a context. -/
def joinPath (path context : String) : String :=
  if path = "/" then path ++ context else path ++ "/" ++ context

/-- The path that contexts from a root down lead to. -/
def pathOfContexts : List String → String
  | [] => ""
  | root :: rest => rest.foldl joinPath root

namespace Tree

/-- The contexts from the root of a node down to it. An identifier that is no earlier than the
one below it belongs to no parent. -/
def lineage (t : Tree) (id : NodeId) : Except TreeError (List String) := do
  let node ← t.node id
  match node.parent with
  | none => return [node.context]
  | some parent =>
    if _h : parent.index < id.index then
      return (← t.lineage parent) ++ [node.context]
    else .error (.unknownNode parent)
termination_by id.index

/-- The absolute path of a node; a root's is its own context. -/
def path (t : Tree) (id : NodeId) : Except TreeError String :=
  (t.lineage id).map pathOfContexts

end Tree

end Schematron
