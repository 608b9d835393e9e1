import Schematron.Proofs.Document.Reachable
import Schematron.Proofs.Tree.InPlace

/-!
# Scopes in place

A pattern opens a scope in three steps: its tree gets a root, its items get the
scope, and a handle of the new root is handed out. Each of them could fail and
leave the earlier ones behind. As with the declarations of a tree, nothing is left
half done: `declarations_atomic` collects when the operations of trees and patterns
are refused, and says that a refused one changes nothing while one that succeeds
adds one node, and one item if it opens a scope.
-/

namespace Schematron

namespace Pattern

namespace InPlace

/-- Works on the tree of a pattern in place. -/
def onTree {α : Type} (steps : EStateM TreeError Tree α) : EStateM TreeError Pattern α := fun p =>
  match steps p.constraints with
  | .ok a t => .ok a { p with constraints := t }
  | .error e t => .error e { p with constraints := t }

/-- Opens a scope: declares its root, puts the scope among the items and looks for the root. -/
def addScope (context : String) : EStateM TreeError Pattern NodeId := do
  let id ← onTree (Tree.InPlace.addRoot context .scope)
  let p : Pattern ← get
  set ({ p with items := p.items ++ [.scope id] } : Pattern)
  let _ ← onTree (Tree.InPlace.node id)
  return id

def addChild (parent : NodeId) (context : String) (kind : Kind) :
    EStateM TreeError Pattern NodeId :=
  onTree (Tree.InPlace.addChild parent context kind)

variable {p : Pattern}

theorem onTree_allOrNothing {α : Type} {steps : EStateM TreeError Tree α}
    {operation : Except TreeError (α × Tree)}
    (same : steps p.constraints = allOrNothing p.constraints operation) :
    onTree steps p =
      allOrNothing p (operation.map fun made => (made.1, { p with constraints := made.2 })) := by
  rw [onTree, same]
  cases operation <;> rfl

/-- A scope is opened at once or not at all: its root is there when it is looked for. -/
theorem addScope_eq (context : String) (p : Pattern) :
    addScope context p = allOrNothing p (p.addScope context) := by
  have root := onTree_allOrNothing (Tree.InPlace.addRoot_eq context .scope p.constraints)
  by_cases named : context = ""
  · subst named
    rfl
  · rw [Tree.addRoot_of_ne named] at root
    have found : (p.constraints.withRoot context .scope).get? p.constraints.nextId =
        some ⟨context, .scope, none, .empty⟩ := by
      rw [Tree.get?_withRoot, if_pos rfl]
    have looked := onTree_allOrNothing (p := { p with
      items := p.items ++ [.scope p.constraints.nextId]
      constraints := p.constraints.withRoot context .scope })
      (Tree.InPlace.node_eq p.constraints.nextId _)
    rw [Tree.node_eq_ok_iff.mpr found] at looked
    simp only [Except.map, allOrNothing] at root looked
    have opened : p.addScope context = .ok (p.constraints.nextId, { p with
        items := p.items ++ [.scope p.constraints.nextId]
        constraints := p.constraints.withRoot context .scope }) := by
      rw [Pattern.addScope, Tree.addScope, Tree.addRoot_of_ne named]
      rfl
    simp only [addScope, bind, EStateM.bind, root, opened]
    change EStateM.bind (onTree (Tree.InPlace.node p.constraints.nextId))
      (fun _ => EStateM.pure p.constraints.nextId) { p with
        items := p.items ++ [.scope p.constraints.nextId]
        constraints := p.constraints.withRoot context .scope } = _
    rw [EStateM.bind, looked]
    rfl

theorem addChild_eq (parent : NodeId) (context : String) (kind : Kind) (p : Pattern) :
    addChild parent context kind p = allOrNothing p (p.addChild parent context kind) := by
  rw [addChild, onTree_allOrNothing (Tree.InPlace.addChild_eq parent context kind p.constraints)]
  cases declared : p.constraints.addChild parent context kind <;>
    simp [Pattern.addChild, declared, bind, Except.bind, pure, Except.pure, Except.map]

end InPlace

variable {p : Pattern}

/-- What is done at once to the tree of a pattern is done at once to the pattern. -/
theorem settles_onTree {refusal : Option TreeError} {declared : NodeId → Tree → Prop}
    {operation : Except TreeError (NodeId × Tree)}
    (settles : Settles refusal p.constraints declared (allOrNothing p.constraints operation))
    (result : NodeId → Tree → Pattern) (constraints : ∀ id t, (result id t).constraints = t) :
    Settles refusal p
      (fun id p' => p' = result id p'.constraints ∧ declared id p'.constraints)
      (allOrNothing p (operation.map fun made => (made.1, result made.1 made.2))) := by
  cases operation with
  | error e => exact ⟨settles.1, rfl⟩
  | ok made =>
      obtain ⟨free, done⟩ := settles
      refine ⟨free, ?_, ?_⟩
      · rw [constraints]
      · rw [constraints]
        exact done

theorem atOnce_addScope (context : String) (p : Pattern) :
    AtOnce p (InPlace.addScope context) (p.addScope context) (Tree.rootRefusal context)
      fun id p' => p' = { p with items := p.items ++ [.scope id], constraints := p'.constraints } ∧
        p.constraints.Declared id ⟨context, .scope, none, .empty⟩ p'.constraints where
  steps_eq := InPlace.addScope_eq context p
  settles := by
    have settles := settles_onTree (Tree.atOnce_addRoot context .scope p.constraints).settles
      (fun id t => { p with items := p.items ++ [.scope id], constraints := t }) fun _ _ => rfl
    have same : p.addScope context = (p.constraints.addRoot context .scope).map fun made =>
        (made.1, { p with items := p.items ++ [.scope made.1], constraints := made.2 }) := by
      rw [addScope, Tree.addScope]
      cases p.constraints.addRoot context .scope <;> rfl
    rw [same]
    exact settles

theorem atOnce_addChild (parent : NodeId) (context : String) (kind : Kind) (p : Pattern) :
    AtOnce p (InPlace.addChild parent context kind) (p.addChild parent context kind)
      (p.constraints.childRefusal parent context)
      fun id p' => p' = { p with constraints := p'.constraints } ∧
        p.constraints.Declared id ⟨context, kind, some parent, .empty⟩ p'.constraints where
  steps_eq := InPlace.addChild_eq parent context kind p
  settles := by
    have settles := settles_onTree (Tree.atOnce_addChild parent context kind p.constraints).settles
      (fun _ t => { p with constraints := t }) fun _ _ => rfl
    have same : p.addChild parent context kind =
        (p.constraints.addChild parent context kind).map fun made =>
          (made.1, { p with constraints := made.2 }) := by
      rw [addChild]
      cases p.constraints.addChild parent context kind <;> rfl
    rw [same]
    exact settles

end Pattern

/-! ### Handles -/

/-- The outcome of a declaration through a handle: the new node and the tree it is in. -/
def Handle.outcome (t : Tree) (handed : Except TreeError Handle) :
    EStateM.Result TreeError Tree NodeId :=
  allOrNothing t (handed.map fun h => (h.id, h.tree))

theorem Tree.outcome_scope (t : Tree) (context : String) :
    Handle.outcome t (t.scope context) = allOrNothing t (t.addRoot context .scope) := by
  rw [Handle.outcome, scope, addScope]
  cases t.addRoot context .scope <;> rfl

theorem Handle.outcome_addChild (t : Tree) (id : NodeId) (context : String) (kind : Kind) :
    outcome t (addChild ⟨t, id⟩ context kind) = allOrNothing t (t.addChild id context kind) := by
  rw [outcome, addChild]
  cases t.addChild id context kind <;> rfl

/-! ### All operations -/

/-- How a tree takes declarations, on itself and through a handle. -/
structure Tree.Declarations (t : Tree) (context : String) (kind : Kind) (id : NodeId) : Prop where
  root : AtOnce t (InPlace.addRoot context kind) (t.addRoot context kind) (rootRefusal context)
    fun new t' => t.Declared new ⟨context, kind, none, .empty⟩ t'
  scope : Settles (rootRefusal context) t
    (fun new t' => t.Declared new ⟨context, .scope, none, .empty⟩ t')
    (Handle.outcome t (t.scope context))
  child : AtOnce t (InPlace.addChild id context kind) (t.addChild id context kind)
    (t.childRefusal id context)
    fun new t' => t.Declared new ⟨context, kind, some id, .empty⟩ t'
  handleChild : Settles (t.childRefusal id context) t
    (fun new t' => t.Declared new ⟨context, kind, some id, .empty⟩ t')
    (Handle.outcome t (Handle.addChild ⟨t, id⟩ context kind))

/-- Whatever else is asked of a node is refused exactly for want of the node. -/
structure Tree.Refusals (t : Tree) (id : NodeId) : Prop where
  handle : t.RefusesUnknown id (t.handle id)
  values? : t.RefusesUnknown id (t.values? id)
  setValues : ∀ values, t.RefusesUnknown id (t.setValues id values)
  range? : t.RefusesUnknown id (t.range? id)
  setRange : ∀ range, t.RefusesUnknown id (t.setRange id range)
  path : t.RefusesUnknown id (t.path id)

/-- How a pattern takes declarations: a scope is one item more, and a declaration below one leaves
the items alone. -/
structure Pattern.Declarations (p : Pattern) (context : String) (kind : Kind) (parent : NodeId) :
    Prop where
  scope : AtOnce p (InPlace.addScope context) (p.addScope context) (Tree.rootRefusal context)
    fun new p' => p' = { p with
      items := p.items ++ [.scope new], constraints := p'.constraints } ∧
      p.constraints.Declared new ⟨context, .scope, none, .empty⟩ p'.constraints
  child : AtOnce p (InPlace.addChild parent context kind) (p.addChild parent context kind)
    (p.constraints.childRefusal parent context)
    fun new p' => p' = { p with constraints := p'.constraints } ∧
      p.constraints.Declared new ⟨context, kind, some parent, .empty⟩ p'.constraints

/-- A root is refused exactly for want of a context, a child exactly for want of its parent or else
of a context. Refused declarations change nothing, although they are made in steps; the others add
one node, and one item if they open a scope. A tree with a history refuses anything else that is
asked of a node exactly if it does not have the node. -/
theorem declarations_atomic :
    (∀ (t : Tree) context kind id, t.Declarations context kind id) ∧
    (∀ t : Tree, t.Reachable → ∀ id, t.Refusals id) ∧
    ∀ (p : Pattern) context kind parent, p.Declarations context kind parent := by
  refine ⟨fun t context kind id => ?_, fun t reachable id => ?_, fun p context kind parent => ?_⟩
  · have root := Tree.atOnce_addRoot context kind t
    have child := Tree.atOnce_addChild id context kind t
    refine ⟨root, ?_, child, ?_⟩
    · rw [Tree.outcome_scope]
      exact (Tree.atOnce_addRoot context .scope t).settles
    · rw [Handle.outcome_addChild]
      exact child.settles
  · exact ⟨Tree.refusesUnknown_map _, Tree.refusesUnknown_map _,
      fun _ => Tree.refusesUnknown_map _, Tree.refusesUnknown_map _,
      fun _ => Tree.refusesUnknown_map _, reachable.sound.refusesUnknown_path id⟩
  · exact ⟨Pattern.atOnce_addScope context p, Pattern.atOnce_addChild parent context kind p⟩

/-- A tree with one root, and a pattern with one scope: both faults at once, a fault in the second
step and no fault. -/
theorem declarations_atomic_small :
    ∃ t : Tree, t.Reachable ∧ t.path ⟨0, 5⟩ = .error (.unknownNode ⟨0, 5⟩) ∧
      Tree.InPlace.addChild ⟨0, 5⟩ "" .scope t = .error (.unknownNode ⟨0, 5⟩) t ∧
      Tree.InPlace.addChild ⟨0, 0⟩ "" .scope t = .error .emptyContext t ∧
      (∃ new t', Tree.InPlace.addChild ⟨0, 0⟩ "a" .scope t = .ok new t' ∧
        t.Declared new ⟨"a", .scope, some ⟨0, 0⟩, .empty⟩ t') ∧
      Pattern.InPlace.addScope "" ⟨none, none, [.scope ⟨0, 0⟩], t⟩ =
        .error .emptyContext ⟨none, none, [.scope ⟨0, 0⟩], t⟩ := by
  let t := (Tree.empty 0).perform (.addScope "/")
  have reachable : t.Reachable := ⟨[.plant, .act 0 (.addScope "/")], by decide +kernel⟩
  have absent : t.get? ⟨0, 5⟩ = none := by decide +kernel
  have present : ¬ t.get? ⟨0, 0⟩ = none := by decide +kernel
  obtain ⟨trees, refusals, patterns⟩ := declarations_atomic
  have nowhere := (trees t "" .scope ⟨0, 5⟩).child
  have unnamed := (trees t "" .scope ⟨0, 0⟩).child
  have child := (trees t "a" .scope ⟨0, 0⟩).child
  have scope := (patterns ⟨none, none, [.scope ⟨0, 0⟩], t⟩ "" .scope ⟨0, 0⟩).scope
  simp only [Tree.childRefusal, absent, present, if_true, if_false] at nowhere unnamed child
  refine ⟨t, reachable, ?_, ?_, ?_, ?_, ?_⟩
  · exact ((refusals t reachable ⟨0, 5⟩).path _).mpr ⟨absent, rfl⟩
  · exact nowhere.steps_eq.trans nowhere.settles.refused
  · exact unnamed.steps_eq.trans unnamed.settles.refused
  · rw [child.steps_eq]
    exact child.settles.done
  · exact scope.steps_eq.trans scope.settles.refused

end Schematron
