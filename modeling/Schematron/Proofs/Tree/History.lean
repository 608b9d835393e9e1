import Schematron.Proofs.Except
import Schematron.Proofs.Tree.Arena
import Schematron.Tree.Forest

/-!
# Histories of trees

`Tree.Action` lists what can be done to one tree, and `Forest.Action` adds the
planting and the copying of trees. A history is any finite list of such actions:
those that fail leave everything as it was, and an action may use identifiers of
any tree. `Tree.Reachable` holds of the trees that some history leads to.

`act_cases` is the only place where the actions are told apart. Whatever the
three changes behind them preserve holds of every reachable tree; soundness is
the first such property. No action removes a node or changes its context, its
parent or the label of its kind, which is what `Tree.Continues` says.
-/

namespace Schematron

theorem Kind.label_withValues (k : Kind) (s : ValueSet) : (k.withValues s).label = k.label := by
  cases k <;> rfl

theorem Kind.label_withRange (k : Kind) (r : NumericRange) : (k.withRange r).label = k.label := by
  cases k <;> rfl

namespace Tree

/-- What can be done to a tree. The typed declarations are `addChild` with their kind. -/
inductive Action where
  | addRoot (context : String) (kind : Kind)
  | addScope (context : String)
  | addChild (parent : NodeId) (context : String) (kind : Kind)
  | setValues (id : NodeId) (values : ValueSet)
  | setRange (id : NodeId) (range : NumericRange)
  deriving DecidableEq, Repr

/-- The tree after an action, or why it was refused. -/
def act (t : Tree) : Action → Except TreeError Tree
  | .addRoot context kind => (t.addRoot context kind).map (·.2)
  | .addScope context => (t.addScope context).map (·.2)
  | .addChild parent context kind => (t.addChild parent context kind).map (·.2)
  | .setValues id values => t.setValues id values
  | .setRange id range => t.setRange id range

/-- The tree after an action, which stays as it is if the action is refused. -/
def perform (t : Tree) (action : Action) : Tree :=
  match t.act action with
  | .ok t => t
  | .error _ => t

variable {t t' : Tree}

theorem perform_of_act {action : Action} (acted : t.act action = .ok t') :
    t.perform action = t' := by
  simp [perform, acted]

theorem addRoot_cases {context : String} {kind : Kind} {id : NodeId}
    (added : t.addRoot context kind = .ok (id, t')) :
    context ≠ "" ∧ id = t.nextId ∧ t' = t.withRoot context kind := by
  by_cases named : context = ""
  · simp [addRoot, named] at added
  · rw [addRoot_of_ne named] at added
    cases added
    exact ⟨named, rfl, rfl⟩

theorem addChild_cases {parent : NodeId} {context : String} {kind : Kind} {id : NodeId}
    (added : t.addChild parent context kind = .ok (id, t')) :
    (∃ n, t.get? parent = some n) ∧ context ≠ "" ∧ id = t.nextId ∧
      t' = t.withChild parent context kind := by
  cases found : t.get? parent with
  | none => simp [addChild, found] at added
  | some n =>
      by_cases named : context = ""
      · simp [addChild, found, named] at added
      · rw [addChild_of_get? found named] at added
        cases added
        exact ⟨⟨n, rfl⟩, named, rfl, rfl⟩

theorem setValues_cases {id : NodeId} {values : ValueSet}
    (changed : t.setValues id values = .ok t') :
    (∃ n, t.get? id = some n) ∧ t' = t.withKind id (·.withValues values) := by
  obtain ⟨n, found, same⟩ := Except.map_eq_ok_iff.mp changed
  exact ⟨⟨n, node_eq_ok_iff.mp found⟩, same.symm⟩

theorem setRange_cases {id : NodeId} {range : NumericRange}
    (changed : t.setRange id range = .ok t') :
    (∃ n, t.get? id = some n) ∧ t' = t.withKind id (·.withRange range) := by
  obtain ⟨n, found, same⟩ := Except.map_eq_ok_iff.mp changed
  exact ⟨⟨n, node_eq_ok_iff.mp found⟩, same.symm⟩

/-- All that a successful action can do. -/
theorem act_cases {action : Action} (acted : t.act action = .ok t') :
    (∃ context kind, context ≠ "" ∧ t' = t.withRoot context kind) ∨
    (∃ parent n context kind, t.get? parent = some n ∧ context ≠ "" ∧
      t' = t.withChild parent context kind) ∨
    (∃ id n values, t.get? id = some n ∧ t' = t.withKind id (·.withValues values)) ∨
    (∃ id n range, t.get? id = some n ∧ t' = t.withKind id (·.withRange range)) := by
  cases action with
  | addRoot context kind =>
      obtain ⟨⟨id, after⟩, added, rfl⟩ := Except.map_eq_ok_iff.mp acted
      obtain ⟨named, -, same⟩ := addRoot_cases added
      exact .inl ⟨context, kind, named, same⟩
  | addScope context =>
      obtain ⟨⟨id, after⟩, added, rfl⟩ := Except.map_eq_ok_iff.mp acted
      obtain ⟨named, -, same⟩ := addRoot_cases added
      exact .inl ⟨context, .scope, named, same⟩
  | addChild parent context kind =>
      obtain ⟨⟨id, after⟩, added, rfl⟩ := Except.map_eq_ok_iff.mp acted
      obtain ⟨⟨n, found⟩, named, -, same⟩ := addChild_cases added
      exact .inr (.inl ⟨parent, n, context, kind, found, named, same⟩)
  | setValues id values =>
      obtain ⟨⟨n, found⟩, same⟩ := setValues_cases acted
      exact .inr (.inr (.inl ⟨id, n, values, found, same⟩))
  | setRange id range =>
      obtain ⟨⟨n, found⟩, same⟩ := setRange_cases acted
      exact .inr (.inr (.inr ⟨id, n, range, found, same⟩))

/-- One action leaves a sound tree sound. -/
theorem Sound.perform (h : t.Sound) (action : Action) : (t.perform action).Sound := by
  unfold Tree.perform
  split
  · next after acted =>
    rcases act_cases acted with ⟨context, kind, named, rfl⟩ |
      ⟨parent, n, context, kind, found, named, rfl⟩ | ⟨id, n, values, -, rfl⟩ |
      ⟨id, n, range, -, rfl⟩
    · exact h.withRoot named
    · exact h.withChild found named
    · exact h.withKind id _
    · exact h.withKind id _
  · exact h

/-- A tree has every node of an earlier one, and nothing but the parameters and the children of a
node have changed. -/
def Continues (later t : Tree) : Prop :=
  ∀ id n, t.get? id = some n → ∃ m, later.get? id = some m ∧
    m.context = n.context ∧ m.parent = n.parent ∧ m.kind.label = n.kind.label

theorem Continues.refl (t : Tree) : t.Continues t := fun _ n found => ⟨n, found, rfl, rfl, rfl⟩

theorem continues_withRoot (context : String) (kind : Kind) :
    (t.withRoot context kind).Continues t := by
  intro id n found
  refine ⟨n, ?_, rfl, rfl, rfl⟩
  rw [get?_withRoot, if_neg (ne_nextId_of_get? found), found]

theorem continues_withChild {parent : NodeId} {p : Node} (above : t.get? parent = some p)
    (context : String) (kind : Kind) : (t.withChild parent context kind).Continues t := by
  intro id n found
  rw [get?_withChild above, if_neg (ne_nextId_of_get? found)]
  split
  · next self =>
    rw [self, above] at found
    cases found
    exact ⟨_, rfl, rfl, rfl, rfl⟩
  · exact ⟨n, found, rfl, rfl, rfl⟩

theorem continues_withKind (id : NodeId) {change : Kind → Kind}
    (same : ∀ k, (change k).label = k.label) : (t.withKind id change).Continues t := by
  intro other n found
  rw [get?_withKind, found]
  split
  · exact ⟨_, rfl, rfl, rfl, same n.kind⟩
  · exact ⟨n, rfl, rfl, rfl, rfl⟩

/-- No action takes a node away. -/
theorem continues_perform (t : Tree) (action : Action) : (t.perform action).Continues t := by
  unfold perform
  split
  · next after acted =>
    rcases act_cases acted with ⟨context, kind, -, rfl⟩ |
      ⟨parent, n, context, kind, found, -, rfl⟩ | ⟨id, n, values, -, rfl⟩ |
      ⟨id, n, range, -, rfl⟩
    · exact continues_withRoot context kind
    · exact continues_withChild found context kind
    · exact continues_withKind id fun k => k.label_withValues values
    · exact continues_withKind id fun k => k.label_withRange range
  · exact .refl t

end Tree

namespace Forest

/-- What can be done to several trees. A place that holds no tree is left alone. -/
inductive Action where
  | plant
  | copy (place : Nat)
  | act (place : Nat) (action : Tree.Action)
  deriving DecidableEq, Repr

def perform (f : Forest) : Action → Forest
  | .plant => f.plant
  | .copy place =>
    match f.trees[place]? with
    | some t => f.copy t
    | none => f
  | .act place action =>
    match f.trees[place]? with
    | some t => f.set place (t.perform action)
    | none => f

def run (actions : List Action) : Forest := actions.foldl perform empty

/-- What holds of every new tree and is kept by every action on a tree holds of all trees that
one action of a forest leaves. -/
theorem forall_mem_perform {P : Tree → Prop} (planted : ∀ tag, P (.empty tag))
    (kept : ∀ t, P t → ∀ action, P (t.perform action)) {f : Forest}
    (holds : ∀ t ∈ f.trees, P t) (action : Action) : ∀ t ∈ (f.perform action).trees, P t := by
  intro t member
  cases action with
  | plant =>
      rcases Array.mem_push.mp member with old | rfl
      · exact holds t old
      · exact planted f.nextTag
  | copy place =>
      simp only [perform] at member
      split at member
      · next source found =>
        rcases Array.mem_push.mp member with old | rfl
        · exact holds t old
        · exact holds t (Array.mem_of_getElem? found)
      · exact holds t member
  | act place action =>
      simp only [perform] at member
      split at member
      · next before found =>
        rcases Array.mem_or_eq_of_mem_setIfInBounds member with old | rfl
        · exact holds t old
        · exact kept before (holds before (Array.mem_of_getElem? found)) action
      · exact holds t member

/-- The same for whole histories. -/
theorem forall_mem_run {P : Tree → Prop} (planted : ∀ tag, P (.empty tag))
    (kept : ∀ t, P t → ∀ action, P (t.perform action)) (actions : List Action) :
    ∀ t ∈ (run actions).trees, P t := by
  have from_forest (f : Forest) (holds : ∀ t ∈ f.trees, P t) :
      ∀ t ∈ (actions.foldl perform f).trees, P t := by
    induction actions generalizing f with
    | nil => exact holds
    | cons action rest ih =>
        exact ih (f.perform action) (forall_mem_perform planted kept holds action)
  exact from_forest empty (by simp [empty])

/-- The tree in a place continues the one that was there before. -/
theorem exists_continues_perform {f : Forest} {place : Nat} {t : Tree}
    (planted : f.trees[place]? = some t) (action : Action) :
    ∃ later, (f.perform action).trees[place]? = some later ∧ later.Continues t := by
  have inside := (Array.getElem?_eq_some_iff.mp planted).1
  have pushed (new : Tree) : (f.trees.push new)[place]? = some t := by
    rw [Array.getElem?_push_lt inside, ← planted, Array.getElem?_eq_getElem inside]
  cases action with
  | plant => exact ⟨t, pushed _, .refl t⟩
  | copy source =>
      simp only [perform]
      split
      · exact ⟨t, pushed _, .refl t⟩
      · exact ⟨t, planted, .refl t⟩
  | act other action =>
      simp only [perform]
      split
      · next before found =>
        by_cases same : other = place
        · subst same
          rw [planted] at found
          cases found
          refine ⟨t.perform action, ?_, t.continues_perform action⟩
          simp [set, inside]
        · refine ⟨t, ?_, .refl t⟩
          simp [set, same, planted]
      · exact ⟨t, planted, .refl t⟩

end Forest

namespace Tree

/-- Some history leads to the tree. -/
def Reachable (t : Tree) : Prop := ∃ actions, t ∈ (Forest.run actions).trees

theorem Reachable.sound {t : Tree} (h : t.Reachable) : t.Sound := by
  obtain ⟨actions, member⟩ := h
  exact Forest.forall_mem_run Sound.empty (fun _ sound => sound.perform) actions t member

end Tree

end Schematron
