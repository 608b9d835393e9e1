import Mathlib.Data.List.Induction
import Schematron.Proofs.Tree.History
import Schematron.Proofs.Tree.Links
import Schematron.Tree.Handle

/-!
# Sessions with handles

A session works on several trees, on each of them directly or through handles
that were handed out before. A handle may be used at any time and in any order,
which is more than a borrowed one can do, and identifiers may come from any tree.

A handle has no operation of its own: whatever is done through it is an action on
its tree. The trees of a session are therefore trees of some history, and a node
that was handed out once stays in its place, since no action removes a node.
`links_agree` puts this together.
-/

namespace Schematron

/-! ### What is done through a handle -/

namespace Tree

variable {t : Tree} {h h' : Handle} {id : NodeId} {context : String} {kind : Kind}

theorem scope_cases (handed : t.scope context = .ok h) :
    h.tree = t.perform (.addScope context) ∧ ∃ n, h.tree.get? h.id = some n := by
  obtain ⟨⟨id, after⟩, added, rfl⟩ := Except.map_eq_ok_iff.mp handed
  have acted : t.act (.addScope context) = .ok after := by
    rw [act, added]
    rfl
  obtain ⟨-, rfl, rfl⟩ := addRoot_cases added
  exact ⟨(perform_of_act acted).symm, _, by rw [get?_withRoot, if_pos rfl]⟩

theorem handle_cases (handed : t.handle id = .ok h) :
    h = ⟨t, id⟩ ∧ ∃ n, t.get? id = some n := by
  obtain ⟨n, found, rfl⟩ := Except.map_eq_ok_iff.mp handed
  exact ⟨rfl, n, node_eq_ok_iff.mp found⟩

end Tree

namespace Handle

variable {h h' : Handle} {context : String} {kind : Kind}

theorem addChild_cases (handed : h.addChild context kind = .ok h') :
    h'.tree = h.tree.perform (.addChild h.id context kind) ∧
      ∃ n, h'.tree.get? h'.id = some n := by
  obtain ⟨⟨id, after⟩, added, rfl⟩ := Except.map_eq_ok_iff.mp handed
  have acted : h.tree.act (.addChild h.id context kind) = .ok after := by
    rw [Tree.act, added]
    rfl
  obtain ⟨⟨n, found⟩, -, rfl, rfl⟩ := Tree.addChild_cases added
  exact ⟨(Tree.perform_of_act acted).symm, _, by rw [Tree.get?_withChild found, if_pos rfl]⟩

theorem tree_setValues (h : Handle) (values : ValueSet) :
    (h.setValues values).tree = h.tree.perform (.setValues h.id values) := by
  unfold setValues Tree.perform Tree.act
  split <;> simp_all

theorem tree_setRange (h : Handle) (range : NumericRange) :
    (h.setRange range).tree = h.tree.perform (.setRange h.id range) := by
  unfold setRange Tree.perform Tree.act
  split <;> simp_all

end Handle

namespace Tree

/-- A handle that was handed out, with the place of its tree. -/
structure Held where
  place : Nat
  id : NodeId
  deriving DecidableEq, Repr

/-- Trees with all handles that were handed out on them. -/
structure Session where
  forest : Forest
  handles : List Held

namespace Session

/-- What can be done in a session. Handles go by the order in which they were handed out, and a
place that holds no tree or a number that belongs to no handle is left alone. -/
inductive Action where
  | forest (action : Forest.Action)
  | scope (place : Nat) (context : String)
  | handle (place : Nat) (id : NodeId)
  | addChild (number : Nat) (context : String) (kind : Kind)
  | setValues (number : Nat) (values : ValueSet)
  | setRange (number : Nat) (range : NumericRange)
  deriving DecidableEq, Repr

/-- A handle as it is now, with the place of its tree. -/
def handle? (s : Session) (number : Nat) : Option (Nat × Handle) := do
  let held ← s.handles[number]?
  let tree ← s.forest.trees[held.place]?
  return (held.place, ⟨tree, held.id⟩)

/-- The session with one handle more, unless it was refused. -/
def hand (s : Session) (place : Nat) : Except TreeError Handle → Session
  | .ok h => ⟨s.forest.set place h.tree, s.handles ++ [⟨place, h.id⟩]⟩
  | .error _ => s

/-- The session with the tree in a place changed through a handle. -/
def give (s : Session) (place : Nat) (h : Handle) : Session :=
  { s with forest := s.forest.set place h.tree }

def perform (s : Session) : Action → Session
  | .forest action => { s with forest := s.forest.perform action }
  | .scope place context =>
    match s.forest.trees[place]? with
    | some t => s.hand place (t.scope context)
    | none => s
  | .handle place id =>
    match s.forest.trees[place]? with
    | some t => s.hand place (t.handle id)
    | none => s
  | .addChild number context kind =>
    match s.handle? number with
    | some (place, h) => s.hand place (h.addChild context kind)
    | none => s
  | .setValues number values =>
    match s.handle? number with
    | some (place, h) => s.give place (h.setValues values)
    | none => s
  | .setRange number range =>
    match s.handle? number with
    | some (place, h) => s.give place (h.setRange range)
    | none => s

def run (actions : List Action) : Session := actions.foldl perform ⟨.empty, []⟩

/-- The node of a handle is in the tree that the handle was handed out on. -/
def Holds (s : Session) (held : Held) : Prop :=
  ∃ t n, s.forest.trees[held.place]? = some t ∧ t.get? held.id = some n

/-- What one action can do to a session: at most one action on its trees, and new handles only for
nodes that are there. -/
structure Step (s s' : Session) : Prop where
  forest : s'.forest = s.forest ∨ ∃ action, s'.forest = s.forest.perform action
  handles : ∀ held ∈ s'.handles, held ∈ s.handles ∨ s'.Holds held

variable {s s' : Session} {place number : Nat} {t : Tree} {h : Handle}

theorem handle?_cases (opened : s.handle? number = some (place, h)) :
    s.forest.trees[place]? = some h.tree := by
  simp only [handle?, Option.bind_eq_bind, Option.bind_eq_some_iff] at opened
  obtain ⟨held, -, tree, planted, same⟩ := opened
  cases same
  exact planted

/-- To put back what an action makes of a tree is an action on the trees. -/
theorem set_perform (planted : s.forest.trees[place]? = some t) (action : Tree.Action) :
    s.forest.set place (t.perform action) = s.forest.perform (.act place action) := by
  simp [Forest.perform, planted]

theorem step_refl (s : Session) : Step s s := ⟨.inl rfl, fun _ member => .inl member⟩

theorem step_give (planted : s.forest.trees[place]? = some t) {action : Tree.Action}
    (acted : h.tree = t.perform action) : Step s (s.give place h) where
  forest := .inr ⟨.act place action, by rw [give, acted, set_perform planted]⟩
  handles _ member := .inl member

theorem step_hand (planted : s.forest.trees[place]? = some t) {handed : Except TreeError Handle}
    (cases : ∀ h, handed = .ok h →
      (h.tree = t ∨ ∃ action, h.tree = t.perform action) ∧ ∃ n, h.tree.get? h.id = some n) :
    Step s (s.hand place handed) := by
  cases handed with
  | error e => exact step_refl s
  | ok h =>
      obtain ⟨tree, n, found⟩ := cases h rfl
      have inside := (Array.getElem?_eq_some_iff.mp planted).1
      constructor
      · rcases tree with same | ⟨action, acted⟩
        · left
          obtain ⟨inside, rfl⟩ := Array.getElem?_eq_some_iff.mp planted
          rw [hand, same, Forest.set, Array.setIfInBounds, dif_pos inside, Array.set_getElem_self]
        · exact .inr ⟨.act place action, by rw [hand, acted, set_perform planted]⟩
      · intro held member
        rcases List.mem_append.mp member with old | new
        · exact .inl old
        · rw [List.mem_singleton.mp new]
          exact .inr ⟨h.tree, n, by simp [hand, Forest.set, inside], found⟩

theorem step_perform (s : Session) (action : Action) : Step s (s.perform action) := by
  cases action with
  | forest action => exact ⟨.inr ⟨action, rfl⟩, fun _ member => .inl member⟩
  | scope place context =>
      simp only [perform]
      split
      · next t planted =>
        refine step_hand planted fun h handed => ?_
        obtain ⟨acted, found⟩ := Tree.scope_cases handed
        exact ⟨.inr ⟨_, acted⟩, found⟩
      · exact step_refl s
  | handle place id =>
      simp only [perform]
      split
      · next t planted =>
        refine step_hand planted fun h handed => ?_
        obtain ⟨rfl, found⟩ := Tree.handle_cases handed
        exact ⟨.inl rfl, found⟩
      · exact step_refl s
  | addChild number context kind =>
      simp only [perform]
      split
      · next place h opened =>
        refine step_hand (handle?_cases opened) fun h' handed => ?_
        obtain ⟨acted, found⟩ := Handle.addChild_cases handed
        exact ⟨.inr ⟨_, acted⟩, found⟩
      · exact step_refl s
  | setValues number values =>
      simp only [perform]
      split
      · next place h opened => exact step_give (handle?_cases opened) (h.tree_setValues values)
      · exact step_refl s
  | setRange number range =>
      simp only [perform]
      split
      · next place h opened => exact step_give (handle?_cases opened) (h.tree_setRange range)
      · exact step_refl s

/-- A handle that holds a node keeps it. -/
theorem Step.holds (step : Step s s') {held : Held} (holds : s.Holds held) : s'.Holds held := by
  obtain ⟨t, n, planted, found⟩ := holds
  rcases step.forest with same | ⟨action, acted⟩
  · exact ⟨t, n, same ▸ planted, found⟩
  · obtain ⟨later, planted', continues⟩ := Forest.exists_continues_perform planted action
    obtain ⟨m, found', -⟩ := continues held.id n found
    exact ⟨later, m, acted ▸ planted', found'⟩

theorem run_concat (actions : List Action) (action : Action) :
    run (actions ++ [action]) = (run actions).perform action := by
  simp [run]

/-- The trees of a session are those of a history without handles. -/
theorem exists_forest_run (actions : List Action) :
    ∃ forestActions, (run actions).forest = Forest.run forestActions := by
  induction actions using List.reverseRecOn with
  | nil => exact ⟨[], rfl⟩
  | append_singleton actions action ih =>
      obtain ⟨before, same⟩ := ih
      rw [run_concat]
      rcases ((run actions).step_perform action).forest with unchanged | ⟨last, acted⟩
      · exact ⟨before, unchanged.trans same⟩
      · refine ⟨before ++ [last], ?_⟩
        rw [acted, same]
        simp [Forest.run]

/-- Every handle that was handed out holds a node. -/
theorem holds_run (actions : List Action) : ∀ held ∈ (run actions).handles,
    (run actions).Holds held := by
  induction actions using List.reverseRecOn with
  | nil => simp [run]
  | append_singleton actions action ih =>
      intro held member
      rw [run_concat] at member ⊢
      have step := (run actions).step_perform action
      rcases step.handles held member with old | holds
      · exact step.holds (ih held old)
      · exact holds

/-- After any session the links of every tree are intact, and every handle that was ever handed
out stands at a node of its tree. -/
theorem links_agree (actions : List Action) :
    (∀ t ∈ (run actions).forest.trees, t.Intact) ∧
    ∀ held ∈ (run actions).handles, ∃ t n, (run actions).forest.trees[held.place]? = some t ∧
      t.get? held.id = some n ∧ held.id.index < t.size ∧
      (⟨t, held.id⟩ : Handle).context? = some n.context ∧
      (⟨t, held.id⟩ : Handle).kind? = some n.kind := by
  constructor
  · intro t member
    obtain ⟨forestActions, same⟩ := exists_forest_run actions
    have reachable : t.Reachable := ⟨forestActions, same ▸ member⟩
    exact reachable.sound.intact
  · intro held member
    obtain ⟨t, n, planted, found⟩ := holds_run actions held member
    have entry : (⟨t, held.id⟩ : Handle).node? = some n := Handle.node?_of_get? found
    refine ⟨t, n, planted, found, (issued_of_get? found).2, ?_, ?_⟩
    · rw [Handle.context?, entry, Option.map_some]
    · rw [Handle.kind?, entry, Option.map_some]

/-- A session in which a child is replaced while its handle is still used, and in which a copy goes
on by itself. -/
def displacing : List Action :=
  [.forest .plant, .scope 0 "/", .addChild 0 "a" .requiredPresence, .addChild 0 "a" .scope,
    .addChild 1 "x" (.setInclusion ⟨["v"]⟩), .addChild 1 "" .scope, .forest (.copy 0),
    .handle 1 ⟨0, 3⟩, .setValues 3 ⟨[]⟩, .addChild 4 "y" .forbiddenPresence, .handle 0 ⟨0, 4⟩,
    .forest (.act 0 (.addChild ⟨0, 4⟩ "z" .scope))]

/-- The handle of the last node stands in the copy, which alone has that node. -/
theorem links_agree_displacing :
    (run displacing).handles = [⟨0, ⟨0, 0⟩⟩, ⟨0, ⟨0, 1⟩⟩, ⟨0, ⟨0, 2⟩⟩, ⟨0, ⟨0, 3⟩⟩, ⟨1, ⟨0, 3⟩⟩,
      ⟨1, ⟨0, 4⟩⟩] ∧
    ∃ t n, (run displacing).forest.trees[1]? = some t ∧ t.Intact ∧ t.get? ⟨0, 4⟩ = some n ∧
      (⟨t, ⟨0, 4⟩⟩ : Handle).context? = some n.context := by
  have handles : (run displacing).handles = [⟨0, ⟨0, 0⟩⟩, ⟨0, ⟨0, 1⟩⟩, ⟨0, ⟨0, 2⟩⟩,
      ⟨0, ⟨0, 3⟩⟩, ⟨1, ⟨0, 3⟩⟩, ⟨1, ⟨0, 4⟩⟩] := by
    decide +kernel
  obtain ⟨intact, held⟩ := links_agree displacing
  obtain ⟨t, n, planted, found, -, context, -⟩ := held ⟨1, ⟨0, 4⟩⟩ (by simp [handles])
  exact ⟨handles, t, n, planted, intact t (Array.mem_of_getElem? planted), found, context⟩

end Session

end Tree

end Schematron
