import Mathlib.Data.List.Induction
import Schematron.Proofs.Tree.Path
import Schematron.Proofs.Tree.Session
import Schematron.Tree.Rules

/-!
# Whose identifiers a tree knows

Each tree that is planted gets a tag of its own, as long as there are tags left,
and a copy keeps the tag of its source. A family is a planted tree with all copies
of it and of its copies; `Session.origins` follows the families along a session.

An identifier that one tree has is therefore rejected by every tree outside of its
family (`Rejects`). Within a family it names the same node in a source and in its
copy, if the source had it when it was copied: nodes stay in their place, and their
contexts, parents and labels do not change. `identifiers_kept` says both, for all
sessions.
-/

namespace Schematron

namespace Tree

variable {t later : Tree} {id : NodeId} {n : Node}

/-! ### Rejection -/

/-- The node that an action is about. A root is declared without one. -/
def Action.target? : Action → Option NodeId
  | .addRoot _ _ => none
  | .addScope _ => none
  | .addChild parent _ _ => some parent
  | .setValues id _ => some id
  | .setRange id _ => some id

/-- Every operation refuses the identifier by name, and none changes the tree. -/
structure Rejects (t : Tree) (id : NodeId) : Prop where
  get? : t.get? id = none
  node : t.node id = .error (.unknownNode id)
  handle : t.handle id = .error (.unknownNode id)
  addChild : ∀ context kind, t.addChild id context kind = .error (.unknownNode id)
  values? : t.values? id = .error (.unknownNode id)
  setValues : ∀ values, t.setValues id values = .error (.unknownNode id)
  range? : t.range? id = .error (.unknownNode id)
  setRange : ∀ range, t.setRange id range = .error (.unknownNode id)
  path : t.path id = .error (.unknownNode id)
  rulesFrom : t.rulesFrom id = .error (.unknownNode id)
  unchanged : ∀ action : Action, action.target? = some id → t.perform action = t

theorem rejects_of_get? (absent : t.get? id = none) : t.Rejects id := by
  have node : t.node id = .error (.unknownNode id) := by
    rw [Tree.node, absent]
  have addChild (context : String) (kind : Kind) :
      t.addChild id context kind = .error (.unknownNode id) := by
    rw [Tree.addChild, absent]
  have setValues (values : ValueSet) : t.setValues id values = .error (.unknownNode id) := by
    rw [Tree.setValues, node]
    rfl
  have setRange (range : NumericRange) : t.setRange id range = .error (.unknownNode id) := by
    rw [Tree.setRange, node]
    rfl
  refine ⟨absent, node, ?_, addChild, ?_, setValues, ?_, setRange, ?_, ?_, ?_⟩
  · rw [Tree.handle, node]
    rfl
  · rw [Tree.values?, node]
    rfl
  · rw [Tree.range?, node]
    rfl
  · rw [Tree.path, lineage, node]
    rfl
  · rw [Tree.rulesFrom, node]
    rfl
  · intro action target
    cases action with
    | addRoot context kind => cases target
    | addScope context => cases target
    | addChild parent context kind =>
        cases target
        rw [perform, act, addChild]
        rfl
    | setValues other values =>
        cases target
        rw [perform, act, setValues]
    | setRange other range =>
        cases target
        rw [perform, act, setRange]

/-! ### Later trees -/

theorem tag_perform (t : Tree) (action : Action) : (t.perform action).tag = t.tag := by
  unfold perform
  split
  · next after acted =>
    rcases act_cases acted with ⟨context, kind, -, rfl⟩ | ⟨parent, n, context, kind, -, -, rfl⟩ |
      ⟨id, n, values, -, rfl⟩ | ⟨id, n, range, -, rfl⟩
    · exact tag_withRoot
    · exact tag_withChild
    · exact tag_withKind id _
    · exact tag_withKind id _
  · rfl

theorem Continues.trans {last : Tree} (h : later.Continues t) (h' : last.Continues later) :
    last.Continues t := by
  intro id n found
  obtain ⟨m, found, context, parent, label⟩ := h id n found
  obtain ⟨k, found, context', parent', label'⟩ := h' id m found
  exact ⟨k, found, context'.trans context, parent'.trans parent, label'.trans label⟩

theorem Continues.path_eq (continues : later.Continues t) (sound : t.Sound)
    (sound' : later.Sound) (found : t.get? id = some n) : later.path id = t.path id := by
  refine sound.up_induction (motive := fun id => later.path id = t.path id) ?_ ?_ id n found
  · intro id n found root
    obtain ⟨m, found', context, parent, -⟩ := continues id n found
    rw [path_of_root found root, path_of_root found' (parent.trans root), context]
  · intro id n p found parent above
    obtain ⟨m, found', context, parent', -⟩ := continues id n found
    rw [path_of_child sound found parent, path_of_child sound' found' (parent'.trans parent),
      above, context]

/-- The identifier that an action issues. -/
def issued? (t : Tree) : Action → Option NodeId
  | .addRoot context kind => (t.addRoot context kind).toOption.map (·.1)
  | .addScope context => (t.addScope context).toOption.map (·.1)
  | .addChild parent context kind => (t.addChild parent context kind).toOption.map (·.1)
  | .setValues _ _ => none
  | .setRange _ _ => none

/-- An identifier is issued for a node that is there from then on. -/
theorem get?_of_issued? {action : Action} (issued : t.issued? action = some id) :
    ∃ n, (t.perform action).get? id = some n := by
  have root {context : String} {kind : Kind}
      (same : t.act action = (t.addRoot context kind).map (·.2))
      (issued : (t.addRoot context kind).toOption.map (·.1) = some id) :
      ∃ n, (t.perform action).get? id = some n := by
    obtain ⟨⟨_, after⟩, given, rfl⟩ := Option.map_eq_some_iff.mp issued
    have added := Except.toOption_eq_some_iff.mp given
    have acted : t.act action = .ok after := by
      rw [same, added]
      rfl
    obtain ⟨-, rfl, rfl⟩ := addRoot_cases added
    exact ⟨_, by rw [perform_of_act acted, get?_withRoot, if_pos rfl]⟩
  cases action with
  | addRoot context kind => exact root rfl issued
  | addScope context => exact root rfl issued
  | addChild parent context kind =>
      obtain ⟨⟨_, after⟩, given, rfl⟩ := Option.map_eq_some_iff.mp issued
      have added := Except.toOption_eq_some_iff.mp given
      have acted : t.act (.addChild parent context kind) = .ok after := by
        rw [act, added]
        rfl
      obtain ⟨⟨n, above⟩, -, rfl, rfl⟩ := addChild_cases added
      exact ⟨_, by rw [perform_of_act acted, get?_withChild above, if_pos rfl]⟩
  | setValues id values => cases issued
  | setRange id range => cases issued

end Tree

def Forest.tags (f : Forest) : List UInt32 := f.trees.toList.map Tree.tag

namespace Tree

namespace Session

/-! ### Issued identifiers -/

/-- The identifier that an action issues, with the place of its tree. -/
def issued? (s : Session) : Action → Option Held
  | .forest .plant => none
  | .forest (.copy _) => none
  | .forest (.act place action) =>
    s.forest.trees[place]?.bind fun t => (t.issued? action).map (⟨place, ·⟩)
  | .scope place context =>
    s.forest.trees[place]?.bind fun t =>
      (t.scope context).toOption.map fun h => ⟨place, h.id⟩
  | .addChild number context kind =>
    (s.handle? number).bind fun (place, h) =>
      (h.addChild context kind).toOption.map fun h => ⟨place, h.id⟩
  | .handle _ _ => none
  | .setValues _ _ => none
  | .setRange _ _ => none

/-- The tree in a place issued the identifier at some time. -/
def Issued (actions : List Action) (held : Held) : Prop :=
  ∃ before action after, actions = before ++ action :: after ∧
    (run before).issued? action = some held

variable {s : Session} {place : Nat} {t : Tree} {held : Held}

/-- Whatever an action hands out stands at a node. -/
theorem holds_of_hand (planted : s.forest.trees[place]? = some t) {h : Handle} {n : Node}
    (found : h.tree.get? h.id = some n) : (s.hand place (.ok h)).Holds ⟨place, h.id⟩ := by
  have inside := (Array.getElem?_eq_some_iff.mp planted).1
  exact ⟨h.tree, n, by simp [hand, Forest.set, inside], found⟩

theorem holds_of_issued? {action : Action} (issued : s.issued? action = some held) :
    (s.perform action).Holds held := by
  cases action with
  | forest action =>
      cases action with
      | plant => cases issued
      | copy place => cases issued
      | act place action =>
          obtain ⟨t, planted, issued⟩ := Option.bind_eq_some_iff.mp issued
          obtain ⟨id, given, rfl⟩ := Option.map_eq_some_iff.mp issued
          obtain ⟨n, found⟩ := get?_of_issued? given
          have inside := (Array.getElem?_eq_some_iff.mp planted).1
          refine ⟨t.perform action, n, ?_, found⟩
          change (s.forest.perform (.act place action)).trees[place]? = _
          rw [← set_perform planted, Forest.set, Array.getElem?_setIfInBounds_self_of_lt inside]
  | scope place context =>
      obtain ⟨t, planted, issued⟩ := Option.bind_eq_some_iff.mp issued
      obtain ⟨h, given, rfl⟩ := Option.map_eq_some_iff.mp issued
      have handed := Except.toOption_eq_some_iff.mp given
      obtain ⟨-, n, found⟩ := scope_cases handed
      simp only [perform, planted, handed]
      exact holds_of_hand planted found
  | addChild number context kind =>
      obtain ⟨⟨place, h⟩, opened, issued⟩ := Option.bind_eq_some_iff.mp issued
      obtain ⟨h', given, rfl⟩ := Option.map_eq_some_iff.mp issued
      have handed := Except.toOption_eq_some_iff.mp given
      obtain ⟨-, n, found⟩ := Handle.addChild_cases handed
      simp only [perform, opened, handed]
      exact holds_of_hand (handle?_cases opened) found
  | handle place id => cases issued
  | setValues number values => cases issued
  | setRange number range => cases issued

/-! ### Longer sessions -/

theorem exists_continues_run (before after : List Action)
    (planted : (run before).forest.trees[place]? = some t) :
    ∃ later, (run (before ++ after)).forest.trees[place]? = some later ∧ later.Continues t := by
  induction after using List.reverseRecOn with
  | nil =>
      rw [List.append_nil]
      exact ⟨t, planted, .refl t⟩
  | append_singleton after action ih =>
      obtain ⟨middle, planted, continues⟩ := ih
      rw [← List.append_assoc, run_concat]
      rcases ((run (before ++ after)).step_perform action).forest with same | ⟨last, acted⟩
      · exact ⟨middle, same ▸ planted, continues⟩
      · obtain ⟨later, planted, continues'⟩ := Forest.exists_continues_perform planted last
        exact ⟨later, acted ▸ planted, continues.trans continues'⟩

theorem holds_append {before : List Action} (holds : (run before).Holds held)
    (after : List Action) : (run (before ++ after)).Holds held := by
  obtain ⟨t, n, planted, found⟩ := holds
  obtain ⟨later, planted, continues⟩ := exists_continues_run before after planted
  obtain ⟨m, found, -⟩ := continues held.id n found
  exact ⟨later, m, planted, found⟩

/-- A tree has what it issued from then on. -/
theorem Issued.holds {actions : List Action} (issued : Issued actions held) :
    (run actions).Holds held := by
  obtain ⟨before, action, after, rfl, given⟩ := issued
  have holds := holds_of_issued? given
  rw [← run_concat] at holds
  simpa using holds_append holds after

theorem sound_of_mem_run (actions : List Action) : ∀ t ∈ (run actions).forest.trees, t.Sound := by
  intro t member
  obtain ⟨forestActions, same⟩ := exists_forest_run actions
  have reachable : t.Reachable := ⟨forestActions, same ▸ member⟩
  exact reachable.sound

/-! ### Families -/

/-- The number of trees that a session plants. -/
def planted (actions : List Action) : Nat := actions.count (.forest .plant)

/-- Where the families of the trees were planted, after one more action. -/
def extend (origins : List Nat) : Action → List Nat
  | .forest .plant => origins ++ [origins.length]
  | .forest (.copy place) => origins ++ origins[place]?.toList
  | _ => origins

/-- For each tree of a session the place in which its family was planted. -/
def origins (actions : List Action) : List Nat := actions.foldl extend []

/-- The tags of a forest tell the families apart, and the next tag is new. -/
structure Numbered (f : Forest) (origins : List Nat) (planted : Nat) : Prop where
  size : origins.length = f.tags.length
  next : f.nextTag = UInt32.ofNat planted
  earlier : ∀ tag ∈ f.tags, tag.toNat < planted
  family : ∀ x ∈ f.tags.zip origins, ∀ y ∈ f.tags.zip origins, x.1 = y.1 → x.2 = y.2

namespace Numbered

variable {f f' : Forest} {origins : List Nat} {planted : Nat}

theorem empty : Numbered .empty [] 0 := by
  constructor <;> simp [Forest.empty, Forest.tags]

/-- The tag of a new tree is larger than all others, so it starts a family of its own. -/
theorem plant (h : Numbered f origins planted) (room : planted < UInt32.size) :
    Numbered f.plant (origins ++ [origins.length]) (planted + 1) := by
  have tags : f.plant.tags = f.tags ++ [f.nextTag] := by
    simp [Forest.plant, Forest.tags, Tree.empty]
  have value : f.nextTag.toNat = planted := by
    rw [h.next, UInt32.toNat_ofNat', Nat.mod_eq_of_lt room]
  have fresh : ∀ x ∈ f.tags.zip origins, x.1 ≠ f.nextTag := by
    intro x member same
    have old := h.earlier x.1 (List.of_mem_zip member).1
    rw [same, value] at old
    omega
  constructor
  · simp [tags, h.size]
  · simp [Forest.plant, h.next, UInt32.ofNat_add]
  · intro tag member
    rw [tags] at member
    rcases List.mem_append.mp member with old | new
    · exact Nat.lt_succ_of_lt (h.earlier tag old)
    · rw [List.mem_singleton.mp new, value]
      exact Nat.lt_succ_self planted
  · rw [tags, List.zip_append h.size.symm]
    intro x hx y hy same
    rcases List.mem_append.mp hx with old_x | new_x <;>
      rcases List.mem_append.mp hy with old_y | new_y
    · exact h.family x old_x y old_y same
    · rw [List.mem_singleton.mp new_y] at same
      exact absurd same (fresh x old_x)
    · rw [List.mem_singleton.mp new_x] at same
      exact absurd same.symm (fresh y old_y)
    · rw [List.mem_singleton.mp new_x, List.mem_singleton.mp new_y]

/-- A copy has both the tag and the family of its source. -/
theorem copy (h : Numbered f origins planted) (place : Nat) :
    Numbered (f.perform (.copy place)) (origins ++ origins[place]?.toList) planted := by
  simp only [Forest.perform]
  split
  · next t found =>
    have inside : place < f.tags.length := by
      simpa [Forest.tags] using (Array.getElem?_eq_some_iff.mp found).1
    obtain ⟨tag, tagged⟩ : ∃ tag, f.tags[place]? = some tag := ⟨_, List.getElem?_eq_getElem inside⟩
    obtain ⟨origin, listed⟩ : ∃ origin, origins[place]? = some origin :=
      ⟨_, List.getElem?_eq_getElem (h.size ▸ inside)⟩
    have tags : (f.copy t).tags = f.tags ++ [tag] := by
      have same : f.tags[place]? = some t.tag := by simp [Forest.tags, found]
      rw [tagged] at same
      simp [Forest.copy, Forest.tags, Option.some.inj same]
    have source : (tag, origin) ∈ f.tags.zip origins :=
      List.mem_of_getElem? (List.getElem?_zip_eq_some.mpr ⟨tagged, listed⟩)
    have known : ∀ x ∈ (f.tags ++ [tag]).zip (origins ++ [origin]), x ∈ f.tags.zip origins := by
      rw [List.zip_append h.size.symm]
      intro x member
      rcases List.mem_append.mp member with old | new
      · exact old
      · rwa [List.mem_singleton.mp new]
    rw [listed, Option.toList_some]
    constructor
    · simp [tags, h.size]
    · exact h.next
    · rw [tags]
      intro other member
      rcases List.mem_append.mp member with old | new
      · exact h.earlier other old
      · rw [List.mem_singleton.mp new]
        exact h.earlier tag (List.mem_of_getElem? tagged)
    · rw [tags]
      intro x hx y hy
      exact h.family x (known x hx) y (known y hy)
  · next missing =>
    have outside : origins.length ≤ place := by
      simpa [h.size, Forest.tags] using missing
    rw [List.getElem?_eq_none outside, Option.toList_none, List.append_nil]
    exact h

/-- A tree may be exchanged for one with the same tag. -/
theorem set (h : Numbered f origins planted) {place : Nat} (stood : f.trees[place]? = some t)
    {t' : Tree} (tag : t'.tag = t.tag) : Numbered (f.set place t') origins planted := by
  have tags : (f.set place t').tags = f.tags := by
    apply List.ext_getElem?
    intro other
    by_cases same : place = other
    · subst same
      have inside := (Array.getElem?_eq_some_iff.mp stood).1
      have tagged : f.tags[place]? = some t.tag := by simp [Forest.tags, stood]
      rw [tagged, ← tag]
      simp [Forest.set, Forest.tags, inside]
    · simp [Forest.set, Forest.tags, same]
  refine ⟨?_, h.next, ?_, ?_⟩
  · rw [tags]
    exact h.size
  · rw [tags]
    exact h.earlier
  · rw [tags]
    exact h.family

theorem hand (h : Numbered s.forest origins planted) (stood : s.forest.trees[place]? = some t)
    {handed : Except TreeError Handle} (tag : ∀ h, handed = .ok h → h.tree.tag = t.tag) :
    Numbered (s.hand place handed).forest origins planted := by
  cases handed with
  | error e => exact h
  | ok handle => exact h.set stood (tag handle rfl)

/-- One action keeps the families apart, if there is a tag for the tree that it plants. -/
theorem perform (h : Numbered s.forest origins planted) (action : Action)
    (room : action = .forest .plant → planted < UInt32.size) :
    Numbered (s.perform action).forest (extend origins action)
      (planted + if action = .forest .plant then 1 else 0) := by
  cases action with
  | forest action =>
      cases action with
      | plant => exact h.plant (room rfl)
      | copy place => exact h.copy place
      | act place action =>
          simp only [Session.perform, Forest.perform]
          split
          · next t stood => exact h.set stood (t.tag_perform action)
          · exact h
  | scope place context =>
      simp only [Session.perform]
      split
      · next t stood =>
        refine h.hand stood fun handle handed => ?_
        rw [(scope_cases handed).1, tag_perform]
      · exact h
  | handle place id =>
      simp only [Session.perform]
      split
      · next t stood =>
        refine h.hand stood fun handle handed => ?_
        rw [(handle_cases handed).1]
      · exact h
  | addChild number context kind =>
      simp only [Session.perform]
      split
      · next place handle opened =>
        refine h.hand (handle?_cases opened) fun handle' handed => ?_
        rw [(Handle.addChild_cases handed).1, tag_perform]
      · exact h
  | setValues number values =>
      simp only [Session.perform]
      split
      · next place handle opened =>
        exact h.set (handle?_cases opened) (by rw [handle.tree_setValues, tag_perform])
      · exact h
  | setRange number range =>
      simp only [Session.perform]
      split
      · next place handle opened =>
        exact h.set (handle?_cases opened) (by rw [handle.tree_setRange, tag_perform])
      · exact h

end Numbered

/-- As long as there are tags, a session keeps the families apart. -/
theorem numbered_run (actions : List Action) (few : planted actions ≤ UInt32.size) :
    Numbered (run actions).forest (origins actions) (planted actions) := by
  induction actions using List.reverseRecOn with
  | nil => exact .empty
  | append_singleton actions action ih =>
      have counts : planted (actions ++ [action]) =
          planted actions + if action = .forest .plant then 1 else 0 := by
        simp [planted, List.count_append, List.count_singleton]
      have extended : origins (actions ++ [action]) = extend (origins actions) action := by
        simp [origins]
      rw [counts] at few
      rw [run_concat, counts, extended]
      refine (ih (by omega)).perform action fun plants => ?_
      rw [if_pos plants] at few
      omega

/-- Trees of different families have different tags. -/
theorem Numbered.tag_ne {f : Forest} {origins : List Nat} {planted : Nat}
    (h : Numbered f origins planted) {p q : Nat} {t t' : Tree} (found : f.trees[p]? = some t)
    (found' : f.trees[q]? = some t') (apart : origins[p]? ≠ origins[q]?) : t.tag ≠ t'.tag := by
  have entry {place : Nat} {t : Tree} (found : f.trees[place]? = some t) :
      ∃ origin, origins[place]? = some origin ∧ (t.tag, origin) ∈ f.tags.zip origins := by
    have tagged : f.tags[place]? = some t.tag := by simp [Forest.tags, found]
    have inside := (List.getElem?_eq_some_iff.mp tagged).1
    have listed := List.getElem?_eq_getElem (h.size ▸ inside : place < origins.length)
    exact ⟨_, listed, List.mem_of_getElem? (List.getElem?_zip_eq_some.mpr ⟨tagged, listed⟩)⟩
  obtain ⟨origin, listed, member⟩ := entry found
  obtain ⟨origin', listed', member'⟩ := entry found'
  intro same
  apply apart
  have origins_eq : origin = origin' := h.family _ member _ member' same
  rw [listed, listed', origins_eq]

/-- Whatever is done in whatever order to at most 2³² planted trees and their copies: an identifier
that was issued stays valid in its tree, and every tree of another family rejects it. If a tree had
the identifier when it was copied, then source and copy have it ever after, for nodes of the same
context, parent, label and absolute path. -/
theorem identifiers_kept (actions : List Action) (few : planted actions ≤ UInt32.size) :
    (∀ held, Issued actions held → (run actions).Holds held ∧
      ∀ (place : Nat) (t : Tree), (run actions).forest.trees[place]? = some t →
        (origins actions)[place]? ≠ (origins actions)[held.place]? → t.Rejects held.id) ∧
    ∀ before place after id, actions = before ++ .forest (.copy place) :: after →
      Issued before ⟨place, id⟩ ∨ (run before).Holds ⟨place, id⟩ →
      ∃ t t' n n' path, (run actions).forest.trees[place]? = some t ∧
        (run actions).forest.trees[(run before).forest.trees.size]? = some t' ∧
        t.get? id = some n ∧ t'.get? id = some n' ∧ n'.context = n.context ∧
        n'.parent = n.parent ∧ n'.kind.label = n.kind.label ∧
        t.path id = .ok path ∧ t'.path id = .ok path := by
  constructor
  · intro held issued
    have holds := issued.holds
    refine ⟨holds, fun place t stands apart => rejects_of_get? ?_⟩
    obtain ⟨own, n, planted, found⟩ := holds
    apply get?_of_tag_ne
    rw [(issued_of_get? found).1]
    exact (numbered_run actions few).tag_ne planted stands apart.symm
  · rintro before place after id rfl valid
    have holds : (run before).Holds ⟨place, id⟩ := by
      rcases valid with issued | holds
      · exact issued.holds
      · exact holds
    obtain ⟨source, n, planted, found⟩ := holds
    simp only at planted found
    have sound := sound_of_mem_run before source (Array.mem_of_getElem? planted)
    obtain ⟨path, climbed⟩ := sound.exists_path found
    -- Right behind the copying the source stands in two places.
    have twice : (run (before ++ [.forest (.copy place)])).forest =
        (run before).forest.copy source := by
      rw [run_concat]
      simp [perform, Forest.perform, planted]
    have inside := (Array.getElem?_eq_some_iff.mp planted).1
    have follow {p : Nat} (stands : ((run before).forest.copy source).trees[p]? = some source) :
        ∃ later m, (run (before ++ .forest (.copy place) :: after)).forest.trees[p]? = some later ∧
          later.get? id = some m ∧ m.context = n.context ∧ m.parent = n.parent ∧
          m.kind.label = n.kind.label ∧ later.path id = .ok path := by
      rw [← twice] at stands
      obtain ⟨later, stands, continues⟩ := exists_continues_run _ after stands
      rw [List.append_assoc, List.singleton_append] at stands
      obtain ⟨m, kept, context, parent, label⟩ := continues id n found
      have sound' := sound_of_mem_run _ later (Array.mem_of_getElem? stands)
      exact ⟨later, m, stands, kept, context, parent, label,
        (continues.path_eq sound sound' found).trans climbed⟩
    obtain ⟨t, m, stands, kept, context, parent, label, path_t⟩ := @follow place (by
      rw [Forest.copy, Array.getElem?_push_lt inside, ← planted, Array.getElem?_eq_getElem inside])
    obtain ⟨t', m', stands', kept', context', parent', label', path_t'⟩ :=
      @follow (run before).forest.trees.size (by simp [Forest.copy])
    exact ⟨t, t', m, m', path, stands, stands', kept, kept', context'.trans context.symm,
      parent'.trans parent.symm, label'.trans label.symm, path_t, path_t'⟩

/-- Two trees of the same shape. The first is copied, and then all three go on: the source declares
its child again, the copy edits the child and declares one below it, and the second tree is given an
identifier of the first. -/
def diverging : List Action :=
  [.forest .plant, .forest .plant, .scope 0 "/", .scope 1 "/",
    .forest (.act 0 (.addChild ⟨0, 0⟩ "a" (.setInclusion ⟨["v"]⟩))),
    .forest (.act 1 (.addChild ⟨1, 0⟩ "a" .scope)), .forest (.copy 0), .addChild 0 "a" .scope,
    .forest (.act 2 (.setValues ⟨0, 1⟩ ⟨[]⟩)), .forest (.act 1 (.addChild ⟨0, 1⟩ "y" .scope)),
    .forest (.act 2 (.addChild ⟨0, 1⟩ "x" .scope))]

theorem identifiers_kept_diverging :
    planted diverging ≤ UInt32.size ∧ Issued diverging ⟨0, ⟨0, 1⟩⟩ ∧
    (∃ t, (run diverging).forest.trees[1]? = some t ∧ t.Rejects ⟨0, 1⟩) ∧
    ∃ t t' path, (run diverging).forest.trees[0]? = some t ∧
      (run diverging).forest.trees[2]? = some t' ∧
      t.path ⟨0, 1⟩ = .ok path ∧ t'.path ⟨0, 1⟩ = .ok path := by
  have few : planted diverging ≤ UInt32.size := by decide
  have early : Issued (diverging.take 6) ⟨0, ⟨0, 1⟩⟩ :=
    ⟨diverging.take 4, _, [.forest (.act 1 (.addChild ⟨1, 0⟩ "a" .scope))], rfl, by decide +kernel⟩
  have issued : Issued diverging ⟨0, ⟨0, 1⟩⟩ :=
    ⟨diverging.take 4, _, diverging.drop 5, rfl, by decide +kernel⟩
  obtain ⟨rejected, copied⟩ := identifiers_kept diverging few
  have second : 1 < (run diverging).forest.trees.size := by decide +kernel
  have stands := Array.getElem?_eq_getElem second
  have apart : (origins diverging)[1]? ≠ (origins diverging)[0]? := by decide
  have copy_place : (run (diverging.take 6)).forest.trees.size = 2 := by decide +kernel
  obtain ⟨t, t', n, n', path, source, copy, -, -, -, -, -, path_t, path_t'⟩ :=
    copied (diverging.take 6) 0 (diverging.drop 7) ⟨0, 1⟩ rfl (.inl early)
  rw [copy_place] at copy
  have rejects := (rejected _ issued).2 1 _ stands apart
  exact ⟨few, issued, ⟨_, stands, rejects⟩, t, t', path, source, copy, path_t, path_t'⟩

end Session

end Tree

end Schematron
