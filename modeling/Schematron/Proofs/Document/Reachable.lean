import Schematron.Document
import Schematron.Proofs.Markup.Tokens
import Schematron.Proofs.Message
import Schematron.Proofs.Tree.History
import Schematron.Proofs.Tree.Rules

/-!
# Documents that can be built

A pattern is built by adding items to it, by opening scopes and by declaring and
editing constraints below them. `Pattern.Sound` is what every such history keeps:
the tree of the pattern is sound, and its scopes are nodes of that tree. A sound
pattern is therefore written without an error, each scope as its rules.

The other documents hold nothing that could fail. All that is asked of them is
that their patterns and their messages were built by the operations.
-/

namespace Schematron

namespace Pattern

inductive Action where
  | setId (id : Option String)
  | setName (name : Option String)
  | paragraph (p : Paragraph)
  | rule (r : Rule)
  | scope (context : String)
  | child (parent : NodeId) (context : String) (kind : Kind)
  | setValues (id : NodeId) (values : ValueSet)
  | setRange (id : NodeId) (range : NumericRange)
  deriving DecidableEq, Repr

def act (p : Pattern) : Action → Except TreeError Pattern
  | .setId id => .ok { p with id }
  | .setName name => .ok { p with name }
  | .paragraph paragraph => .ok (p.withParagraph paragraph)
  | .rule rule => .ok (p.withRule rule)
  | .scope context => (p.addScope context).map (·.2)
  | .child parent context kind => (p.addChild parent context kind).map (·.2)
  | .setValues id values => p.setValues id values
  | .setRange id range => p.setRange id range

/-- The pattern after an action, which stays as it is if the action is refused. -/
def perform (p : Pattern) (action : Action) : Pattern :=
  match p.act action with
  | .ok p => p
  | .error _ => p

def run (tag : UInt32) (actions : List Action) : Pattern := actions.foldl perform (empty tag)

/-- The tree of a pattern is sound and has every scope of the pattern. -/
structure Sound (p : Pattern) : Prop where
  constraints : p.constraints.Sound
  scope_found : ∀ {root}, .scope root ∈ p.items → ∃ n, p.constraints.get? root = some n

variable {p p' : Pattern}

theorem addScope_cases {context : String} {id : NodeId} (added : p.addScope context = .ok (id, p')) :
    context ≠ "" ∧ id = p.constraints.nextId ∧ p' = { p with
      items := p.items ++ [.scope p.constraints.nextId]
      constraints := p.constraints.withRoot context .scope } := by
  simp only [addScope, bind, Except.bind, pure, Except.pure] at added
  split at added
  · cases added
  · next result opened =>
    obtain ⟨root, tree⟩ := result
    obtain ⟨named, rfl, rfl⟩ := Tree.addRoot_cases opened
    cases added
    exact ⟨named, rfl, rfl⟩

theorem addChild_cases {parent : NodeId} {context : String} {kind : Kind} {id : NodeId}
    (added : p.addChild parent context kind = .ok (id, p')) :
    (∃ n, p.constraints.get? parent = some n) ∧ context ≠ "" ∧ id = p.constraints.nextId ∧
      p' = { p with constraints := p.constraints.withChild parent context kind } := by
  simp only [addChild, bind, Except.bind, pure, Except.pure] at added
  split at added
  · cases added
  · next result declared =>
    obtain ⟨child, tree⟩ := result
    obtain ⟨found, named, rfl, rfl⟩ := Tree.addChild_cases declared
    cases added
    exact ⟨found, named, rfl, rfl⟩

/-- All that a successful action can do: set an attribute, add an item that is no scope, open a
scope, or act on the tree without adding a root. -/
theorem act_cases {action : Action} (acted : p.act action = .ok p') :
    (∃ id name, p' = { p with id, name }) ∨
    (∃ item, (∀ root, item ≠ .scope root) ∧ p' = { p with items := p.items ++ [item] }) ∨
    (∃ context, context ≠ "" ∧ p' = { p with
      items := p.items ++ [.scope p.constraints.nextId]
      constraints := p.constraints.withRoot context .scope }) ∨
    (∃ action t, p.constraints.act action = .ok t ∧ t.roots = p.constraints.roots ∧
      p' = { p with constraints := t }) := by
  cases action with
  | setId id =>
      cases acted
      exact .inl ⟨id, p.name, rfl⟩
  | setName name =>
      cases acted
      exact .inl ⟨p.id, name, rfl⟩
  | paragraph paragraph =>
      cases acted
      exact .inr (.inl ⟨.paragraph paragraph, by simp, rfl⟩)
  | rule rule =>
      cases acted
      exact .inr (.inl ⟨.rule rule, by simp, rfl⟩)
  | scope context =>
      obtain ⟨⟨id, after⟩, added, rfl⟩ := Except.map_eq_ok_iff.mp acted
      obtain ⟨named, -, same⟩ := addScope_cases added
      exact .inr (.inr (.inl ⟨context, named, same⟩))
  | child parent context kind =>
      obtain ⟨⟨id, after⟩, added, rfl⟩ := Except.map_eq_ok_iff.mp acted
      obtain ⟨⟨n, found⟩, named, -, same⟩ := addChild_cases added
      refine .inr (.inr (.inr ⟨.addChild parent context kind, _, ?_, Tree.roots_withChild, same⟩))
      rw [Tree.act, Tree.addChild_of_get? found named]
      rfl
  | setValues id values =>
      obtain ⟨t, changed, same⟩ := Except.map_eq_ok_iff.mp acted
      refine .inr (.inr (.inr ⟨.setValues id values, t, changed, ?_, same.symm⟩))
      rw [(Tree.setValues_cases changed).2, Tree.roots_withKind]
  | setRange id range =>
      obtain ⟨t, changed, same⟩ := Except.map_eq_ok_iff.mp acted
      refine .inr (.inr (.inr ⟨.setRange id range, t, changed, ?_, same.symm⟩))
      rw [(Tree.setRange_cases changed).2, Tree.roots_withKind]

namespace Sound

theorem empty (tag : UInt32) : (Pattern.empty tag).Sound where
  constraints := Tree.Sound.empty tag
  scope_found member := by cases member

/-- Items that are no scopes do not concern the tree. -/
theorem withItem (h : p.Sound) {item : PatternItem} (other : ∀ root, item ≠ .scope root) :
    ({ p with items := p.items ++ [item] } : Pattern).Sound where
  constraints := h.constraints
  scope_found {root} member := by
    rcases List.mem_append.mp member with old | new
    · exact h.scope_found old
    · exact absurd (List.mem_singleton.mp new).symm (other root)

/-- What an action makes of the tree can take its place. -/
theorem withTree (h : p.Sound) {action : Tree.Action} {t : Tree}
    (acted : p.constraints.act action = .ok t) :
    ({ p with constraints := t } : Pattern).Sound := by
  have same : p.constraints.perform action = t := Tree.perform_of_act acted
  constructor
  · exact same ▸ h.constraints.perform action
  · intro root member
    obtain ⟨n, found⟩ := h.scope_found member
    obtain ⟨m, found', -⟩ := p.constraints.continues_perform action root n found
    exact ⟨m, same ▸ found'⟩

theorem withScope (h : p.Sound) {context : String} (named : context ≠ "") :
    ({ p with
      items := p.items ++ [.scope p.constraints.nextId]
      constraints := p.constraints.withRoot context .scope } : Pattern).Sound where
  constraints := h.constraints.withRoot named
  scope_found {root} member := by
    change ∃ n, (p.constraints.withRoot context .scope).get? root = some n
    rw [Tree.get?_withRoot]
    by_cases new : root = p.constraints.nextId
    · exact ⟨_, if_pos new⟩
    · rw [if_neg new]
      refine h.scope_found ((List.mem_append.mp member).resolve_right fun last => new ?_)
      cases List.mem_singleton.mp last
      rfl

/-- One action leaves a sound pattern sound. -/
theorem perform (h : p.Sound) (action : Action) : (p.perform action).Sound := by
  unfold Pattern.perform
  split
  · next after acted =>
    rcases act_cases acted with ⟨id, name, rfl⟩ | ⟨item, other, rfl⟩ | ⟨context, named, rfl⟩ |
      ⟨action, t, declared, -, rfl⟩
    · exact ⟨h.constraints, h.scope_found⟩
    · exact h.withItem other
    · exact h.withScope named
    · exact h.withTree declared
  · exact h

end Sound

def Reachable (p : Pattern) : Prop := ∃ tag actions, p = run tag actions

theorem Reachable.sound (h : p.Reachable) : p.Sound := by
  obtain ⟨tag, actions, rfl⟩ := h
  have from_sound (p : Pattern) (h : p.Sound) : (actions.foldl Pattern.perform p).Sound := by
    induction actions generalizing p with
    | nil => exact h
    | cons action rest ih => exact ih (p.perform action) (h.perform action)
  exact from_sound _ (Sound.empty tag)

end Pattern

/-! ### Writing without an error -/

namespace Markup

theorem outcome_element {name : String} {attributes : List Attribute} {content : List Markup}
    (each : ∀ piece ∈ content, piece.outcome = .ok ()) :
    (element name attributes content).outcome = .ok () := by
  rw [outcome]
  exact outcomeAll_eq_ok_iff.mpr each

end Markup

theorem Message.outcome_toMarkup (m : Message) :
    ∀ piece ∈ m.toMarkup, piece.outcome = .ok () := by
  intro piece member
  obtain ⟨part, -, rfl⟩ := List.mem_map.mp member
  cases part <;> rfl

theorem Assertion.outcome_toMarkup (a : Assertion) : a.toMarkup.outcome = .ok () :=
  Markup.outcome_element a.message.outcome_toMarkup

theorem RuleRecord.outcome_toMarkup (r : RuleRecord) : r.toMarkup.outcome = .ok () := by
  refine Markup.outcome_element fun piece member => ?_
  obtain ⟨a, -, rfl⟩ := List.mem_map.mp member
  exact a.outcome_toMarkup

theorem Paragraph.outcome_toMarkup (p : Paragraph) : p.toMarkup.outcome = .ok () := by
  refine Markup.outcome_element fun piece member => ?_
  obtain ⟨text, -, rfl⟩ := List.mem_map.mp member
  rfl

theorem Assert.outcome_toMarkup (a : Assert) : a.toMarkup.outcome = .ok () := by
  refine Markup.outcome_element ?_
  cases a.message with
  | none =>
      intro piece member
      cases member
  | some m => exact m.outcome_toMarkup

theorem Rule.outcome_toMarkup (r : Rule) : r.toMarkup.outcome = .ok () := by
  refine Markup.outcome_element fun piece member => ?_
  obtain ⟨a, -, rfl⟩ := List.mem_map.mp member
  exact a.outcome_toMarkup

namespace Pattern

variable {p : Pattern}

/-- A scope of a sound pattern is written as the rules of its tree. -/
theorem Sound.exists_rules (h : p.Sound) {root : NodeId} (member : .scope root ∈ p.items) :
    ∃ records, p.constraints.rulesFrom root = .ok records := by
  obtain ⟨n, found⟩ := h.scope_found member
  exact ⟨_, h.constraints.rulesFrom_eq found⟩

theorem Sound.outcome_toMarkup (h : p.Sound) : p.toMarkup.outcome = .ok () := by
  refine Markup.outcome_element fun piece member => ?_
  obtain ⟨item, inside, made⟩ := List.mem_flatMap.mp member
  cases item with
  | paragraph paragraph =>
      rw [List.mem_singleton.mp made]
      exact paragraph.outcome_toMarkup
  | rule rule =>
      rw [List.mem_singleton.mp made]
      exact rule.outcome_toMarkup
  | scope root =>
      obtain ⟨records, flat⟩ := h.exists_rules inside
      simp only [PatternItem.toMarkup, flat] at made
      obtain ⟨record, -, rfl⟩ := List.mem_map.mp made
      exact record.outcome_toMarkup

end Pattern

theorem Schema.outcome_toMarkup {s : Schema} (sound : ∀ p ∈ s.patterns, p.Sound) :
    s.toMarkup.outcome = .ok () := by
  refine Markup.outcome_element fun piece member => ?_
  obtain ⟨item, inside, rfl⟩ := List.mem_map.mp member
  cases item with
  | binding n => rfl
  | paragraph paragraph => exact paragraph.outcome_toMarkup
  | pattern p =>
      have listed : p ∈ s.patterns := List.mem_filterMap.mpr ⟨.pattern p, inside, rfl⟩
      exact (sound p listed).outcome_toMarkup

end Schematron
