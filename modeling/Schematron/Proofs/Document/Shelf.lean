import Mathlib.Data.List.Induction
import Schematron.Proofs.Document.Reachable

/-!
# Patterns and their copies

Several patterns side by side, which are made, copied and worked on in any order.
A copy goes on by itself: it keeps the items and the tree of its source, with
identifiers that mean the same in both, and from then on neither sees what is done
to the other.

Every pattern on a shelf has a history of its own (`reachable_of_mem_run`), since
up to the copying it shares that of its source. A pattern with a history has
exactly the roots of its tree as scopes (`Pattern.Reachable.scopes_eq_roots`), so
no scope of it can point to another tree.
-/

namespace Schematron

def PatternItem.scope? : PatternItem → Option NodeId
  | .scope root => some root
  | _ => none

namespace Pattern

def scopes (p : Pattern) : List NodeId := p.items.filterMap PatternItem.scope?

variable {p : Pattern}

theorem mem_scopes_iff {root : NodeId} : root ∈ p.scopes ↔ .scope root ∈ p.items := by
  rw [scopes, List.mem_filterMap]
  constructor
  · rintro ⟨item, member, same⟩
    cases item with
    | scope other =>
        cases same
        exact member
    | _ => cases same
  · intro member
    exact ⟨.scope root, member, rfl⟩

/-- Scopes and roots are added together. -/
theorem scopes_perform (same : p.scopes = p.constraints.roots) (action : Action) :
    (p.perform action).scopes = (p.perform action).constraints.roots := by
  unfold perform
  split
  · next after acted =>
    rcases act_cases acted with ⟨id, name, rfl⟩ | ⟨item, other, rfl⟩ | ⟨context, -, rfl⟩ |
      ⟨action, t, -, roots, rfl⟩
    · exact same
    · have silent : item.scope? = none := by
        cases item with
        | scope root => exact absurd rfl (other root)
        | _ => rfl
      simpa [scopes, silent] using same
    · simpa [scopes, PatternItem.scope?] using same
    · exact same.trans roots.symm
  · exact same

namespace Reachable

theorem empty (tag : UInt32) : (Pattern.empty tag).Reachable := ⟨tag, [], rfl⟩

theorem perform (h : p.Reachable) (action : Action) : (p.perform action).Reachable := by
  obtain ⟨tag, actions, rfl⟩ := h
  exact ⟨tag, actions ++ [action], by simp [run]⟩

/-- The scopes of a pattern are the roots of its tree. -/
theorem scopes_eq_roots (h : p.Reachable) : p.scopes = p.constraints.roots := by
  obtain ⟨tag, actions, rfl⟩ := h
  induction actions using List.reverseRecOn with
  | nil => rfl
  | append_singleton actions action ih =>
      rw [run, List.foldl_append]
      exact scopes_perform ih action

end Reachable

end Pattern

/-- Patterns with the supply of the tags for their trees. -/
structure Shelf where
  /-- The tag for the tree of the pattern that is made next. -/
  nextTag : UInt32
  patterns : List Pattern
  deriving Repr

namespace Shelf

/-- What can be done to several patterns. A place that holds no pattern is left alone. -/
inductive Action where
  | make
  | copy (place : Nat)
  | act (place : Nat) (action : Pattern.Action)
  deriving DecidableEq, Repr

def perform (s : Shelf) : Action → Shelf
  | .make => ⟨s.nextTag + 1, s.patterns ++ [.empty s.nextTag]⟩
  | .copy place => { s with patterns := s.patterns ++ s.patterns[place]?.toList }
  | .act place action => { s with patterns := s.patterns.modify place (·.perform action) }

def run (actions : List Action) : Shelf := actions.foldl perform ⟨0, []⟩

theorem run_concat (actions : List Action) (action : Action) :
    run (actions ++ [action]) = (run actions).perform action := by
  simp [run]

theorem reachable_of_mem_perform {s : Shelf} (reachable : ∀ p ∈ s.patterns, p.Reachable)
    (action : Action) : ∀ p ∈ (s.perform action).patterns, p.Reachable := by
  intro p member
  cases action with
  | make =>
      rcases List.mem_append.mp member with old | new
      · exact reachable p old
      · rw [List.mem_singleton.mp new]
        exact .empty s.nextTag
  | copy place =>
      rcases List.mem_append.mp member with old | new
      · exact reachable p old
      · exact reachable p (List.mem_of_getElem? (Option.mem_toList.mp new))
  | act place action =>
      obtain ⟨other, found⟩ := List.mem_iff_getElem?.mp member
      rw [perform, List.getElem?_modify] at found
      obtain ⟨before, stood, rfl⟩ := Option.map_eq_some_iff.mp found
      have history := reachable before (List.mem_of_getElem? stood)
      split
      · exact history.perform action
      · exact history

/-- Every pattern on a shelf has a history of its own. -/
theorem reachable_of_mem_run (actions : List Action) :
    ∀ p ∈ (run actions).patterns, p.Reachable := by
  induction actions using List.reverseRecOn with
  | nil => simp [run]
  | append_singleton actions action ih =>
      rw [run_concat]
      exact reachable_of_mem_perform ih action

end Shelf

end Schematron
