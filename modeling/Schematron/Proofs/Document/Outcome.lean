import Schematron.Proofs.Document.Shelf

/-!
# When a document is not written

Nothing but unusable options keeps a document from being written. Of the errors
that the writing itself could stop with, none can occur: a pattern that was built
by its operations has every scope among the roots of its own tree, so its scopes
denest into rules, and the pieces of a document close each element they open.
`toXml_fails_iff` says so for all documents whose patterns stand on a shelf.
-/

namespace Schematron

/-- Options are only refused as such. -/
theorem OutputOptions.exists_reason {o : OutputOptions} {e : OutputError}
    (refused : o.validate = .error e) : ∃ reason, e = .invalidConfig reason := by
  unfold validate at refused
  split at refused
  · cases refused
    exact ⟨_, rfl⟩
  · split at refused
    · cases refused
      exact ⟨_, rfl⟩
    · split at refused
      · cases refused
        exact ⟨_, rfl⟩
      · cases refused

namespace Document

def patterns : Document → List Pattern
  | schema s => s.patterns
  | pattern p => [p]
  | _ => []

variable {d : Document} {o : OutputOptions}

theorem outcome_toMarkup (reachable : ∀ p ∈ d.patterns, p.Reachable) :
    ∀ piece ∈ d.toMarkup, piece.outcome = .ok () := by
  have only {piece : Markup} (complete : piece.outcome = .ok ()) :
      ∀ other ∈ [piece], other.outcome = .ok () := by
    intro other member
    rw [List.mem_singleton.mp member]
    exact complete
  cases d with
  | schema s => exact only (Schema.outcome_toMarkup fun p member => (reachable p member).sound)
  | binding n => exact only rfl
  | paragraph p => exact only p.outcome_toMarkup
  | pattern p => exact only (reachable p (.head _)).sound.outcome_toMarkup
  | rule r => exact only r.outcome_toMarkup
  | assert a => exact only a.outcome_toMarkup
  | assertion a => exact only a.outcome_toMarkup
  | record r => exact only r.outcome_toMarkup
  | message m => exact m.outcome_toMarkup

/-- A document fails with an error exactly if its options are refused with it. -/
theorem toXml_eq_error_iff (reachable : ∀ p ∈ d.patterns, p.Reachable) {e : OutputError} :
    d.toXml o = .error e ↔ o.validate = .error e := by
  cases valid : o.validate with
  | error refused =>
      rw [toXml, Markup.render_of_invalid valid, Except.error.injEq, Except.error.injEq]
  | ok done =>
      rw [toXml, Markup.render_of_complete valid (outcome_toMarkup reachable)]
      simp

/-- A document of patterns from a shelf fails exactly if its options are refused, and with the
same error. Each scope in it is a root of the tree of its pattern and has rules. -/
theorem toXml_fails_iff (actions : List Shelf.Action) (d : Document) (o : OutputOptions)
    (made : ∀ p ∈ d.patterns, p ∈ (Shelf.run actions).patterns) :
    (∀ e, d.toXml o = .error e ↔ o.validate = .error e) ∧
    (∀ e, d.toXml o = .error e → ∃ reason, e = .invalidConfig reason) ∧
    ((∃ text, d.toXml o = .ok text) ↔ o.validate = .ok ()) ∧
    ∀ p ∈ d.patterns, ∀ root, .scope root ∈ p.items →
      root ∈ p.constraints.roots ∧ ∃ records, p.constraints.rulesFrom root = .ok records := by
  have reachable : ∀ p ∈ d.patterns, p.Reachable := fun p member =>
    Shelf.reachable_of_mem_run actions p (made p member)
  refine ⟨fun e => toXml_eq_error_iff reachable, fun e failed => ?_, ?_, ?_⟩
  · exact OutputOptions.exists_reason ((toXml_eq_error_iff reachable).mp failed)
  · constructor
    · rintro ⟨text, written⟩
      cases valid : o.validate with
      | ok done => rfl
      | error e =>
          rw [(toXml_eq_error_iff reachable).mpr valid] at written
          cases written
    · intro valid
      exact ⟨_, Markup.render_of_complete valid (outcome_toMarkup reachable)⟩
  · intro p member root scope
    have history := reachable p member
    refine ⟨?_, history.sound.exists_rules scope⟩
    rw [← history.scopes_eq_roots]
    exact Pattern.mem_scopes_iff.mpr scope

/-- A shelf on which a pattern is copied and both go on. A child of the first is replaced, and the
copy gets constraints below it as well as a scope of its own. -/
def copying : List Shelf.Action :=
  [.make, .act 0 (.scope "/"), .act 0 (.child ⟨0, 0⟩ "a" .requiredPresence), .copy 0,
    .act 0 (.child ⟨0, 0⟩ "a" .scope), .act 1 (.child ⟨0, 1⟩ "b" (.setExclusion ⟨["<"]⟩)),
    .act 1 (.child ⟨0, 7⟩ "c" .scope), .act 1 (.paragraph ⟨none⟩), .act 1 (.scope "//x"),
    .act 1 (.child ⟨0, 3⟩ "c" .optionalPresence)]

def copied : Document :=
  .schema ⟨none, some "&", (Shelf.run copying).patterns.map .pattern⟩

/-- The schema is written under usable options and refused under others. -/
theorem toXml_fails_iff_copied :
    (∀ p ∈ copied.patterns, p ∈ (Shelf.run copying).patterns) ∧ copied.patterns.length = 2 ∧
    (∃ text, copied.toXml .standard = .ok text) ∧
    copied.toXml { OutputOptions.standard with nsPrefix := "a:b" } =
      .error (.invalidConfig "namespace prefix 'a:b' is not an XML name") := by
  have made : copied.patterns = (Shelf.run copying).patterns := by decide +kernel
  have fails_iff (o : OutputOptions) := toXml_fails_iff copying copied o fun p member =>
    made ▸ member
  refine ⟨fun p member => made ▸ member, by decide +kernel, ?_, ?_⟩
  · obtain ⟨-, -, written_iff, -⟩ := fails_iff .standard
    exact written_iff.mpr (by rfl)
  · obtain ⟨error_iff, -⟩ := fails_iff { OutputOptions.standard with nsPrefix := "a:b" }
    exact (error_iff _).mpr (by rfl)

end Document

end Schematron
