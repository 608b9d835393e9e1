import Schematron.Proofs.Document.Built

/-!
# What a document shows

Some documents have the same text although they are different values. A scope is
written as its rules, a rule of a tree as any other rule, and a message that is
not set as an empty one. `Document.shown` is the document with all of this settled:
it has hand-written rules only, and every message is set.

`toXml_shown` says that settling changes nothing in the text, for any options.
-/

namespace Schematron

/-- The assertion with its message, which is empty if none is set. -/
def Assert.shown (a : Assert) : Assert := { a with message := some (a.message.getD .empty) }

def Paragraph.shown (p : Paragraph) : Paragraph := ⟨some (p.message.getD "")⟩

def Rule.shown (r : Rule) : Rule := { r with asserts := r.asserts.map Assert.shown }

def Assertion.shown (a : Assertion) : Assert := (⟨some a.test, some a.message⟩ : Assert).shown

def RuleRecord.shown (r : RuleRecord) : Rule :=
  ⟨none, some r.path, r.assertions.map Assertion.shown⟩

/-- An item of a pattern with the given tree, and a scope as the rules it makes. -/
def PatternItem.shown (constraints : Tree) : PatternItem → List PatternItem
  | .paragraph p => [.paragraph p.shown]
  | .rule r => [.rule r.shown]
  | .scope root =>
    match constraints.rulesFrom root with
    | .ok records => records.map fun record => .rule record.shown
    | .error _ => []

/-- The pattern without a tree of its own. -/
def Pattern.shown (p : Pattern) : Pattern :=
  { p with items := p.items.flatMap (PatternItem.shown p.constraints), constraints := .empty 0 }

def SchemaItem.shown : SchemaItem → SchemaItem
  | .binding n => .binding n
  | .paragraph p => .paragraph p.shown
  | .pattern p => .pattern p.shown

def Schema.shown (s : Schema) : Schema := { s with items := s.items.map SchemaItem.shown }

/-- The document as its text shows it. -/
def Document.shown : Document → Document
  | .schema s => .schema s.shown
  | .binding n => .binding n
  | .paragraph p => .paragraph p.shown
  | .pattern p => .pattern p.shown
  | .rule r => .rule r.shown
  | .assert a => .assert a.shown
  | .assertion a => .assert a.shown
  | .record r => .rule r.shown
  | .message m => .message m

/-! ### The same markup -/

theorem Assert.toMarkup_shown (a : Assert) : a.shown.toMarkup = a.toMarkup := by
  obtain ⟨test, message⟩ := a
  cases message with
  | none => rfl
  | some m => rfl

theorem Rule.toMarkup_shown (r : Rule) : r.shown.toMarkup = r.toMarkup := by
  simp [shown, toMarkup, Function.comp_def, Assert.toMarkup_shown]

theorem Assertion.toMarkup_shown (a : Assertion) : a.shown.toMarkup = a.toMarkup :=
  Assert.toMarkup_shown _

theorem RuleRecord.toMarkup_shown (r : RuleRecord) : r.shown.toMarkup = r.toMarkup := by
  simp [shown, toMarkup, Rule.toMarkup, presentAttributes, Function.comp_def,
    Assertion.toMarkup_shown]

/-! ### The same tokens -/

namespace Markup

/-- Two lists of pieces are written alike. -/
structure Alike (content content' : List Markup) : Prop where
  complete : ∀ piece ∈ content, piece.outcome = .ok ()
  complete' : ∀ piece ∈ content', piece.outcome = .ok ()
  tokens_eq : ∀ nsPrefix binding,
    tokensAll nsPrefix binding content = tokensAll nsPrefix binding content'

namespace Alike

variable {content content' more more' : List Markup}

theorem refl (complete : ∀ piece ∈ content, piece.outcome = .ok ()) : Alike content content :=
  ⟨complete, complete, fun _ _ => rfl⟩

theorem append (h : Alike content content') (h' : Alike more more') :
    Alike (content ++ more) (content' ++ more') where
  complete := List.forall_mem_append.mpr ⟨h.complete, h'.complete⟩
  complete' := List.forall_mem_append.mpr ⟨h.complete', h'.complete'⟩
  tokens_eq nsPrefix binding := by
    have first := h.tokens_eq nsPrefix binding
    have second := h'.tokens_eq nsPrefix binding
    rw [tokensAll_of_complete h.complete, tokensAll_of_complete h.complete'] at first
    rw [tokensAll_of_complete h'.complete, tokensAll_of_complete h'.complete'] at second
    rw [tokensAll_of_complete (List.forall_mem_append.mpr ⟨h.complete, h'.complete⟩),
      tokensAll_of_complete (List.forall_mem_append.mpr ⟨h.complete', h'.complete'⟩),
      List.flatMap_append, List.flatMap_append, first, second]

theorem flatMap {α : Type} {f g : α → List Markup} {l : List α}
    (each : ∀ a ∈ l, Alike (f a) (g a)) : Alike (l.flatMap f) (l.flatMap g) :=
  related_flatMap (refl (by simp)) append each

theorem element (h : Alike content content') (name : String) (attributes : List Attribute) :
    Alike [.element name attributes content] [.element name attributes content'] := by
  have complete {content : List Markup} (each : ∀ piece ∈ content, piece.outcome = .ok ()) :
      ∀ piece ∈ [Markup.element name attributes content], piece.outcome = .ok () := by
    intro piece member
    rw [List.mem_singleton.mp member]
    exact outcome_element each
  refine ⟨complete h.complete, complete h.complete', fun nsPrefix binding => ?_⟩
  rw [tokensAll_of_complete (complete h.complete), tokensAll_of_complete (complete h.complete'),
    List.flatMap_singleton, List.flatMap_singleton, tokens, tokens, h.tokens_eq]

theorem render_eq (h : Alike content content') (o : OutputOptions) :
    render o content = render o content' := by
  cases valid : o.validate with
  | error error => rw [render_of_invalid valid, render_of_invalid valid]
  | ok done =>
      rw [render_of_complete valid h.complete, render_of_complete valid h.complete', h.tokens_eq]

end Alike

end Markup

theorem Paragraph.alike_shown (p : Paragraph) : Markup.Alike [p.shown.toMarkup] [p.toMarkup] := by
  refine Markup.Alike.element ⟨?_, ?_, ?_⟩ "p" []
  · intro piece member
    obtain ⟨text, -, rfl⟩ := List.mem_map.mp member
    rfl
  · intro piece member
    obtain ⟨text, -, rfl⟩ := List.mem_map.mp member
    rfl
  · intro nsPrefix binding
    obtain ⟨message⟩ := p
    cases message with
    | none => rfl
    | some text => rfl

theorem PatternItem.alike_shown {constraints : Tree} {item : PatternItem}
    (known : ∀ root, item = .scope root → ∃ records, constraints.rulesFrom root = .ok records)
    (other : Tree) :
    Markup.Alike ((item.shown constraints).flatMap (PatternItem.toMarkup other))
      (item.toMarkup constraints) := by
  cases item with
  | paragraph p => exact p.alike_shown
  | rule r =>
      change Markup.Alike [r.shown.toMarkup] [r.toMarkup]
      rw [r.toMarkup_shown]
      refine .refl fun piece member => ?_
      rw [List.mem_singleton.mp member]
      exact r.outcome_toMarkup
  | scope root =>
      obtain ⟨records, flat⟩ := known root rfl
      have same : (records.map fun record => PatternItem.rule record.shown).flatMap
          (PatternItem.toMarkup other) = records.map RuleRecord.toMarkup := by
        rw [List.flatMap_map, List.map_eq_flatMap]
        simp only [PatternItem.toMarkup, RuleRecord.toMarkup_shown]
      simp only [shown, toMarkup, flat, same]
      refine .refl fun piece member => ?_
      obtain ⟨record, -, rfl⟩ := List.mem_map.mp member
      exact record.outcome_toMarkup

theorem Pattern.alike_shown {p : Pattern} (sound : p.Sound) :
    Markup.Alike [p.shown.toMarkup] [p.toMarkup] := by
  refine Markup.Alike.element ?_ "pattern" _
  rw [shown, List.flatMap_assoc]
  refine .flatMap fun item member => PatternItem.alike_shown ?_ _
  rintro root rfl
  exact sound.exists_rules member

theorem Schema.alike_shown {s : Schema} (sound : ∀ p ∈ s.patterns, p.Sound) :
    Markup.Alike [s.shown.toMarkup] [s.toMarkup] := by
  refine Markup.Alike.element ?_ "schema" _
  rw [shown, List.map_map, List.map_eq_flatMap, List.map_eq_flatMap]
  refine .flatMap fun item member => ?_
  cases item with
  | binding n =>
      refine .refl fun piece member => ?_
      rw [List.mem_singleton.mp member]
      rfl
  | paragraph p => exact p.alike_shown
  | pattern p => exact Pattern.alike_shown (sound p (List.mem_filterMap.mpr ⟨_, member, rfl⟩))

namespace Document

theorem alike_shown {d : Document} (built : d.Built) :
    Markup.Alike d.shown.toMarkup d.toMarkup := by
  -- Where the shown value has the markup of the value itself, the markup is only complete.
  have same {piece piece' : Markup} (eq : piece' = piece) (complete : piece.outcome = .ok ()) :
      Markup.Alike [piece'] [piece] := by
    rw [eq]
    exact .refl (by simpa using complete)
  cases d with
  | schema s => exact Schema.alike_shown fun p member => (built p member).reachable.sound
  | binding n => exact same rfl rfl
  | paragraph p => exact p.alike_shown
  | pattern p => exact Pattern.alike_shown built.reachable.sound
  | rule r => exact same r.toMarkup_shown r.outcome_toMarkup
  | assert a => exact same a.toMarkup_shown a.outcome_toMarkup
  | assertion a => exact same a.toMarkup_shown a.outcome_toMarkup
  | record r => exact same r.toMarkup_shown r.outcome_toMarkup
  | message m => cases built

/-- A document and what it shows have the same text under all options. -/
theorem toXml_shown {d : Document} (built : d.Built) (o : OutputOptions) :
    d.shown.toXml o = d.toXml o :=
  (alike_shown built).render_eq o

end Document

end Schematron
