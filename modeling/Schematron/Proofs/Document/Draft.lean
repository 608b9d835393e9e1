import Schematron.Proofs.Document.Reachable
import Schematron.Proofs.Tree.Declaration
import Schematron.Proofs.Tree.Iteration

/-!
# Patterns declared in different orders

A pattern is drafted by adding items to it and by making the declarations of a
plan, whose roots are the scopes of the pattern. `Drafted` says what a draft has
become: its tree is the one that the declarations alone would have grown, and its
items are those of the steps that place one.

`Declaration.order_irrelevant` is the main statement. Declarations may be made in
any two orders that agree about the roots and about the declarations that share
parent and context: the rules of the trees are the same, and so is the text of
patterns with the same items.
-/

namespace Schematron

variable {ι : Type}

/-- A pattern that is being written, with the identifiers of the declarations made so far. -/
structure Draft (ι : Type) where
  pattern : Pattern
  ids : ι → Option NodeId

namespace Draft

inductive Step (ι : Type) where
  | paragraph (p : Paragraph)
  | rule (r : Rule)
  /-- A declaration of the plan is made; that of a root opens a scope. -/
  | declare (i : ι)
  deriving DecidableEq, Repr

/-- The declaration that a step makes. -/
def Step.declares? : Step ι → Option ι
  | .declare i => some i
  | _ => none

/-- Whether a step adds an item to the pattern. -/
def Step.places (plan : ι → Declaration ι) : Step ι → Bool
  | .declare i => Declaration.isRoot plan i
  | _ => true

/-- The item that a step adds, if the declarations have the given identifiers. -/
def Step.item? (plan : ι → Declaration ι) (ids : ι → Option NodeId) : Step ι → Option PatternItem
  | .paragraph p => some (.paragraph p)
  | .rule r => some (.rule r)
  | .declare i => if Declaration.isRoot plan i then (ids i).map PatternItem.scope else none

def declarations (steps : List (Step ι)) : List ι := steps.filterMap Step.declares?

/-- A pattern with nothing in it but its attributes. -/
def blank (id name : Option String) (tag : UInt32) : Draft ι :=
  ⟨{ Pattern.empty tag with id, name }, fun _ => none⟩

/-- A scope is opened or a constraint declared, if its parent is declared and the pattern accepts
it. -/
def added (plan : ι → Declaration ι) (d : Draft ι) (i : ι) : Option (NodeId × Pattern) :=
  match (plan i).parent with
  | none => (d.pattern.addScope (plan i).context).toOption
  | some p => (d.ids p).bind fun parent =>
      (d.pattern.addChild parent (plan i).context (plan i).kind).toOption

variable {plan : ι → Declaration ι} {steps steps' : List (Step ι)} {d d' : Draft ι}
variable {id name : Option String}

def growth (d : Draft ι) : Growth ι := ⟨d.pattern.constraints, d.ids⟩

theorem declarations_concat (steps : List (Step ι)) (s : Step ι) :
    declarations (steps ++ [s]) = declarations steps ++ s.declares?.toList := by
  rw [declarations, List.filterMap_append]
  cases s <;> rfl

theorem mem_declarations {i : ι} : i ∈ declarations steps ↔ .declare i ∈ steps := by
  rw [declarations, List.mem_filterMap]
  constructor
  · rintro ⟨s, member, declared⟩
    cases s with
    | declare j =>
        cases declared
        exact member
    | paragraph p => cases declared
    | rule r => cases declared
  · intro member
    exact ⟨_, member, rfl⟩

/-- A declaration does to the tree of a draft what it does to a tree alone. -/
theorem added_eq (scopes : ∀ i, (plan i).parent = none → (plan i).kind = .scope) (d : Draft ι)
    (i : ι) : d.added plan i = (d.growth.added plan i).map fun made =>
      (made.1, { d.pattern with
        items := d.pattern.items ++ if Declaration.isRoot plan i then [.scope made.1] else []
        constraints := made.2 }) := by
  unfold added Growth.added
  cases parent : (plan i).parent with
  | none =>
      simp only [Declaration.isRoot, parent, Option.isNone_none, if_true, scopes i parent,
        Pattern.addScope, Tree.addScope, growth, bind, Except.bind, pure, Except.pure]
      cases d.pattern.constraints.addRoot (plan i).context .scope <;> rfl
  | some p =>
      simp only [Declaration.isRoot, parent, Option.isNone_some, Bool.false_eq_true, if_false,
        List.append_nil, Pattern.addChild, growth, bind, Except.bind, pure, Except.pure]
      cases d.ids p with
      | none => rfl
      | some id =>
          simp only [Option.bind_some]
          cases d.pattern.constraints.addChild id (plan i).context (plan i).kind <;> rfl

variable [DecidableEq ι]

def step (plan : ι → Declaration ι) (d : Draft ι) : Step ι → Option (Draft ι)
  | .paragraph p => some ⟨d.pattern.withParagraph p, d.ids⟩
  | .rule r => some ⟨d.pattern.withRule r, d.ids⟩
  | .declare i =>
    (d.added plan i).map fun made => ⟨made.2, Function.update d.ids i (some made.1)⟩

def run (plan : ι → Declaration ι) (id name : Option String) (tag : UInt32)
    (steps : List (Step ι)) : Option (Draft ι) :=
  steps.foldlM (step plan) (blank id name tag)

/-- A draft that some steps have led to. -/
structure Drafted (plan : ι → Declaration ι) (id name : Option String) (steps : List (Step ι))
    (d : Draft ι) : Prop where
  grown : Declaration.Grown plan (declarations steps) d.growth
  id_eq : d.pattern.id = id
  name_eq : d.pattern.name = name
  items_eq : d.pattern.items = steps.filterMap (Step.item? plan d.ids)

namespace Drafted

theorem blank (tag : UInt32) : Drafted plan id name [] (Draft.blank id name tag) where
  grown := Declaration.Grown.start tag
  id_eq := rfl
  name_eq := rfl
  items_eq := rfl

theorem withItem (h : Drafted plan id name steps d) {s : Step ι} {item : PatternItem}
    (silent : s.declares? = none) (places : Step.item? plan d.ids s = some item) :
    Drafted plan id name (steps ++ [s])
      ⟨{ d.pattern with items := d.pattern.items ++ [item] }, d.ids⟩ where
  grown := by
    rw [declarations_concat, silent, Option.toList_none, List.append_nil]
    exact h.grown
  id_eq := h.id_eq
  name_eq := h.name_eq
  items_eq := by
    rw [List.filterMap_append, ← h.items_eq]
    simp [places]

theorem declare (h : Drafted plan id name steps d)
    (scopes : ∀ i, (plan i).parent = none → (plan i).kind = .scope) {i : ι}
    (fresh : i ∉ declarations steps) (named : (plan i).context ≠ "")
    (above : ∀ p, (plan i).parent = some p → p ∈ declarations steps) :
    ∃ d', d.step plan (.declare i) = some d' ∧
      Drafted plan id name (steps ++ [.declare i]) d' := by
  obtain ⟨g, grown, invariant⟩ := h.grown.declare fresh named above
  obtain ⟨⟨new, tree⟩, made, rfl⟩ := Option.map_eq_some_iff.mp grown
  refine ⟨⟨{ d.pattern with
    items := d.pattern.items ++ if Declaration.isRoot plan i then [.scope new] else []
    constraints := tree }, Function.update d.ids i (some new)⟩, ?_, ?_, h.id_eq, h.name_eq, ?_⟩
  · rw [step, added_eq scopes, made]
    rfl
  · rw [declarations_concat]
    exact invariant
  · -- The items before do not depend on the new identifier.
    have before : steps.filterMap (Step.item? plan (Function.update d.ids i (some new))) =
        steps.filterMap (Step.item? plan d.ids) := by
      apply List.filterMap_congr
      intro s member
      cases s with
      | paragraph p => rfl
      | rule r => rfl
      | declare j =>
          have other : j ≠ i := by
            rintro rfl
            exact fresh (mem_declarations.mpr member)
          simp [Step.item?, Function.update_of_ne other]
    rw [List.filterMap_append, before, ← h.items_eq]
    by_cases root : Declaration.isRoot plan i = true <;> simp [Step.item?, root]

/-- The scopes of a draft are nodes of its tree. -/
theorem sound (h : Drafted plan id name steps d) : d.pattern.Sound where
  constraints := h.grown.sound
  scope_found {root} member := by
    rw [h.items_eq, List.mem_filterMap] at member
    obtain ⟨s, -, placed⟩ := member
    cases s with
    | paragraph p => cases placed
    | rule r => cases placed
    | declare i =>
        simp only [Step.item?] at placed
        split at placed
        · obtain ⟨id, found, same⟩ := Option.map_eq_some_iff.mp placed
          cases same
          obtain ⟨n, inside, -⟩ := h.grown.node found
          exact ⟨n, inside⟩
        · cases placed

/-- The items of two drafts are written alike if the same items are placed in the same order. -/
theorem items_toMarkup (h : Drafted plan id name steps d) (h' : Drafted plan id name steps' d')
    (same : Declaration.Reorders plan (declarations steps) (declarations steps'))
    (placed : steps.filter (Step.places plan) = steps'.filter (Step.places plan)) :
    d.pattern.items.flatMap (PatternItem.toMarkup d.pattern.constraints) =
      d'.pattern.items.flatMap (PatternItem.toMarkup d'.pattern.constraints) := by
  have alike := h.grown.alike h'.grown same
  have only_placed (l : List (Step ι)) (ids : ι → Option NodeId) :
      l.filterMap (Step.item? plan ids) =
        (l.filter (Step.places plan)).filterMap (Step.item? plan ids) := by
    rw [List.filterMap_filter]
    apply List.filterMap_congr
    intro s _
    cases s with
    | paragraph p => rfl
    | rule r => rfl
    | declare i =>
        by_cases root : Declaration.isRoot plan i = true <;> simp [Step.item?, Step.places, root]
  have each (l : List (Step ι)) (inside : l ⊆ steps) :
      (l.filterMap (Step.item? plan d.ids)).flatMap
          (PatternItem.toMarkup d.pattern.constraints) =
        (l.filterMap (Step.item? plan d'.ids)).flatMap
          (PatternItem.toMarkup d'.pattern.constraints) := by
    induction l with
    | nil => rfl
    | cons s rest ih =>
        have tail := ih fun other later => inside (.tail s later)
        cases s with
        | paragraph p => exact congrArg (p.toMarkup :: ·) tail
        | rule r => exact congrArg (r.toMarkup :: ·) tail
        | declare i =>
            have member : i ∈ declarations steps := mem_declarations.mpr (inside (.head rest))
            obtain ⟨root, found⟩ := h.grown.mem_iff.mp member
            obtain ⟨root', found'⟩ := h'.grown.mem_iff.mp (same.perm.mem_iff.mp member)
            have rules := alike.rulesFrom_eq h.grown.sound h'.grown.sound ⟨i, found, found'⟩
            change d.pattern.constraints.rulesFrom root =
              d'.pattern.constraints.rulesFrom root' at rules
            change d.ids i = some root at found
            change d'.ids i = some root' at found'
            by_cases scope : Declaration.isRoot plan i = true
            · simp only [List.filterMap_cons, Step.item?, scope, if_true, found, found',
                Option.map_some, List.flatMap_cons, tail, PatternItem.toMarkup, rules]
            · simpa only [List.filterMap_cons, Step.item?, scope, Bool.false_eq_true, if_false]
                using tail
  rw [h.items_eq, h'.items_eq, only_placed, only_placed steps', ← placed]
  exact each _ List.filter_sublist.subset

end Drafted

/-- Steps whose declarations can be made in their order lead to a draft. -/
theorem exists_run (scopes : ∀ i, (plan i).parent = none → (plan i).kind = .scope)
    (h : Declaration.Orders plan (declarations steps)) (id name : Option String) (tag : UInt32) :
    ∃ d, run plan id name tag steps = some d ∧ Drafted plan id name steps d := by
  induction steps using List.reverseRecOn with
  | nil => exact ⟨_, rfl, Drafted.blank tag⟩
  | append_singleton steps s ih =>
      have more {d : Draft ι} (ran : run plan id name tag steps = some d) :
          run plan id name tag (steps ++ [s]) = d.step plan s := by
        rw [run, List.foldlM_append]
        change (run plan id name tag steps).bind _ = _
        simp [ran]
      rw [declarations_concat] at h
      cases s with
      | paragraph p =>
          obtain ⟨d, ran, drafted⟩ := ih (by simpa [Step.declares?] using h)
          exact ⟨_, more ran, drafted.withItem rfl rfl⟩
      | rule r =>
          obtain ⟨d, ran, drafted⟩ := ih (by simpa [Step.declares?] using h)
          exact ⟨_, more ran, drafted.withItem rfl rfl⟩
      | declare i =>
          obtain ⟨before, fresh, named, above⟩ := Declaration.Orders.of_concat h
          obtain ⟨d, ran, drafted⟩ := ih before
          obtain ⟨d', stepped, drafted'⟩ := drafted.declare scopes fresh named above
          exact ⟨d', (more ran).trans stepped, drafted'⟩

end Draft

namespace Declaration

variable {ι : Type} [DecidableEq ι]

/-- The order in which the declarations of a plan are made does not show. Of two orders with every
parent before its children, which agree in the order of the roots and of the declarations that
share parent and context, each leads to a tree whatever its tag is, and the trees have the same
rules, in whatever order their children are listed. If the declarations are made in two patterns
that have the same other items, between the same scopes, the patterns have the same text. -/
theorem order_irrelevant (plan : ι → Declaration ι) :
    (∀ order order', Orders plan order → Orders plan order' → Reorders plan order order' →
      ∀ tag tag', ∃ g g' records,
        Growth.run plan tag order = some g ∧ Growth.run plan tag' order' = some g' ∧
        g.tree.rules = .ok records ∧ g'.tree.rules = .ok records ∧
        (∀ listed, g.tree.Lists listed → g.tree.rulesVia listed = .ok records) ∧
        ∀ listed, g'.tree.Lists listed → g'.tree.rulesVia listed = .ok records) ∧
    ∀ steps steps', (∀ i, (plan i).parent = none → (plan i).kind = .scope) →
      Orders plan (Draft.declarations steps) → Orders plan (Draft.declarations steps') →
      Reorders plan (Draft.declarations steps) (Draft.declarations steps') →
      steps.filter (Draft.Step.places plan) = steps'.filter (Draft.Step.places plan) →
      ∀ id name tag tag', ∃ d d',
        Draft.run plan id name tag steps = some d ∧
        Draft.run plan id name tag' steps' = some d' ∧
        ∀ o : OutputOptions, o.validate = .ok () → ∃ text,
          Document.toXml o (.pattern d.pattern) = .ok text ∧
          Document.toXml o (.pattern d'.pattern) = .ok text := by
  constructor
  · intro order order' orders orders' same tag tag'
    obtain ⟨g, grows, grown⟩ := orders.exists_run tag
    obtain ⟨g', grows', grown'⟩ := orders'.exists_run tag'
    have rules := (grown.alike grown' same).rules_eq grown.sound grown'.sound
    have flat := grown.sound.rules_eq
    refine ⟨g, g', _, grows, grows', flat, rules ▸ flat, ?_, ?_⟩
    · intro listed lists
      rw [Tree.rulesVia_eq lists, flat]
    · intro listed lists
      rw [Tree.rulesVia_eq lists, ← rules, flat]
  · intro steps steps' scopes orders orders' same placed id name tag tag'
    obtain ⟨d, ran, drafted⟩ := Draft.exists_run scopes orders id name tag
    obtain ⟨d', ran', drafted'⟩ := Draft.exists_run scopes orders' id name tag'
    have markup : d.pattern.toMarkup = d'.pattern.toMarkup := by
      rw [Pattern.toMarkup, Pattern.toMarkup, drafted.items_toMarkup drafted' same placed,
        drafted.id_eq, drafted'.id_eq, drafted.name_eq, drafted'.name_eq]
    refine ⟨d, d', ran, ran', fun o valid => ?_⟩
    have complete : ∀ piece ∈ [d.pattern.toMarkup], piece.outcome = .ok () := by
      intro piece member
      rw [List.mem_singleton.mp member]
      exact drafted.sound.outcome_toMarkup
    have written := Markup.render_of_complete valid complete
    refine ⟨_, written, ?_⟩
    change Markup.render o [d'.pattern.toMarkup] = _
    rw [← markup, written]

/-- A plan with a child that is declared twice, each time with a child of its own, and a second
root. -/
def sample : Fin 7 → Declaration (Fin 7) := fun i =>
  [⟨none, "/", .scope⟩, ⟨some 0, "a", .requiredPresence⟩, ⟨some 1, "x", .forbiddenPresence⟩,
    ⟨some 0, "a", .setInclusion ⟨["u", "v"]⟩⟩, ⟨some 3, "y", .requiredPresence⟩,
    ⟨none, "//b", .scope⟩, ⟨some 5, "c", .optionalPresence⟩].get i

/-- The second order declares below the child that was replaced, and after the second root. -/
theorem order_irrelevant_sample :
    (∃ g g' records, Growth.run sample 0 [0, 1, 2, 3, 4, 5, 6] = some g ∧
      Growth.run sample 9 [0, 5, 1, 3, 6, 4, 2] = some g' ∧ g.tree.rules = .ok records ∧
      g'.tree.rules = .ok records ∧ g.tree.nodes ≠ g'.tree.nodes) ∧
    ∃ d d' text, Draft.run sample none (some "n") 0
        [.declare 0, .declare 1, .declare 2, .declare 3, .declare 4, .paragraph ⟨some "p"⟩,
          .declare 5, .declare 6] = some d ∧
      Draft.run sample none (some "n") 9
        [.declare 0, .paragraph ⟨some "p"⟩, .declare 5, .declare 1, .declare 3, .declare 6,
          .declare 4, .declare 2] = some d' ∧
      Document.toXml .standard (.pattern d.pattern) = .ok text ∧
      Document.toXml .standard (.pattern d'.pattern) = .ok text := by
  obtain ⟨trees, patterns⟩ := order_irrelevant sample
  have orders : Orders sample [0, 1, 2, 3, 4, 5, 6] := ⟨by decide, by decide, by decide⟩
  have orders' : Orders sample [0, 5, 1, 3, 6, 4, 2] := ⟨by decide, by decide, by decide⟩
  have same : Reorders sample [0, 1, 2, 3, 4, 5, 6] [0, 5, 1, 3, 6, 4, 2] :=
    ⟨by decide, by decide, by decide⟩
  constructor
  · obtain ⟨g, g', records, ran, ran', rules, rules', -⟩ := trees _ _ orders orders' same 0 9
    refine ⟨g, g', records, ran, ran', rules, rules', ?_⟩
    have differ : (Growth.run sample 0 [0, 1, 2, 3, 4, 5, 6]).map (·.tree.nodes) ≠
        (Growth.run sample 9 [0, 5, 1, 3, 6, 4, 2]).map (·.tree.nodes) := by decide +kernel
    rw [ran, ran'] at differ
    exact fun alike => differ (congrArg some alike)
  · obtain ⟨d, d', ran, ran', texts⟩ := patterns
      [.declare 0, .declare 1, .declare 2, .declare 3, .declare 4, .paragraph ⟨some "p"⟩,
        .declare 5, .declare 6]
      [.declare 0, .paragraph ⟨some "p"⟩, .declare 5, .declare 1, .declare 3, .declare 6,
        .declare 4, .declare 2]
      (by decide) orders orders' same (by decide) none (some "n") 0 9
    obtain ⟨text, written, written'⟩ := texts .standard (by decide +kernel)
    exact ⟨d, d', text, ran, ran', written, written'⟩

end Declaration

end Schematron
