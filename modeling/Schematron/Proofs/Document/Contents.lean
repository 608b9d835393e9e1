import Schematron.Proofs.Document.Shelf

/-!
# What a pattern writes

A pattern has its scopes twice: among its items, between what was written by
hand, and as the roots of its tree. It is written item by item, each scope as
the rules from its root on, while the rules of the tree are made root by root.

`weave` says what is written without any tree. It takes the entries that a history
has left among the items and the rules in blocks, and puts one block where each
scope was opened. `Shelf.rules_in_place` says that the content of every pattern is
woven of its history and of the rules of its whole tree, however it was copied and
whatever was declared late.
-/

namespace Schematron

namespace Pattern

/-- What stands at a place of a pattern, apart from the identifier of a scope. -/
inductive Entry where
  | paragraph (p : Paragraph)
  | rule (r : Rule)
  | scope
  deriving DecidableEq, Repr

/-- What an action leaves among the items. A scope without a context is refused. -/
def Action.entry? : Action → Option Entry
  | .paragraph p => some (.paragraph p)
  | .rule r => some (.rule r)
  | .scope context => if context = "" then none else some .scope
  | _ => none

/-- The markup of entries in their order. Every scope takes the next block of rules. -/
def weave : List Entry → List (List RuleRecord) → List Markup
  | [], _ => []
  | .paragraph p :: entries, blocks => p.toMarkup :: weave entries blocks
  | .rule r :: entries, blocks => r.toMarkup :: weave entries blocks
  | .scope :: _, [] => []
  | .scope :: entries, block :: blocks => block.map RuleRecord.toMarkup ++ weave entries blocks

end Pattern

namespace PatternItem

def entry : PatternItem → Pattern.Entry
  | paragraph p => .paragraph p
  | rule r => .rule r
  | scope _ => .scope

theorem count_scope_entries (items : List PatternItem) :
    (items.map entry).count .scope = (items.filterMap scope?).length := by
  induction items with
  | nil => rfl
  | cons item rest ih => cases item <;> simp [entry, scope?, List.filterMap_cons, ih]

/-- To write items one by one is to weave their entries with the rules of their scopes. -/
theorem weave_entries {constraints : Tree} {records : NodeId → List RuleRecord}
    {items : List PatternItem}
    (flat : ∀ root, .scope root ∈ items → constraints.rulesFrom root = .ok (records root)) :
    Pattern.weave (items.map entry) ((items.filterMap scope?).map records) =
      items.flatMap (toMarkup constraints) := by
  induction items with
  | nil => rfl
  | cons item rest ih =>
      have later := ih fun root member => flat root (.tail item member)
      cases item with
      | paragraph p =>
          simpa [entry, scope?, Pattern.weave, toMarkup, List.filterMap_cons] using later
      | rule r => simpa [entry, scope?, Pattern.weave, toMarkup, List.filterMap_cons] using later
      | scope root =>
          simpa [entry, scope?, Pattern.weave, toMarkup, flat root (.head rest)] using later

end PatternItem

namespace Pattern

/-- The items grow by the entry of an action, and by nothing if it is refused. -/
theorem entries_perform (p : Pattern) (action : Action) :
    (p.perform action).items.map PatternItem.entry =
      p.items.map PatternItem.entry ++ action.entry?.toList := by
  -- The actions that only concern the tree leave the items alone, refused or not.
  have untouched (silent : action.entry? = none)
      (kept : ∀ after, p.act action = .ok after → after.items = p.items) :
      (p.perform action).items.map PatternItem.entry =
        p.items.map PatternItem.entry ++ action.entry?.toList := by
    rw [silent, Option.toList_none, List.append_nil, perform]
    split
    · next after acted => rw [kept after acted]
    · rfl
  cases action with
  | setId id => simp [perform, act, Action.entry?]
  | setName name => simp [perform, act, Action.entry?]
  | paragraph paragraph => simp [perform, act, Action.entry?, withParagraph, PatternItem.entry]
  | rule rule => simp [perform, act, Action.entry?, withRule, PatternItem.entry]
  | scope context =>
      by_cases named : context = ""
      · simp [perform, act, Action.entry?, addScope, Tree.addScope, Tree.addRoot, named, bind,
          Except.bind, Except.map]
      · simp [perform, act, Action.entry?, addScope, Tree.addScope, Tree.addRoot_of_ne named,
          named, bind, Except.bind, pure, Except.pure, Except.map, PatternItem.entry]
  | child parent context kind =>
      refine untouched rfl fun after acted => ?_
      obtain ⟨⟨id, declared⟩, added, rfl⟩ := Except.map_eq_ok_iff.mp acted
      obtain ⟨-, -, -, same⟩ := addChild_cases added
      rw [same]
  | setValues id values =>
      refine untouched rfl fun after acted => ?_
      obtain ⟨t, -, rfl⟩ := Except.map_eq_ok_iff.mp acted
      rfl
  | setRange id range =>
      refine untouched rfl fun after acted => ?_
      obtain ⟨t, -, rfl⟩ := Except.map_eq_ok_iff.mp acted
      rfl

/-- The items of a pattern are what its history has left, in that order. -/
theorem entries_run (tag : UInt32) (history : List Action) :
    (run tag history).items.map PatternItem.entry = history.filterMap Action.entry? := by
  induction history using List.reverseRecOn with
  | nil => rfl
  | append_singleton history action ih =>
      rw [run, List.foldl_append, List.foldl_cons, List.foldl_nil, ← run, entries_perform, ih,
        List.filterMap_append]
      cases left : action.entry? <;> simp [left]

/-- The content of a pattern, woven of its entries and of the rules of its tree. -/
theorem Reachable.exists_blocks {p : Pattern} (h : p.Reachable) :
    ∃ blocks, p.constraints.roots.mapM p.constraints.rulesFrom = .ok blocks ∧
      p.constraints.rules = .ok blocks.flatten ∧
      (p.items.map PatternItem.entry).count .scope = blocks.length ∧
      weave (p.items.map PatternItem.entry) blocks =
        p.items.flatMap (PatternItem.toMarkup p.constraints) := by
  have agree : p.items.filterMap PatternItem.scope? = p.constraints.roots := h.scopes_eq_roots
  have mapped := h.sound.constraints.mapM_rulesFrom_eq
  refine ⟨_, mapped, ?_, ?_, ?_⟩
  · rw [Tree.rules, mapped]
    rfl
  · rw [PatternItem.count_scope_entries, agree, List.length_map]
  · rw [← agree]
    refine PatternItem.weave_entries fun root member => ?_
    obtain ⟨n, found⟩ := h.sound.scope_found member
    exact h.sound.constraints.rulesFrom_eq found

end Pattern

namespace Shelf

/-- The histories of the patterns after one action more. A copy starts with that of its source. -/
def record (histories : List (List Pattern.Action)) : Action → List (List Pattern.Action)
  | .make => histories ++ [[]]
  | .copy place => histories ++ histories[place]?.toList
  | .act place action => histories.modify place (· ++ [action])

/-- What was done to each pattern of a shelf, up to the copying to its source. -/
def histories (actions : List Action) : List (List Pattern.Action) := actions.foldl record []

/-- Every pattern on a shelf is what its own history makes of an empty one. -/
theorem exists_tags (actions : List Action) : ∃ told : List (UInt32 × List Pattern.Action),
    told.map Prod.snd = histories actions ∧
    (run actions).patterns = told.map fun h => Pattern.run h.1 h.2 := by
  induction actions using List.reverseRecOn with
  | nil => exact ⟨[], rfl, rfl⟩
  | append_singleton actions action ih =>
      obtain ⟨told, recorded, stand⟩ := ih
      rw [run_concat, histories, List.foldl_append, List.foldl_cons, List.foldl_nil, ← histories,
        ← recorded]
      cases action with
      | make =>
          refine ⟨told ++ [((run actions).nextTag, [])], by simp [record], ?_⟩
          simp [perform, stand, Pattern.run]
      | copy place =>
          refine ⟨told ++ told[place]?.toList, ?_, ?_⟩
          · cases found : told[place]? <;> simp [record, found]
          · cases found : told[place]? <;> simp [perform, stand, found]
      | act place action =>
          refine ⟨told.modify place fun h => (h.1, h.2 ++ [action]), ?_, ?_⟩
          · apply List.ext_getElem?
            intro i
            by_cases same : place = i <;> cases found : told[i]? <;>
              simp [record, same, found]
          · apply List.ext_getElem?
            intro i
            by_cases same : place = i <;> cases found : told[i]? <;>
              simp [perform, stand, same, found, Pattern.run]

/-- A pattern writes exactly the rules of its tree. Its scopes are the roots of the tree, in the
order in which both were added. The items are what the history of the pattern has left, and its
content is woven of them and of the rules of the tree, one block for each root: the paragraphs and
rules written by hand keep their order, and the rules of a scope stand where it was opened. -/
theorem rules_in_place (actions : List Action) {place : Nat} {p : Pattern}
    (stands : (run actions).patterns[place]? = some p) :
    p.scopes = p.constraints.roots ∧
    ∃ history blocks, (histories actions)[place]? = some history ∧
      p.items.map PatternItem.entry = history.filterMap Pattern.Action.entry? ∧
      p.constraints.roots.mapM p.constraints.rulesFrom = .ok blocks ∧
      p.constraints.rules = .ok blocks.flatten ∧
      (history.filterMap Pattern.Action.entry?).count .scope = blocks.length ∧
      p.toMarkup = .element "pattern" (presentAttributes [("id", p.id), ("name", p.name)])
        (Pattern.weave (history.filterMap Pattern.Action.entry?) blocks) := by
  obtain ⟨told, recorded, stand⟩ := exists_tags actions
  rw [stand, List.getElem?_map] at stands
  obtain ⟨⟨tag, history⟩, found, rfl⟩ := Option.map_eq_some_iff.mp stands
  have reachable : (Pattern.run tag history).Reachable := ⟨tag, history, rfl⟩
  have entries := Pattern.entries_run tag history
  obtain ⟨blocks, mapped, flat, counted, woven⟩ := reachable.exists_blocks
  rw [entries] at counted woven
  refine ⟨reachable.scopes_eq_roots, history, blocks, ?_, entries, mapped, flat, counted, ?_⟩
  · rw [← recorded, List.getElem?_map, found, Option.map_some]
  · rw [Pattern.toMarkup, woven]

/-- A pattern with a scope between a rule and a paragraph, which is copied. The copy gets a second
scope, a constraint below the first one after that, and a scope that is refused. -/
def branching : List Action :=
  [.make, .act 0 (.rule ⟨some "r", none, []⟩), .act 0 (.scope "/"), .act 0 (.paragraph ⟨none⟩),
    .copy 0, .act 0 (.child ⟨0, 0⟩ "a" .forbiddenPresence), .act 1 (.scope "//x"),
    .act 1 (.child ⟨0, 1⟩ "b" .optionalPresence), .act 1 (.scope ""),
    .act 1 (.child ⟨0, 0⟩ "a" .requiredPresence)]

/-- In the copy the late constraint is written before the paragraph, in the scope it belongs to.
That of the source, which has the same context, is not. -/
theorem rules_in_place_branching : ∃ p, (run branching).patterns[1]? = some p ∧
    p.scopes = p.constraints.roots ∧
    ∃ blocks, p.constraints.rules = .ok blocks.flatten ∧
      blocks.map (·.map RuleRecord.path) = [["/"], ["//x"]] ∧
      p.toMarkup = .element "pattern" []
        (Pattern.weave [.rule ⟨some "r", none, []⟩, .scope, .paragraph ⟨none⟩, .scope] blocks) ∧
      p.toMarkup = .element "pattern" [] [.element "rule" [("id", "r")] [],
        .element "rule" [("context", "/")]
          [.element "assert" [("test", "count(a) >= 1")] [.text "element \"a\" is REQUIRED"]],
        .element "p" [] [],
        .element "rule" [("context", "//x")]
          [.element "assert" [("test", "count(b) >= 0")] [.text "element \"b\" is OPTIONAL"]]] := by
  let p := Pattern.run 0 [.rule ⟨some "r", none, []⟩, .scope "/", .paragraph ⟨none⟩, .scope "//x",
    .child ⟨0, 1⟩ "b" .optionalPresence, .child ⟨0, 0⟩ "a" .requiredPresence]
  have stands : (run branching).patterns[1]? = some p := by decide +kernel
  obtain ⟨agree, history, blocks, -, entries, mapped, flat, -, written⟩ :=
    rules_in_place branching stands
  have left : p.items.map PatternItem.entry =
      [.rule ⟨some "r", none, []⟩, .scope, .paragraph ⟨none⟩, .scope] := by decide +kernel
  have ruled : (p.constraints.roots.mapM p.constraints.rulesFrom).toOption = some
      [[⟨"/", [⟨"count(a) >= 1", ⟨[.text "element \"a\" is REQUIRED"]⟩⟩]⟩],
        [⟨"//x", [⟨"count(b) >= 0", ⟨[.text "element \"b\" is OPTIONAL"]⟩⟩]⟩]] := by
    decide +kernel
  rw [mapped] at ruled
  cases ruled
  rw [← entries, left] at written
  exact ⟨p, stands, agree, _, flat, rfl, written, written⟩

end Shelf

end Schematron
