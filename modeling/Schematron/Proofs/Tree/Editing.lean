import Schematron.Proofs.Tree.Identity
import Schematron.Proofs.Tree.Placed

/-!
# What an edit does to the rules

The set of a set constraint and the range of a numeric constraint can be exchanged
for others as long as the tree is held. An edit keeps the variant of the kind and
touches no other node, so the tour of the tree and the paths stay as they are, and
the only voice that changes is the one that the parent of the node hears from it.

`edit_local` follows this into the rules. They are the same list with the same
assertion taken out in one `Spot`, which is filled with the assertion of the new
contents. A node that is a root, or that no root leads to, is heard nowhere.
-/

namespace Schematron

/-- New contents for a constraint that has a set or a range. -/
inductive Edit where
  | values (values : ValueSet)
  | range (range : NumericRange)
  deriving DecidableEq, Repr

namespace Edit

/-- Whether a kind has contents of this sort. -/
def fits : Edit → Kind → Bool
  | values _, k => k.values?.isSome
  | range _, k => k.range?.isSome

/-- The kind with the new contents; a kind that has none of this sort stays as it is. -/
def apply : Edit → Kind → Kind
  | values s, k => k.withValues s
  | range r, k => k.withRange r

theorem label_apply (e : Edit) (k : Kind) : (e.apply k).label = k.label := by
  cases e with
  | values s => exact k.label_withValues s
  | range r => exact k.label_withRange r

theorem apply_of_not_fits {e : Edit} {k : Kind} (unfit : e.fits k = false) : e.apply k = k := by
  cases e <;> cases k <;> first | rfl | cases unfit

/-- A constraint with contents speaks before and after its edit. -/
theorem speaks_of_fits {e : Edit} {k : Kind} (fits : e.fits k = true) (context : String) :
    (∃ a, Assertion.ofKind? context k = some a) ∧
      ∃ a, Assertion.ofKind? context (e.apply k) = some a := by
  cases e <;> cases k <;> first | exact ⟨⟨_, rfl⟩, _, rfl⟩ | cases fits

end Edit

namespace Kind

theorem values?_eq_some_iff {k : Kind} {s : ValueSet} :
    k.values? = some s ↔ k = .setInclusion s ∨ k = .setExclusion s := by
  cases k <;> simp [values?]

theorem range?_eq_some_iff {k : Kind} {r : NumericRange} :
    k.range? = some r ↔ k = .numericRange r := by
  cases k <;> simp [range?]

end Kind

namespace Tree

/-- The tree with the contents of a node exchanged. -/
def edit (t : Tree) (id : NodeId) : Edit → Except TreeError Tree
  | .values s => t.setValues id s
  | .range r => t.setRange id r

variable {t t' : Tree} {id other p q root : NodeId} {n m parent : Node} {context : String}
variable {change : Kind → Kind} {a a' : Assertion}

theorem edit_of_get? (found : t.get? id = some n) (e : Edit) :
    t.edit id e = .ok (t.withKind id e.apply) := by
  have inside := node_eq_ok_iff.mpr found
  cases e with
  | values s =>
      rw [edit, setValues, inside]
      rfl
  | range r =>
      rw [edit, setRange, inside]
      rfl

/-! ### Trees by their nodes -/

/-- A tree is its tag, its roots and the nodes that are found in it. -/
theorem eq_of_get? (tag : t.tag = t'.tag) (roots : t.roots = t'.roots)
    (nodes : ∀ id, t.get? id = t'.get? id) : t = t' := by
  obtain ⟨tag, cells, roots⟩ := t
  obtain ⟨tag', cells', roots'⟩ := t'
  cases tag
  cases roots
  have same : cells = cells' := by
    refine Array.ext_getElem? fun i => ?_
    simpa [get?] using nodes ⟨tag, i⟩
  rw [same]

/-- Nothing happens if the kind of a node is changed to what it is. -/
theorem withKind_of_eq (found : t.get? id = some n) (same : change n.kind = n.kind) :
    t.withKind id change = t := by
  refine eq_of_get? (tag_withKind id change) (roots_withKind id change) fun q => ?_
  rw [get?_withKind]
  split
  · next self => rw [self, found, Option.map_some, same]
  · rfl

/-- Changes of the kinds of two nodes can be made in either order. -/
theorem withKind_comm (differ : id ≠ other) (change change' : Kind → Kind) :
    (t.withKind id change).withKind other change' =
      (t.withKind other change').withKind id change := by
  refine eq_of_get? (by simp) (by simp) fun q => ?_
  simp only [get?_withKind]
  by_cases self : q = id
  · have beside : q ≠ other := self ▸ differ
    simp only [if_pos self, if_neg beside]
  · simp only [if_neg self]

/-- A node keeps its children. -/
theorem exists_get?_withKind (id : NodeId) (change : Kind → Kind) (found : t.get? q = some m) :
    ∃ m', (t.withKind id change).get? q = some m' ∧ m'.children = m.children := by
  rw [get?_withKind, found]
  split <;> exact ⟨_, rfl, rfl⟩

theorem kind_withKind_of_ne (other : q ≠ id) :
    ((t.withKind id change).get? q).map Node.kind = (t.get? q).map Node.kind := by
  rw [get?_withKind, if_neg other]

namespace Sound

/-! ### The tour and the paths -/

theorem visits_withKind (h : t.Sound) (id : NodeId) (change : Kind → Kind)
    (found : t.get? q = some m) : (t.withKind id change).visits q = t.visits q := by
  refine h.down_induction (motive := fun q => (t.withKind id change).visits q = t.visits q)
    ?_ q m found
  intro q m found ih
  obtain ⟨m', found', children⟩ := exists_get?_withKind id change found
  rw [(h.withKind id change).visits_eq found', h.visits_eq found, children]
  refine congrArg _ (List.flatMap_congr fun entry member => ?_)
  rw [ih entry.1 entry.2 (m.children.mem_entries_iff.mp member)]

theorem tour_withKind (h : t.Sound) (id : NodeId) (change : Kind → Kind) :
    (t.withKind id change).tour (t.withKind id change).roots = t.tour t.roots := by
  rw [tour, tour, roots_withKind]
  refine List.flatMap_congr fun root member => ?_
  obtain ⟨m, found, -⟩ := h.mem_roots_iff.mp member
  rw [h.visits_withKind id change found]

theorem path_withKind (h : t.Sound) (id : NodeId) (same : ∀ k, (change k).label = k.label)
    (q : NodeId) : (t.withKind id change).path q = t.path q := by
  cases found : t.get? q with
  | some m => exact (continues_withKind id same).path_eq h (h.withKind id change) found
  | none =>
      have absent : (t.withKind id change).get? q = none := by
        rw [get?_withKind, found]
        split <;> rfl
      rw [(rejects_of_get? found).path, (rejects_of_get? absent).path]

/-! ### Voices -/

/-- A node is among the children of its parent only, and only under its own context. -/
theorem eq_of_linked (h : t.Sound) (found : t.get? id = some n) (above : t.get? p = some parent)
    (linked : parent.children.get? context = some id) :
    n.parent = some p ∧ n.context = context := by
  obtain ⟨m, below, parent_eq, context_eq, -⟩ := h.child_later above linked
  rw [found] at below
  cases below
  exact ⟨parent_eq, context_eq⟩

end Sound

/-- A change of a node is not heard where the node is no child. -/
theorem voices_withKind_of_unlinked (above : t.get? q = some m)
    (unlinked : ∀ context, m.children.get? context ≠ some id) :
    (t.withKind id change).voices q = t.voices q := by
  obtain ⟨m', above', children⟩ := exists_get?_withKind id change above
  refine voices_congr above above' children fun context child linked =>
    kind_withKind_of_ne ?_
  rintro rfl
  exact unlinked context linked

/-- The entry of a child is the place where a change of its kind is heard. -/
theorem Sound.voices_withKind_linked (h : t.Sound) (found : t.get? id = some n)
    (above : t.get? p = some parent) (linked : parent.children.get? context = some id)
    (speaks : Assertion.ofKind? context n.kind = some a)
    (speaks' : Assertion.ofKind? context (change n.kind) = some a') : ∃ front back,
      t.voices p = front ++ (context, a) :: back ∧
      (t.withKind id change).voices p = front ++ (context, a') :: back := by
  obtain ⟨parent', above', children⟩ := exists_get?_withKind id change above
  have others (side : String → Bool) (beside : ∀ other, side other = true → other ≠ context) :
      (t.withKind id change).heardFrom (parent.children.entries.filter (side ·.1)) =
        t.heardFrom (parent.children.entries.filter (side ·.1)) := by
    refine heardFrom_congr fun entry member => kind_withKind_of_ne ?_
    obtain ⟨inside, on_side⟩ := List.mem_filter.mp member
    rintro rfl
    have linked' := parent.children.mem_entries_iff.mp inside
    exact beside entry.1 on_side
      ((h.eq_of_linked found above linked').2.symm.trans (h.eq_of_linked found above linked).2)
  have front := others (· < context) fun _ smaller => (of_decide_eq_true smaller).ne
  have back := others (context < ·) fun _ larger => (of_decide_eq_true larger).ne'
  have found' : (t.withKind id change).get? id = some { n with kind := change n.kind } := by
    rw [get?_withKind, if_pos rfl, found]
    rfl
  refine ⟨t.heardFrom (parent.children.entries.filter (·.1 < context)),
    t.heardFrom (parent.children.entries.filter (context < ·.1)), ?_, ?_⟩
  · rw [voices_around above linked found, speaks]
    simp
  · rw [voices_around above' (children ▸ linked) found', children, front, back, speaks']
    simp

/-! ### Rules -/

/-- The rule of a node that hears an assertion. -/
theorem ruleOf?_of_voices {front back : List (String × Assertion)} {path : String}
    (climbed : t.path p = .ok path) (heard : t.voices p = front ++ (context, a) :: back) :
    t.ruleOf? p = some ⟨path, front.map (·.2) ++ a :: back.map (·.2)⟩ := by
  rw [ruleOf?_eq_voices, climbed, heard]
  simp [Except.toOption]

/-- A place for an assertion in the rules of a tree. -/
structure Spot where
  /-- The place of the rule that the assertion belongs to, with its path, -/
  site : Site
  path : String
  /-- the assertions around it in that rule, with their contexts, -/
  front : List (String × Assertion)
  back : List (String × Assertion)
  /-- and the rules around that rule. -/
  before : List (Site × RuleRecord)
  behind : List (Site × RuleRecord)

namespace Spot

def voices (s : Spot) (context : String) (a : Assertion) : List (String × Assertion) :=
  s.front ++ (context, a) :: s.back

def fill (s : Spot) (a : Assertion) : List (Site × RuleRecord) :=
  s.before ++ (s.site, ⟨s.path, s.front.map (·.2) ++ a :: s.back.map (·.2)⟩) :: s.behind

end Spot

namespace Sound

theorem ruleOf?_withKind_of_unlinked (h : t.Sound) (same : ∀ k, (change k).label = k.label)
    (above : t.get? q = some m) (unlinked : ∀ context, m.children.get? context ≠ some id) :
    (t.withKind id change).ruleOf? q = t.ruleOf? q :=
  ruleOf?_congr (h.path_withKind id same q) (voices_withKind_of_unlinked above unlinked)

/-- The rules of a tree with a changed node are made at the same sites. -/
theorem placedRules_withKind (h : t.Sound) (id : NodeId) (change : Kind → Kind) :
    (t.withKind id change).placedRules = (t.tour t.roots).filterMap fun site =>
      ((t.withKind id change).ruleOf? site.node).map (site, ·) := by
  rw [placedRules, h.tour_withKind]

/-- Sites where the node is no child have the same rules before and after its change. -/
theorem filterMap_withKind (h : t.Sound) (same : ∀ k, (change k).label = k.label)
    {sites : List Site} (met : ∀ site ∈ sites, site ∈ t.tour t.roots)
    (unlinked : ∀ site ∈ sites, ∀ m, t.get? site.node = some m →
      ∀ context, m.children.get? context ≠ some id) :
    sites.filterMap (fun site => ((t.withKind id change).ruleOf? site.node).map (site, ·)) =
      sites.filterMap fun site => (t.ruleOf? site.node).map (site, ·) := by
  refine List.filterMap_congr fun site member => ?_
  obtain ⟨-, leads⟩ := (h.mem_tour_iff h.starts_roots).mp (met site member)
  obtain ⟨m, found⟩ := leads.target_found
  rw [h.ruleOf?_withKind_of_unlinked same found (unlinked site member m found)]

/-- A root and a node out of reach are heard nowhere. -/
theorem placedRules_withKind_of_unheard (h : t.Sound) (same : ∀ k, (change k).label = k.label)
    (found : t.get? id = some n) (unheard : id ∈ t.roots ∨ ¬ t.Rooted id) :
    (t.withKind id change).placedRules = t.placedRules := by
  rw [h.placedRules_withKind, placedRules]
  refine h.filterMap_withKind same (fun _ met => met) fun site met m above context linked => ?_
  obtain ⟨listed, leads⟩ := (h.mem_tour_iff h.starts_roots).mp met
  obtain ⟨below, -⟩ := h.eq_of_linked found above linked
  rcases unheard with root | detached
  · obtain ⟨n', found', orphan⟩ := h.mem_roots_iff.mp root
    rw [found] at found'
    cases found'
    rw [orphan] at below
    cases below
  · exact detached ⟨site.start, listed, site.way ++ [context],
      leads.trans (.down above linked (.here found))⟩

/-- A node below a root is heard in one spot, and its change shows there and nowhere else. -/
theorem exists_spot (h : t.Sound) (same : ∀ k, (change k).label = k.label)
    (found : t.get? id = some n) (speaks : Assertion.ofKind? n.context n.kind = some a)
    (speaks' : Assertion.ofKind? n.context (change n.kind) = some a') (listed : root ∈ t.roots)
    {way : List String} (descends : way ≠ []) (leads : t.Leads root way id) :
    ∃ spot : Spot, n.parent = some spot.site.node ∧ spot.site.start = root ∧
      way = spot.site.way ++ [n.context] ∧ t.path spot.site.node = .ok spot.path ∧
      t.voices spot.site.node = spot.voices n.context a ∧ t.placedRules = spot.fill a ∧
      (t.withKind id change).placedRules = spot.fill a' := by
  obtain ⟨level, -⟩ | ⟨before, context, p, parent, rfl, reached, above, linked⟩ :=
    leads.eq_or_last_step
  · exact absurd level descends
  obtain ⟨below, rfl⟩ := h.eq_of_linked found above linked
  obtain ⟨path, climbed⟩ := h.exists_path above
  obtain ⟨front, back, voices, voices'⟩ :=
    h.voices_withKind_linked found above linked speaks speaks'
  have rule := ruleOf?_of_voices climbed voices
  have rule' := ruleOf?_of_voices ((h.path_withKind id same p).trans climbed) voices'
  have met : ⟨root, before, p⟩ ∈ t.tour t.roots :=
    (h.mem_tour_iff h.starts_roots).mpr ⟨listed, reached⟩
  obtain ⟨ahead, later, tour⟩ := List.append_of_mem met
  -- The tour comes to the parent only once, so no other site has the node for a child.
  have once := h.tour_node_once h.starts_roots
  rw [tour, List.map_append, List.map_cons, List.nodup_middle, List.nodup_cons] at once
  have elsewhere : ∀ site ∈ ahead ++ later, ∀ m, t.get? site.node = some m →
      ∀ context, m.children.get? context ≠ some id := by
    intro site member m above' context linked'
    obtain ⟨below', -⟩ := h.eq_of_linked found above' linked'
    rw [below] at below'
    refine once.1 ?_
    rw [← List.map_append]
    exact List.mem_map.mpr ⟨site, member, (Option.some.inj below').symm⟩
  have inside : ∀ site ∈ ahead ++ later, site ∈ t.tour t.roots := by
    intro site member
    rw [tour]
    rcases List.mem_append.mp member with member | member <;> simp [member]
  have kept {sites : List Site} (part : ∀ site ∈ sites, site ∈ ahead ++ later) :=
    h.filterMap_withKind same (fun site member => inside site (part site member))
      fun site member => elsewhere site (part site member)
  refine ⟨⟨⟨root, before, p⟩, path, front, back,
    ahead.filterMap fun site => (t.ruleOf? site.node).map (site, ·),
    later.filterMap fun site => (t.ruleOf? site.node).map (site, ·)⟩,
    below, rfl, rfl, climbed, voices, ?_, ?_⟩
  · rw [placedRules, tour, List.filterMap_append, List.filterMap_cons, rule]
    rfl
  · rw [h.placedRules_withKind, tour, List.filterMap_append, List.filterMap_cons, rule',
      kept fun _ member => List.mem_append_left _ member,
      kept fun _ member => List.mem_append_right _ member]
    rfl

end Sound

/-- What becomes of a tree when the contents of a node are exchanged. -/
structure EditChange (t t' : Tree) (id : NodeId) (n : Node) (e : Edit) : Prop where
  /-- The node has what was written, if it has contents of the sort, and is of the same variant. -/
  own : t'.get? id = some { n with kind := e.apply n.kind }
  label : (e.apply n.kind).label = n.kind.label
  values : ∀ s, e = .values s → (e.apply n.kind).values? = n.kind.values?.map fun _ => s
  range : ∀ r, e = .range r → (e.apply n.kind).range? = n.kind.range?.map fun _ => r
  /-- Nothing at all happens to a node without contents of the sort. -/
  unfit : e.fits n.kind = false → t' = t
  others : ∀ q, q ≠ id → t'.get? q = t.get? q
  size : t'.size = t.size
  roots : t'.roots = t.roots
  path : ∀ q, t'.path q = t.path q
  unheard : id ∈ t.roots ∨ ¬ t.Rooted id → t'.rules = t.rules
  /-- A node below a root has one spot in the rules, which belongs to its parent and is found under
  its context, and there the new assertion takes the place of the old one. -/
  heard : e.fits n.kind = true → ∀ root ∈ t.roots, ∀ way, way ≠ [] → t.Leads root way id →
    ∃ (spot : Spot) (a a' : Assertion), Assertion.ofKind? n.context n.kind = some a ∧
      Assertion.ofKind? n.context (e.apply n.kind) = some a' ∧
      n.parent = some spot.site.node ∧ spot.site.start = root ∧
      way = spot.site.way ++ [n.context] ∧ t.path spot.site.node = .ok spot.path ∧
      t.voices spot.site.node = spot.voices n.context a ∧
      t.placedRules = spot.fill a ∧ t'.placedRules = spot.fill a'

theorem Sound.editChange (h : t.Sound) (found : t.get? id = some n) (e : Edit) :
    EditChange t (t.withKind id e.apply) id n e where
  own := by rw [get?_withKind, if_pos rfl, found, Option.map_some]
  label := e.label_apply n.kind
  values := by
    rintro s rfl
    exact n.kind.values?_withValues s
  range := by
    rintro r rfl
    exact n.kind.range?_withRange r
  unfit without := withKind_of_eq found (e.apply_of_not_fits without)
  others q other := by rw [get?_withKind, if_neg other]
  size := size_withKind id e.apply
  roots := roots_withKind id e.apply
  path := h.path_withKind id e.label_apply
  unheard silent := by
    rw [(h.withKind id e.apply).rules_eq_placedRules, h.rules_eq_placedRules,
      h.placedRules_withKind_of_unheard e.label_apply found silent]
  heard fits root listed way descends leads := by
    obtain ⟨⟨a, speaks⟩, a', speaks'⟩ := e.speaks_of_fits fits n.context
    obtain ⟨spot, here⟩ :=
      h.exists_spot e.label_apply found speaks speaks' listed descends leads
    exact ⟨spot, a, a', speaks, speaks', here⟩

/-- The contents of a node are at hand exactly if it is a constraint of their sort, an edit changes
what `EditChange` says, and the edits of two nodes can be made in either order. -/
theorem edit_local (h : t.Reachable) (found : t.get? id = some n) :
    (∃ contents, t.values? id = .ok contents ∧
      ∀ s, contents = some s ↔ n.kind = .setInclusion s ∨ n.kind = .setExclusion s) ∧
    (∃ contents, t.range? id = .ok contents ∧
      ∀ r, contents = some r ↔ n.kind = .numericRange r) ∧
    t.rules = .ok (t.placedRules.map (·.2)) ∧
    (∀ e, ∃ t', t.edit id e = .ok t' ∧ t'.rules = .ok (t'.placedRules.map (·.2)) ∧
      EditChange t t' id n e) ∧
    ∀ other m, t.get? other = some m → id ≠ other → ∀ e e', ∃ t₁ t₂ both,
      t.edit id e = .ok t₁ ∧ t₁.edit other e' = .ok both ∧
      t.edit other e' = .ok t₂ ∧ t₂.edit id e = .ok both := by
  have sound := h.sound
  have inside := node_eq_ok_iff.mpr found
  refine ⟨⟨n.kind.values?, by rw [values?, inside]; rfl, fun s => Kind.values?_eq_some_iff⟩,
    ⟨n.kind.range?, by rw [range?, inside]; rfl, fun r => Kind.range?_eq_some_iff⟩,
    sound.rules_eq_placedRules, fun e => ?_, fun other m found' differ e e' => ?_⟩
  · exact ⟨_, edit_of_get? found e, (sound.withKind id e.apply).rules_eq_placedRules,
      sound.editChange found e⟩
  · have after : (t.withKind id e.apply).get? other = some m := by
      rw [get?_withKind, if_neg differ.symm, found']
    have after' : (t.withKind other e'.apply).get? id = some n := by
      rw [get?_withKind, if_neg differ, found]
    refine ⟨_, _, _, edit_of_get? found e, edit_of_get? after e', edit_of_get? found' e', ?_⟩
    rw [edit_of_get? after' e, withKind_comm differ]

/-- A history of a set and a range below a root that has a set itself, next to a set that was
replaced. -/
def adjusting : List Forest.Action :=
  [.plant, .act 0 (.addRoot "/r" (.setInclusion ⟨["x"]⟩)),
    .act 0 (.addChild ⟨0, 0⟩ "a" (.numericRange .unbounded)),
    .act 0 (.addChild ⟨0, 0⟩ "b" (.setExclusion ⟨["y"]⟩)),
    .act 0 (.addChild ⟨0, 0⟩ "b" (.setExclusion ⟨[]⟩))]

def adjustable : Tree := (Forest.run adjusting).trees[0]?.getD (.empty 0)

/-- The range is heard when odd numbers are asked for, the set next to it when it gets a value, and
the two can be edited in either order. -/
theorem edit_local_odd :
    adjustable.Reachable ∧
    (∃ (t' : Tree) (spot : Spot) (a a' : Assertion),
      adjustable.edit ⟨0, 1⟩ (.range { NumericRange.unbounded with odd := true }) = .ok t' ∧
      spot.site.node = ⟨0, 0⟩ ∧ a ≠ a' ∧
      adjustable.placedRules = spot.fill a ∧ t'.placedRules = spot.fill a') ∧
    (∃ (t' : Tree) (spot : Spot) (a a' : Assertion),
      adjustable.edit ⟨0, 3⟩ (.values ⟨["z"]⟩) = .ok t' ∧
      t'.get? ⟨0, 3⟩ = some ⟨"b", .setExclusion ⟨["z"]⟩, some ⟨0, 0⟩, .empty⟩ ∧
      adjustable.placedRules = spot.fill a ∧ t'.placedRules = spot.fill a' ∧
      a.test = "not(contains('', concat('_', b, '_')))" ∧
      a'.test = "not(contains('_z_', concat('_', b, '_')))") ∧
    ∃ t₁ t₂ both,
      adjustable.edit ⟨0, 1⟩ (.range { NumericRange.unbounded with even := true }) = .ok t₁ ∧
      t₁.edit ⟨0, 3⟩ (.values ⟨["z"]⟩) = .ok both ∧
      adjustable.edit ⟨0, 3⟩ (.values ⟨["z"]⟩) = .ok t₂ ∧
      t₂.edit ⟨0, 1⟩ (.range { NumericRange.unbounded with even := true }) = .ok both := by
  have reachable : adjustable.Reachable := ⟨adjusting, by decide +kernel⟩
  have root : adjustable.get? ⟨0, 0⟩ = some ⟨"/r", .setInclusion ⟨["x"]⟩, none,
      (Children.empty.insert "a" ⟨0, 1⟩).insert "b" ⟨0, 3⟩⟩ := by
    decide +kernel
  have range : adjustable.get? ⟨0, 1⟩ =
      some ⟨"a", .numericRange .unbounded, some ⟨0, 0⟩, .empty⟩ := by
    decide +kernel
  have set : adjustable.get? ⟨0, 3⟩ = some ⟨"b", .setExclusion ⟨[]⟩, some ⟨0, 0⟩, .empty⟩ := by
    decide +kernel
  have listed : (⟨0, 0⟩ : NodeId) ∈ adjustable.roots := by decide +kernel
  have to_range : adjustable.Leads ⟨0, 0⟩ ["a"] ⟨0, 1⟩ := .down root (by decide) (.here range)
  have to_set : adjustable.Leads ⟨0, 0⟩ ["b"] ⟨0, 3⟩ := .down root (by decide) (.here set)
  obtain ⟨-, -, -, change, commute⟩ := edit_local reachable range
  obtain ⟨-, -, -, change_set, -⟩ := edit_local reachable set
  refine ⟨reachable, ?_, ?_, commute ⟨0, 3⟩ _ set (by decide) _ _⟩
  · obtain ⟨t', edited, -, exchanged⟩ :=
      change (.range { NumericRange.unbounded with odd := true })
    obtain ⟨spot, a, a', speaks, speaks', parent, -, -, -, -, placed, placed'⟩ :=
      exchanged.heard rfl ⟨0, 0⟩ listed ["a"] (by decide) to_range
    refine ⟨t', spot, a, a', edited, (Option.some.inj parent).symm, ?_, placed, placed'⟩
    rintro rfl
    exact absurd (speaks.trans speaks'.symm) (by decide +kernel)
  · obtain ⟨t', edited, -, exchanged⟩ := change_set (.values ⟨["z"]⟩)
    obtain ⟨spot, a, a', speaks, speaks', -, -, -, -, -, placed, placed'⟩ :=
      exchanged.heard rfl ⟨0, 0⟩ listed ["b"] (by decide) to_set
    cases speaks
    cases speaks'
    exact ⟨t', spot, _, _, edited, exchanged.own, placed, placed', by decide +kernel,
      by decide +kernel⟩

end Tree

end Schematron
