import Mathlib.Data.List.Forall2
import Schematron.Proofs.Tree.History
import Schematron.Proofs.Tree.Rules

/-!
# The rules of a tree as a listing

The rules of a tree are described without walking through it. A site is a node
together with the way that leads to it from one of several starting nodes, and
sites are ordered by their starting nodes and their ways. `Listing` says which
sites have a rule, that each has one, and in which order the rules come.

`rules_listed` is the main statement: for every tree that a history leads to, the
rules are computed and form the listing from its roots, and the rules from any
node form the listing from that node. Every node below a root that is no scope is
asserted once, while a node that was replaced is left out with all that is below
it.
-/

namespace Schematron

namespace Tree

/-- A node as it is reached from a starting node. -/
structure Site where
  start : NodeId
  /-- The contexts of the nodes below the starting node down to this one. -/
  way : List String
  node : NodeId
  deriving DecidableEq, Repr

namespace Site

/-- The order of sites: by the declaration of the starting nodes, then by the ways, a way before
those that continue it. -/
def Before (a b : Site) : Prop :=
  a.start.index < b.start.index ∨ a.start = b.start ∧ a.way < b.way

end Site

/-- A child asserts something in the rule of its parent. -/
def Asserts (t : Tree) (entry : String × NodeId) (a : Assertion) : Prop :=
  ∃ m, t.get? entry.2 = some m ∧ Assertion.ofKind? entry.1 m.kind = some a

/-- A rule belongs to a site: it has the path of the node, and one assertion for each child that
asserts something, in the order of the children. -/
def Records (t : Tree) (site : Site) (record : RuleRecord) : Prop :=
  t.path site.node = .ok record.path ∧
    List.Forall₂ t.Asserts (t.asserted site.node) record.assertions

/-- Everything that the rules from some starting nodes assert, in their order. -/
def assertedAt (t : Tree) (sites : List Site) : List NodeId :=
  sites.flatMap fun site => (t.asserted site.node).map (·.2)

/-- The rules from some starting nodes, with the sites they belong to. -/
structure Listing (t : Tree) (starts : List NodeId) (sites : List Site)
    (records : List RuleRecord) : Prop where
  /-- The sites are the nodes below the starting nodes with a child that is no scope. -/
  mem_iff : ∀ {site}, site ∈ sites ↔ site.start ∈ starts ∧
    t.Leads site.start site.way site.node ∧
    ∃ n context child m, t.get? site.node = some n ∧ n.children.get? context = some child ∧
      t.get? child = some m ∧ m.kind ≠ .scope
  ordered : sites.Pairwise Site.Before
  node_once : (sites.map Site.node).Nodup
  recorded : List.Forall₂ t.Records sites records
  /-- The asserted children of a site are all of its children that are no scopes, -/
  mem_asserted_iff : ∀ {site}, site ∈ sites → ∀ {context child},
    (context, child) ∈ t.asserted site.node ↔
      ∃ n m, t.get? site.node = some n ∧ n.children.get? context = some child ∧
        t.get? child = some m ∧ m.kind ≠ .scope
  /-- in strictly ascending order of their contexts. -/
  asserted_ascending : ∀ {site}, site ∈ sites →
    (t.asserted site.node).Pairwise fun a b => a.1 < b.1
  /-- Over all rules, every node below a starting node that is no scope is asserted, once. -/
  mem_assertedAt_iff : ∀ {child}, child ∈ t.assertedAt sites ↔
    ∃ start ∈ starts, ∃ way m, way ≠ [] ∧ t.Leads start way child ∧
      t.get? child = some m ∧ m.kind ≠ .scope
  asserted_once : (t.assertedAt sites).Nodup

/-- Another child has taken the place that a node had under its parent. -/
def Displaced (t : Tree) (id : NodeId) : Prop :=
  ∃ n p m, t.get? id = some n ∧ n.parent = some p ∧ t.get? p = some m ∧
    m.children.get? n.context ≠ some id

/-- Every node below some starting nodes, in the order of the sites. -/
def tour (t : Tree) (starts : List NodeId) : List Site :=
  starts.flatMap fun start => (t.visits start).map fun visit => ⟨start, visit.1, visit.2⟩

/-- Starting nodes in the order of their declaration, none of them below another. -/
structure Starts (t : Tree) (starts : List NodeId) : Prop where
  found : ∀ {start}, start ∈ starts → ∃ n, t.get? start = some n
  ascending : starts.Pairwise fun a b => a.index < b.index
  apart : ∀ {a b way}, a ∈ starts → b ∈ starts → t.Leads a way b → a = b

variable {t : Tree} {starts : List NodeId} {id : NodeId} {n : Node}

namespace Sound

/-- Nothing is above a root. -/
theorem eq_of_leads_root (h : t.Sound) {way : List String} {root : NodeId}
    (below : t.Leads id way root) (member : root ∈ t.roots) : id = root := by
  rcases below.eq_or_last_step with ⟨-, same⟩ | ⟨before, context, p, m, -, -, found, linked⟩
  · exact same.symm
  · obtain ⟨o, mem, parent, -⟩ := h.child_later found linked
    obtain ⟨o', mem', none_above⟩ := h.mem_roots_iff.mp member
    rw [mem] at mem'
    cases mem'
    rw [none_above] at parent
    cases parent

theorem starts_roots (h : t.Sound) : t.Starts t.roots where
  found member := by
    obtain ⟨n, found, -⟩ := h.mem_roots_iff.mp member
    exact ⟨n, found⟩
  ascending := h.roots_ascending
  apart _ root below := h.eq_of_leads_root below root

theorem starts_singleton (found : t.get? id = some n) : t.Starts [id] where
  found member := ⟨n, List.mem_singleton.mp member ▸ found⟩
  ascending := List.pairwise_singleton _ _
  apart ha hb _ := (List.mem_singleton.mp ha).trans (List.mem_singleton.mp hb).symm

/-- A tour meets exactly the nodes below its starting nodes. -/
theorem mem_tour_iff (h : t.Sound) (hs : t.Starts starts) {site : Site} :
    site ∈ t.tour starts ↔ site.start ∈ starts ∧ t.Leads site.start site.way site.node := by
  rw [tour, List.mem_flatMap]
  constructor
  · rintro ⟨start, member, visited⟩
    obtain ⟨n, found⟩ := hs.found member
    obtain ⟨visit, met, rfl⟩ := List.mem_map.mp visited
    exact ⟨member, (h.mem_visits_iff found).mp met⟩
  · rintro ⟨member, below⟩
    obtain ⟨n, found⟩ := hs.found member
    refine ⟨site.start, member, List.mem_map.mpr ⟨(site.way, site.node), ?_, rfl⟩⟩
    exact (h.mem_visits_iff found).mpr below

/-- A tour is in the order of the sites. -/
theorem tour_ordered (h : t.Sound) (hs : t.Starts starts) :
    (t.tour starts).Pairwise Site.Before := by
  rw [tour, List.pairwise_flatMap]
  constructor
  · intro start member
    obtain ⟨n, found⟩ := hs.found member
    rw [List.pairwise_map]
    exact (h.visits_ascending found).imp fun lt => .inr ⟨rfl, lt⟩
  · refine hs.ascending.imp ?_
    intro a b lt x hx y hy
    obtain ⟨visit, -, rfl⟩ := List.mem_map.mp hx
    obtain ⟨visit', -, rfl⟩ := List.mem_map.mp hy
    exact .inl lt

/-- A node is met from one starting node only, and by one way. -/
theorem site_unique (h : t.Sound) (hs : t.Starts starts) {a b : Site}
    (ha : a ∈ t.tour starts) (hb : b ∈ t.tour starts) (same : a.node = b.node) : a = b := by
  obtain ⟨start, below⟩ := (h.mem_tour_iff hs).mp ha
  obtain ⟨start', below'⟩ := (h.mem_tour_iff hs).mp hb
  rw [← same] at below'
  have starts_eq : a.start = b.start := by
    rcases below.comparable h below' with ⟨between, link, -⟩ | ⟨between, link, -⟩
    · exact hs.apart start start' link
    · exact (hs.apart start' start link).symm
  cases a
  cases b
  cases same
  cases starts_eq
  cases below.way_unique h below'
  rfl

/-- No node is met twice on a tour. -/
theorem tour_node_once (h : t.Sound) (hs : t.Starts starts) :
    ((t.tour starts).map Site.node).Nodup := by
  rw [List.Nodup, List.pairwise_map]
  refine (h.tour_ordered hs).imp_of_mem ?_
  intro a b ha hb before same
  cases h.site_unique hs ha hb same
  rcases before with lt | ⟨-, lt⟩
  · exact Nat.lt_irrefl _ lt
  · exact List.lt_irrefl _ lt

/-- The sites of a tour at which something is asserted. -/
theorem mem_filter_tour_iff (h : t.Sound) (hs : t.Starts starts) {site : Site} :
    site ∈ (t.tour starts).filter (t.asserted ·.node ≠ []) ↔
      site.start ∈ starts ∧ t.Leads site.start site.way site.node ∧
        ∃ n context child m, t.get? site.node = some n ∧
          n.children.get? context = some child ∧ t.get? child = some m ∧ m.kind ≠ .scope := by
  rw [List.mem_filter, h.mem_tour_iff hs, decide_eq_true_iff, and_assoc]
  refine and_congr_right fun _ => and_congr_right fun _ => ?_
  constructor
  · intro speaks
    obtain ⟨⟨context, child⟩, member⟩ := List.exists_mem_of_ne_nil _ speaks
    obtain ⟨n, m, found, linked, below, kind⟩ := mem_asserted_iff.mp member
    exact ⟨n, context, child, m, found, linked, below, kind⟩
  · rintro ⟨n, context, child, m, found, linked, below, kind⟩
    exact List.ne_nil_of_mem (mem_asserted_iff.mpr ⟨n, m, found, linked, below, kind⟩)

/-- The rule of a node belongs to each site of the node. -/
theorem records_of_ruleOf? (h : t.Sound) {site : Site} (found : t.get? site.node = some n)
    (speaks : t.asserted site.node ≠ []) :
    ∃ record, t.ruleOf? site.node = some record ∧ t.Records site record := by
  obtain ⟨path, climbed⟩ := h.exists_path found
  refine ⟨⟨path, (t.asserted site.node).filterMap t.assertionOf?⟩, ?_, climbed, ?_⟩
  · rw [ruleOf?, if_neg speaks, climbed]
    rfl
  · have each {entries : List (String × NodeId)} (inside : entries ⊆ t.asserted site.node) :
        List.Forall₂ t.Asserts entries (entries.filterMap t.assertionOf?) := by
      induction entries with
      | nil => exact .nil
      | cons entry rest ih =>
          have member := inside (.head rest)
          obtain ⟨a, asserts⟩ := exists_assertion member
          rw [List.filterMap_cons_some asserts]
          refine .cons ?_ (ih fun other later => inside (.tail entry later))
          obtain ⟨m, below, kind⟩ := Option.bind_eq_some_iff.mp asserts
          exact ⟨m, below, kind⟩
    exact each fun _ member => member

/-- The rules along a tour belong to the sites at which something is asserted. -/
theorem recorded_tour (h : t.Sound) (hs : t.Starts starts) :
    List.Forall₂ t.Records ((t.tour starts).filter (t.asserted ·.node ≠ []))
      ((t.tour starts).filterMap (t.ruleOf? ·.node)) := by
  have each {sites : List Site} (inside : sites ⊆ t.tour starts) :
      List.Forall₂ t.Records (sites.filter (t.asserted ·.node ≠ []))
        (sites.filterMap (t.ruleOf? ·.node)) := by
    induction sites with
    | nil => exact .nil
    | cons site rest ih =>
        have tail := ih fun other later => inside (.tail site later)
        obtain ⟨-, below⟩ := (h.mem_tour_iff hs).mp (inside (.head rest))
        obtain ⟨n, found⟩ := below.target_found
        by_cases silent : t.asserted site.node = []
        · have none_here : t.ruleOf? site.node = none := if_pos silent
          rw [List.filter_cons_of_neg (by simpa using silent)]
          simpa only [List.filterMap_cons, none_here] using tail
        · obtain ⟨record, rule, belongs⟩ := h.records_of_ruleOf? found silent
          rw [List.filter_cons_of_pos (by simpa using silent)]
          simpa only [List.filterMap_cons, rule] using List.Forall₂.cons belongs tail
  exact each fun _ member => member

/-- Over a tour every node that is no scope is asserted below its parent. -/
theorem mem_assertedAt_tour_iff (h : t.Sound) (hs : t.Starts starts) {child : NodeId} :
    child ∈ t.assertedAt ((t.tour starts).filter (t.asserted ·.node ≠ [])) ↔
      ∃ start ∈ starts, ∃ way m, way ≠ [] ∧ t.Leads start way child ∧
        t.get? child = some m ∧ m.kind ≠ .scope := by
  rw [assertedAt, List.mem_flatMap]
  constructor
  · rintro ⟨site, met, member⟩
    obtain ⟨start, leads, -⟩ := (h.mem_filter_tour_iff hs).mp met
    obtain ⟨⟨context, child⟩, inside, rfl⟩ := List.mem_map.mp member
    obtain ⟨n, m, found, linked, below, kind⟩ := mem_asserted_iff.mp inside
    refine ⟨site.start, start, site.way ++ [context], m, by simp, ?_, below, kind⟩
    exact leads.trans (.down found linked (.here below))
  · rintro ⟨start, member, way, m, moved, leads, below, kind⟩
    rcases leads.eq_or_last_step with
      ⟨rfl, -⟩ | ⟨before, context, p, n, rfl, above, found, linked⟩
    · exact absurd rfl moved
    · refine ⟨⟨start, before, p⟩, (h.mem_filter_tour_iff hs).mpr ?_, ?_⟩
      · exact ⟨member, above, n, context, child, m, found, linked, below, kind⟩
      · refine List.mem_map.mpr ⟨(context, child), mem_asserted_iff.mpr ?_, rfl⟩
        exact ⟨n, m, found, linked, below, kind⟩

/-- Over sites of different nodes no node is asserted twice. -/
theorem assertedAt_nodup (h : t.Sound) {sites : List Site}
    (node_once : (sites.map Site.node).Nodup) : (t.assertedAt sites).Nodup := by
  -- The parent and the context of a child tell where it is asserted.
  have origin {id child : NodeId} {context : String} (member : (context, child) ∈ t.asserted id) :
      ∃ m, t.get? child = some m ∧ m.parent = some id ∧ m.context = context := by
    obtain ⟨n, -, found, linked, -⟩ := mem_asserted_iff.mp member
    obtain ⟨m, below, parent, named, -⟩ := h.child_later found linked
    exact ⟨m, below, parent, named⟩
  rw [List.Nodup, List.pairwise_map] at node_once
  rw [assertedAt, List.Nodup, List.pairwise_flatMap]
  constructor
  · intro site _
    rw [List.pairwise_map]
    refine (t.asserted_ascending site.node).imp_of_mem ?_
    rintro ⟨context, child⟩ ⟨context', child'⟩ ha hb lt same
    cases same
    obtain ⟨m, below, -, rfl⟩ := origin ha
    obtain ⟨m', below', -, rfl⟩ := origin hb
    rw [below] at below'
    cases below'
    exact String.lt_irrefl _ lt
  · refine node_once.imp ?_
    intro a b differ x hx y hy same
    obtain ⟨⟨context, child⟩, ha, rfl⟩ := List.mem_map.mp hx
    obtain ⟨⟨context', child'⟩, hb, rfl⟩ := List.mem_map.mp hy
    cases same
    obtain ⟨m, below, parent, -⟩ := origin ha
    obtain ⟨m', below', parent', -⟩ := origin hb
    rw [below] at below'
    cases below'
    rw [parent] at parent'
    exact differ (Option.some.inj parent')

/-- The rules along a tour are a listing. -/
theorem listing_tour (h : t.Sound) (hs : t.Starts starts) :
    t.Listing starts ((t.tour starts).filter (t.asserted ·.node ≠ []))
      ((t.tour starts).filterMap (t.ruleOf? ·.node)) where
  mem_iff := h.mem_filter_tour_iff hs
  ordered := (h.tour_ordered hs).sublist List.filter_sublist
  node_once := (h.tour_node_once hs).sublist (List.filter_sublist.map Site.node)
  recorded := h.recorded_tour hs
  mem_asserted_iff _ := mem_asserted_iff
  asserted_ascending _ := t.asserted_ascending _
  mem_assertedAt_iff := h.mem_assertedAt_tour_iff hs
  asserted_once := h.assertedAt_nodup
    ((h.tour_node_once hs).sublist (List.filter_sublist.map Site.node))

theorem rulesFrom_eq_tour (h : t.Sound) (found : t.get? id = some n) :
    t.rulesFrom id = .ok ((t.tour [id]).filterMap (t.ruleOf? ·.node)) := by
  rw [h.rulesFrom_eq found, visitedRules]
  simp [tour, List.filterMap_map]

theorem rules_eq_tour (h : t.Sound) :
    t.rules = .ok ((t.tour t.roots).filterMap (t.ruleOf? ·.node)) := by
  rw [h.rules_eq, tour, List.filterMap_flatMap]
  simp only [List.filterMap_map]
  rfl

/-- Nothing at or below a displaced node is below a root. -/
theorem not_leads_of_displaced (h : t.Sound) (displaced : t.Displaced id) {root last : NodeId}
    {way way' : List String} (member : root ∈ t.roots) (below : t.Leads id way last) :
    ¬ t.Leads root way' last := by
  intro reached
  obtain ⟨n, p, m, found, parent, above, replaced⟩ := displaced
  -- A root above the node reaches it by its parent's children, which name another node.
  have beside {between : List String} (link : t.Leads root between id) : False := by
    rcases link.eq_or_last_step with ⟨-, rfl⟩ | ⟨before, context, q, o, -, -, mem, linked⟩
    · obtain ⟨n', found', none_above⟩ := h.mem_roots_iff.mp member
      rw [found] at found'
      cases found'
      rw [none_above] at parent
      cases parent
    · obtain ⟨n', found', parent', named, -⟩ := h.child_later mem linked
      rw [found] at found'
      cases found'
      rw [parent] at parent'
      cases parent'
      rw [above] at mem
      cases mem
      exact replaced (named ▸ linked)
  rcases reached.comparable h below with ⟨between, link, -⟩ | ⟨between, link, -⟩
  · exact beside link
  · cases h.eq_of_leads_root link member
    exact beside link

end Sound

/-- The rules of a tree are its listing: from all roots together and from every node. Nothing
that was displaced has a rule or is asserted in the rules of the tree. -/
theorem rules_listed (h : t.Reachable) :
    (∃ sites records, t.rules = .ok records ∧ t.Listing t.roots sites records ∧
      ∀ id way last, t.Displaced id → t.Leads id way last →
        last ∉ sites.map Site.node ∧ last ∉ t.assertedAt sites) ∧
    ∀ id n, t.get? id = some n →
      ∃ sites records, t.rulesFrom id = .ok records ∧ t.Listing [id] sites records := by
  have sound := h.sound
  have listing := sound.listing_tour sound.starts_roots
  refine ⟨⟨_, _, sound.rules_eq_tour, listing, ?_⟩, ?_⟩
  · intro id way last displaced below
    constructor
    · intro met
      obtain ⟨site, member, rfl⟩ := List.mem_map.mp met
      obtain ⟨start, reached, -⟩ := listing.mem_iff.mp member
      exact sound.not_leads_of_displaced displaced start below reached
    · intro member
      obtain ⟨start, root, way, m, -, reached, -⟩ := listing.mem_assertedAt_iff.mp member
      exact sound.not_leads_of_displaced displaced root below reached
  · intro id n found
    exact ⟨_, _, sound.rulesFrom_eq_tour found,
      sound.listing_tour (Sound.starts_singleton found)⟩

/-- A history in which a child with a child of its own is replaced. -/
def replacing : List Forest.Action :=
  [.plant, .act 0 (.addScope "/"), .act 0 (.addChild ⟨0, 0⟩ "b" .requiredPresence),
    .act 0 (.addChild ⟨0, 1⟩ "x" .optionalPresence), .act 0 (.addChild ⟨0, 0⟩ "a" .scope),
    .act 0 (.addChild ⟨0, 3⟩ "y" .forbiddenPresence), .copy 0,
    .act 0 (.addChild ⟨0, 0⟩ "b" .optionalPresence), .act 1 (.addChild ⟨0, 7⟩ "b" .scope)]

def replaced : Tree := (Forest.run replacing).trees[0]?.getD (.empty 0)

/-- The replaced child keeps its rule for itself, but the tree has no rule for it. -/
theorem rules_listed_replaced :
    replaced.Reachable ∧ replaced.Displaced ⟨0, 1⟩ ∧
    (∃ sites records, replaced.rules = .ok records ∧
      replaced.Listing replaced.roots sites records ∧
      ⟨0, 1⟩ ∉ sites.map Site.node ∧ ⟨0, 1⟩ ∉ replaced.assertedAt sites) ∧
    ∃ sites records, replaced.rulesFrom ⟨0, 1⟩ = .ok records ∧
      replaced.Listing [⟨0, 1⟩] sites records := by
  have reachable : replaced.Reachable := ⟨replacing, by decide +kernel⟩
  have found : replaced.get? ⟨0, 1⟩ =
      some ⟨"b", .requiredPresence, some ⟨0, 0⟩, Children.empty.insert "x" ⟨0, 2⟩⟩ := by
    decide +kernel
  have above : replaced.get? ⟨0, 0⟩ =
      some ⟨"/", .scope, none, (Children.empty.insert "a" ⟨0, 3⟩).insert "b" ⟨0, 5⟩⟩ := by
    decide +kernel
  have displaced : replaced.Displaced ⟨0, 1⟩ :=
    ⟨_, _, _, found, rfl, above, by decide +kernel⟩
  obtain ⟨⟨sites, records, rules, listing, absent⟩, from_node⟩ := rules_listed reachable
  refine ⟨reachable, displaced, ⟨sites, records, rules, listing, ?_⟩, from_node _ _ found⟩
  exact absent ⟨0, 1⟩ [] ⟨0, 1⟩ displaced (.here found)

end Tree

end Schematron
