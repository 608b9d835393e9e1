import Schematron.Proofs.Tree.Identity
import Schematron.Proofs.Tree.Placed

/-!
# What a new child does to the rules

A child that is declared under a context cuts off the child that had the context
before, with all that is below it, and it has no children of its own yet. The tour
of the tree therefore loses the nodes that were cut off and gains one node without
a rule, and of the nodes that stay only the parent hears other voices.

`addChild_changes_rules` says what this comes to for the rules of a tree: those of
the nodes that were cut off go, the rule of the parent is made anew, and all others
stay as they are and where they are. Below a node that is out of reach of the roots
nothing can be declared that would show at all.
-/

namespace Schematron

namespace Tree

/-- The nodes that a new child of this context cuts off from its parent. -/
def cutOff (t : Tree) (p : NodeId) (context : String) : List NodeId :=
  match (t.get? p).bind (·.children.get? context) with
  | none => []
  | some child => (t.visits child).map (·.2)

variable {t : Tree} {p id q child : NodeId} {parent n : Node} {context : String} {kind : Kind}

/-! ### The nodes that are cut off -/

namespace Sound

theorem mem_cutOff_iff (h : t.Sound) (above : t.get? p = some parent) :
    q ∈ t.cutOff p context ↔
      ∃ child way, parent.children.get? context = some child ∧ t.Leads child way q := by
  rw [cutOff, above, Option.bind_some]
  cases linked : parent.children.get? context with
  | none => simp
  | some child =>
      obtain ⟨m, below, -⟩ := h.child_later above linked
      constructor
      · intro member
        obtain ⟨⟨way, last⟩, visited, rfl⟩ := List.mem_map.mp member
        exact ⟨child, way, rfl, (h.mem_visits_iff below).mp visited⟩
      · rintro ⟨child', way, same, leads⟩
        cases same
        exact List.mem_map.mpr ⟨(way, q), (h.mem_visits_iff below).mpr leads, rfl⟩

/-- What is cut off from a node was declared after it. -/
theorem later_of_mem_cutOff (h : t.Sound) (above : t.get? p = some parent)
    (member : q ∈ t.cutOff p context) : p.index < q.index := by
  obtain ⟨child, way, linked, leads⟩ := (h.mem_cutOff_iff above).mp member
  obtain ⟨m, -, -, -, later⟩ := h.child_later above linked
  have below := leads.index_le h
  omega

/-- The children of a node that stays are not cut off, apart from the one whose place is taken. -/
theorem child_not_mem_cutOff (h : t.Sound) (above : t.get? p = some parent)
    (found : t.get? id = some n) (stays : id ∉ t.cutOff p context) {other : String}
    (linked : n.children.get? other = some child) (elsewhere : ¬ (id = p ∧ other = context)) :
    child ∉ t.cutOff p context := by
  intro member
  obtain ⟨cut, way, taken, leads⟩ := (h.mem_cutOff_iff above).mp member
  obtain ⟨m, below, parent_id, named, -⟩ := h.child_later found linked
  rcases leads.eq_or_last_step with ⟨-, rfl⟩ | ⟨before, last, r, o, -, leads, mem, linked'⟩
  · obtain ⟨m', below', parent_p, named', -⟩ := h.child_later above taken
    rw [below] at below'
    cases below'
    rw [parent_id] at parent_p
    exact elsewhere ⟨Option.some.inj parent_p, named.symm.trans named'⟩
  · obtain ⟨m', below', parent_r, -, -⟩ := h.child_later mem linked'
    rw [below] at below'
    cases below'
    rw [parent_id] at parent_r
    cases parent_r
    exact stays ((h.mem_cutOff_iff above).mpr ⟨cut, before, taken, leads⟩)

theorem root_not_mem_cutOff (h : t.Sound) (above : t.get? p = some parent) {root : NodeId}
    (member : root ∈ t.roots) : root ∉ t.cutOff p context := by
  intro cut
  obtain ⟨child, way, linked, leads⟩ := (h.mem_cutOff_iff above).mp cut
  obtain ⟨m, below, parent_p, -, -⟩ := h.child_later above linked
  obtain ⟨m', below', none_above⟩ := h.mem_roots_iff.mp member
  rw [← h.eq_of_leads_root leads member, below] at below'
  cases below'
  rw [none_above] at parent_p
  cases parent_p

/-- Nothing that is cut off below a node out of reach was within reach. -/
theorem rooted_of_mem_cutOff (h : t.Sound) (above : t.get? p = some parent)
    (member : q ∈ t.cutOff p context) (rooted : t.Rooted q) : t.Rooted p := by
  obtain ⟨root, listed, way, reached⟩ := rooted
  obtain ⟨child, below, linked, leads⟩ := (h.mem_cutOff_iff above).mp member
  have down : t.Leads p (context :: below) q := .down above linked leads
  -- The node is reached from the root and from the parent, so one of these is above the other.
  rcases reached.comparable h down with ⟨between, link, -⟩ | ⟨between, link, -⟩
  · exact ⟨root, listed, between, link⟩
  · exact ⟨root, listed, [], by
      obtain ⟨n, found⟩ := link.target_found
      rw [h.eq_of_leads_root link listed]
      exact .here found⟩

end Sound

/-! ### The tour -/

/-- Everything at or below some children of a node, with the ways from that node. -/
def visitsBelow (t : Tree) (entries : List (String × NodeId)) : List (List String × NodeId) :=
  entries.flatMap fun entry => (t.visits entry.2).map fun visit => (entry.1 :: visit.1, visit.2)

theorem visitsBelow_append (t : Tree) (front back : List (String × NodeId)) :
    t.visitsBelow (front ++ back) = t.visitsBelow front ++ t.visitsBelow back :=
  List.flatMap_append

/-- Two walks below the same children agree in what is kept of them if they do so child by child. -/
theorem filter_visitsBelow_congr {t t' : Tree} (keep keep' : NodeId → Bool)
    {entries : List (String × NodeId)}
    (each : ∀ entry ∈ entries,
      (t'.visits entry.2).filter (keep' ·.2) = (t.visits entry.2).filter (keep ·.2)) :
    (t'.visitsBelow entries).filter (keep' ·.2) = (t.visitsBelow entries).filter (keep ·.2) := by
  rw [visitsBelow, visitsBelow, List.filter_flatMap, List.filter_flatMap]
  refine List.flatMap_congr fun entry member => ?_
  rw [List.filter_map, List.filter_map]
  exact congrArg _ (each entry member)

namespace Sound

/-- The new child is met alone. -/
theorem visitsBelow_nextId (h : t.Sound) (above : t.get? p = some parent) (named : context ≠ "") :
    (t.withChild p context kind).visitsBelow [(context, t.nextId)] = [([context], t.nextId)] := by
  rw [visitsBelow, List.flatMap_singleton,
    (h.withChild above named).visits_eq (by rw [get?_withChild above, if_pos rfl])]
  rfl

/-- Of a child whose place is taken nothing stays. -/
theorem filter_visitsBelow_cutOff (h : t.Sound) (above : t.get? p = some parent)
    (context : String) :
    (t.visitsBelow ((parent.children.get? context).map (context, ·)).toList).filter
      (·.2 ∉ t.cutOff p context) = [] := by
  rw [List.filter_eq_nil_iff]
  intro visit member
  obtain ⟨⟨other, child⟩, taken, visited⟩ := List.mem_flatMap.mp member
  obtain ⟨child', linked, same⟩ := Option.map_eq_some_iff.mp (Option.mem_toList.mp taken)
  cases same
  obtain ⟨⟨way, last⟩, met, rfl⟩ := List.mem_map.mp visited
  obtain ⟨m, below, -⟩ := h.child_later above linked
  have cut : last ∈ t.cutOff p context :=
    (h.mem_cutOff_iff above).mpr ⟨child, way, linked, (h.mem_visits_iff below).mp met⟩
  simpa using cut

/-- Below the parent the new child stands in for the one that is cut off, and the walk goes on
through the other children as before. -/
theorem filter_visitsBelow_link (h : t.Sound) (above : t.get? p = some parent)
    (named : context ≠ "")
    (each : ∀ entry ∈ parent.children.entries, entry.1 ≠ context →
      ((t.withChild p context kind).visits entry.2).filter (·.2 ≠ t.nextId) =
        (t.visits entry.2).filter (·.2 ∉ t.cutOff p context)) :
    ((t.withChild p context kind).visitsBelow
        (parent.children.insert context t.nextId).entries).filter (·.2 ≠ t.nextId) =
      (t.visitsBelow parent.children.entries).filter (·.2 ∉ t.cutOff p context) := by
  have others (side : String → Bool) (beside : ∀ other, side other = true → other ≠ context) :
      ((t.withChild p context kind).visitsBelow
          (parent.children.entries.filter (side ·.1))).filter (·.2 ≠ t.nextId) =
        (t.visitsBelow (parent.children.entries.filter (side ·.1))).filter
          (·.2 ∉ t.cutOff p context) := by
    refine filter_visitsBelow_congr (· ∉ t.cutOff p context) (· ≠ t.nextId) fun entry member => ?_
    obtain ⟨inside, on_side⟩ := List.mem_filter.mp member
    exact each entry inside (beside entry.1 on_side)
  have front := others (· < context) fun _ smaller => (of_decide_eq_true smaller).ne
  have behind := others (context < ·) fun _ larger => (of_decide_eq_true larger).ne'
  have new : ((t.withChild p context kind).visitsBelow [(context, t.nextId)]).filter
      (·.2 ≠ t.nextId) = [] := by
    rw [h.visitsBelow_nextId above named]
    simp
  have cut := h.filter_visitsBelow_cutOff above context
  rw [Children.entries_insert, ← List.singleton_append]
  conv_rhs => rw [parent.children.entries_around context]
  simp only [visitsBelow_append, List.filter_append]
  rw [front, behind, new, cut, List.nil_append, List.append_nil]

/-- The walk from a node that stays meets the same nodes by the same ways, but for the new node and
for those that are cut off. -/
theorem visits_withChild (h : t.Sound) (above : t.get? p = some parent) (named : context ≠ "")
    (found : t.get? id = some n) (stays : id ∉ t.cutOff p context) :
    ((t.withChild p context kind).visits id).filter (·.2 ≠ t.nextId) =
      (t.visits id).filter (·.2 ∉ t.cutOff p context) := by
  have h' : (t.withChild p context kind).Sound := h.withChild above named
  refine h.down_induction (motive := fun id => id ∉ t.cutOff p context →
    ((t.withChild p context kind).visits id).filter (·.2 ≠ t.nextId) =
      (t.visits id).filter (·.2 ∉ t.cutOff p context)) ?_ id n found stays
  intro id n found ih stays
  have old : id ≠ t.nextId := ne_nextId_of_get? found
  have each : ∀ entry ∈ n.children.entries, ¬ (id = p ∧ entry.1 = context) →
      ((t.withChild p context kind).visits entry.2).filter (·.2 ≠ t.nextId) =
        (t.visits entry.2).filter (·.2 ∉ t.cutOff p context) := by
    intro entry member elsewhere
    have linked := n.children.mem_entries_iff.mp member
    exact ih entry.1 entry.2 linked (h.child_not_mem_cutOff above found stays linked elsewhere)
  have found' : (t.withChild p context kind).get? id =
      if id = p then some (parent.link context t.nextId) else t.get? id := by
    rw [get?_withChild above, if_neg old]
  -- The parent is the only node whose children are not what they were.
  by_cases self : id = p
  · subst self
    rw [if_pos rfl] at found'
    rw [h'.visits_eq found', h.visits_eq found, List.filter_cons_of_pos (by simpa using old),
      List.filter_cons_of_pos (by simpa using stays)]
    rw [found] at above
    cases above
    exact congrArg _ (h.filter_visitsBelow_link found named fun entry member other =>
      each entry member fun same => other same.2)
  · rw [if_neg self, found] at found'
    rw [h'.visits_eq found', h.visits_eq found, List.filter_cons_of_pos (by simpa using old),
      List.filter_cons_of_pos (by simpa using stays)]
    exact congrArg _ (filter_visitsBelow_congr (· ∉ t.cutOff p context) (· ≠ t.nextId)
      fun entry member => each entry member fun same => self same.1)

/-- The tour of the tree loses what is cut off, and the new node is all that it gains. -/
theorem tour_withChild (h : t.Sound) (above : t.get? p = some parent) (named : context ≠ "") :
    ((t.withChild p context kind).tour (t.withChild p context kind).roots).filter
        (·.node ≠ t.nextId) = (t.tour t.roots).filter (·.node ∉ t.cutOff p context) := by
  rw [tour, tour, roots_withChild, List.filter_flatMap, List.filter_flatMap]
  refine List.flatMap_congr fun root member => ?_
  obtain ⟨n, found, -⟩ := h.mem_roots_iff.mp member
  rw [List.filter_map, List.filter_map]
  exact congrArg _ (h.visits_withChild above named found (h.root_not_mem_cutOff above member))

end Sound

/-! ### Voices and rules -/

theorem kind_withChild (above : t.get? p = some parent) (found : t.get? q = some n) :
    ((t.withChild p context kind).get? q).map Node.kind = (t.get? q).map Node.kind := by
  rw [get?_withChild above, if_neg (ne_nextId_of_get? found)]
  split
  · next self =>
    rw [self, above]
    rfl
  · rfl

/-- Only the parent hears other voices. -/
theorem voices_withChild_of_ne (h : t.Sound) (above : t.get? p = some parent)
    (found : t.get? q = some n) (other : q ≠ p) :
    (t.withChild p context kind).voices q = t.voices q := by
  have found' : (t.withChild p context kind).get? q = some n := by
    rw [get?_withChild above, if_neg (ne_nextId_of_get? found), if_neg other, found]
  refine voices_congr found found' rfl fun context child linked => ?_
  obtain ⟨m, below, -⟩ := h.child_later found linked
  exact kind_withChild above below

theorem voices_nextId (above : t.get? p = some parent) :
    (t.withChild p context kind).voices t.nextId = [] := by
  rw [voices_of_get? (by rw [get?_withChild above, if_pos rfl])]
  rfl

/-- The parent hears the new child in its place, if it is no scope, and the other children as
before. -/
theorem voices_withChild (h : t.Sound) (above : t.get? p = some parent) :
    (t.withChild p context kind).voices p = (t.voices p).filter (·.1 < context) ++
      ((Assertion.ofKind? context kind).map (context, ·)).toList ++
      (t.voices p).filter (context < ·.1) := by
  have found' : (t.withChild p context kind).get? p = some (parent.link context t.nextId) := by
    rw [get?_withChild above, if_neg (ne_nextId_of_get? above), if_pos rfl]
  have others (side : String → Bool) :
      (t.withChild p context kind).heardFrom (parent.children.entries.filter (side ·.1)) =
        (t.voices p).filter (side ·.1) := by
    rw [voices_of_get? above, filter_heardFrom]
    refine heardFrom_congr fun entry member => ?_
    obtain ⟨inside, -⟩ := List.mem_filter.mp member
    obtain ⟨m, below, -⟩ := h.child_later above (parent.children.mem_entries_iff.mp inside)
    exact kind_withChild above below
  have added : (t.withChild p context kind).get? t.nextId =
      some ⟨context, kind, some p, .empty⟩ := by
    rw [get?_withChild above, if_pos rfl]
  have new : (t.withChild p context kind).heardFrom [(context, t.nextId)] =
      ((Assertion.ofKind? context kind).map (context, ·)).toList :=
    heardFrom_singleton added
  rw [voices_of_get? found', Node.link, Children.entries_insert, ← List.singleton_append,
    heardFrom_append, heardFrom_append, others (· < context), others (context < ·), new,
    List.append_assoc]

namespace Sound

theorem path_withChild (h : t.Sound) (above : t.get? p = some parent) (named : context ≠ "")
    (found : t.get? q = some n) : (t.withChild p context kind).path q = t.path q :=
  (continues_withChild above context kind).path_eq h (h.withChild above named) found

theorem ruleOf?_withChild_of_ne (h : t.Sound) (above : t.get? p = some parent)
    (named : context ≠ "") (found : t.get? q = some n) (other : q ≠ p) :
    (t.withChild p context kind).ruleOf? q = t.ruleOf? q :=
  ruleOf?_congr (h.path_withChild above named found) (voices_withChild_of_ne h above found other)

theorem placedRules_withChild (h : t.Sound) (above : t.get? p = some parent)
    (named : context ≠ "") : (t.withChild p context kind).placedRules =
      ((t.tour t.roots).filter (·.node ∉ t.cutOff p context)).filterMap fun site =>
        ((t.withChild p context kind).ruleOf? site.node).map (site, ·) := by
  have silent : (t.withChild p context kind).ruleOf? t.nextId = none := by
    rw [ruleOf?_eq_voices, if_pos (voices_nextId above)]
  rw [placedRules, ← h.tour_withChild above named, List.filterMap_filter]
  refine List.filterMap_congr fun site _ => ?_
  by_cases new : site.node = t.nextId <;> simp [new, silent]

end Sound

/-- What becomes of the rules of a tree when a child is declared below a site. -/
structure ChildChange (t t' : Tree) (site : Site) (context : String) (kind : Kind) : Prop where
  /-- The rules of the other nodes stay as they are and in their order, without those of the nodes
  that are cut off. -/
  others : t'.placedRules.filter (·.1.node ≠ site.node) = t.placedRules.filter fun placed =>
    placed.1.node ≠ site.node ∧ placed.1.node ∉ t.cutOff site.node context
  /-- Cut off is the child that had the context before, with everything below it. -/
  mem_cutOff_iff : ∀ q, q ∈ t.cutOff site.node context ↔
    ∃ n child way, t.get? site.node = some n ∧ n.children.get? context = some child ∧
      t.Leads child way q
  /-- The parent has a rule if a child of it asserts anything, with the assertions of its children
  and with the path that it had. -/
  own : ∃ path, t.path site.node = .ok path ∧ t'.placedRules.filter (·.1.node = site.node) =
    (ruleList path ((t'.voices site.node).map (·.2))).map (site, ·)
  /-- The assertion of the new child stands between those of the smaller and of the larger
  contexts; a scope has none. -/
  voices : t'.voices site.node = (t.voices site.node).filter (·.1 < context) ++
    ((Assertion.ofKind? context kind).map (context, ·)).toList ++
    (t.voices site.node).filter (context < ·.1)
  voices_ne_nil_iff : t'.voices site.node ≠ [] ↔ ∃ n context child m,
    t'.get? site.node = some n ∧ n.children.get? context = some child ∧
    t'.get? child = some m ∧ m.kind ≠ .scope
  /-- All rules are in the order of their sites. -/
  ordered : (t'.placedRules.map (·.1)).Pairwise Site.Before

namespace Sound

theorem childChange (h : t.Sound) (above : t.get? p = some parent) (named : context ≠ "")
    {root : NodeId} {way : List String} (member : root ∈ t.roots) (leads : t.Leads root way p) :
    ChildChange t (t.withChild p context kind) ⟨root, way, p⟩ context kind := by
  have stays : p ∉ t.cutOff p context := fun cut =>
    Nat.lt_irrefl _ (h.later_of_mem_cutOff above cut)
  obtain ⟨path, climbed⟩ := h.exists_path above
  refine ⟨?_, ?_, ⟨path, climbed, ?_⟩, voices_withChild h above, Tree.voices_ne_nil_iff,
    (h.withChild above named).placedRules_ordered⟩
  · rw [h.placedRules_withChild above named, placedRules, filter_placed _ _ (·.node ≠ p),
      filter_placed _ _ fun site => site.node ≠ p ∧ site.node ∉ t.cutOff p context,
      List.filter_filter]
    simp only [← Bool.decide_and]
    refine List.filterMap_congr fun site kept => ?_
    obtain ⟨met, keep⟩ := List.mem_filter.mp kept
    obtain ⟨n, found⟩ := ((h.mem_tour_iff h.starts_roots).mp met).2.target_found
    rw [h.ruleOf?_withChild_of_ne above named found (of_decide_eq_true keep).1]
  · intro q
    rw [h.mem_cutOff_iff above]
    simp [above]
  · have only : ((t.tour t.roots).filter (·.node ∉ t.cutOff p context)).filter (·.node = p) =
        [⟨root, way, p⟩] := by
      rw [List.filter_comm, h.filter_tour_node member leads, List.filter_singleton]
      simp [stays]
    rw [h.placedRules_withChild above named, filter_placed _ _ (·.node = p), only,
      List.filterMap_cons, ruleOf?_eq_voices, h.path_withChild above named above, climbed, ruleList]
    by_cases silent : (t.withChild p context kind).voices p = [] <;>
      simp [silent, Except.toOption]

end Sound

/-- A child can be declared below every node of a tree with a history. If no root leads to the node,
the rules stay as they are, and otherwise `ChildChange` says all that becomes of them. -/
theorem addChild_changes_rules (h : t.Reachable) (above : t.get? p = some parent)
    (named : context ≠ "") (kind : Kind) :
    ∃ t', t.addChild p context kind = .ok (t.nextId, t') ∧
      t.rules = .ok (t.placedRules.map (·.2)) ∧ t'.rules = .ok (t'.placedRules.map (·.2)) ∧
      (¬ t.Rooted p → t'.rules = t.rules) ∧
      ∀ root ∈ t.roots, ∀ way, t.Leads root way p →
        ChildChange t t' ⟨root, way, p⟩ context kind := by
  have sound := h.sound
  have sound' : (t.withChild p context kind).Sound := sound.withChild above named
  refine ⟨_, addChild_of_get? above named, sound.rules_eq_placedRules, sound'.rules_eq_placedRules,
    fun out_of_reach => ?_, fun root member way leads => sound.childChange above named member leads⟩
  have rooted {site : Site} (met : site ∈ t.tour t.roots) : t.Rooted site.node :=
    sound.rooted_iff_mem_tour.mpr ⟨site, met, rfl⟩
  -- What is cut off below a node out of reach is out of reach itself, and nobody hears the new child.
  have all_stay : (t.tour t.roots).filter (·.node ∉ t.cutOff p context) = t.tour t.roots := by
    refine List.filter_eq_self.mpr fun site met => decide_eq_true fun cut => ?_
    exact out_of_reach (sound.rooted_of_mem_cutOff above cut (rooted met))
  have same : (t.withChild p context kind).placedRules = t.placedRules := by
    rw [sound.placedRules_withChild above named, all_stay, placedRules]
    refine List.filterMap_congr fun site met => ?_
    obtain ⟨n, found⟩ := ((sound.mem_tour_iff sound.starts_roots).mp met).2.target_found
    have other : site.node ≠ p := fun self => out_of_reach (self ▸ rooted met)
    rw [sound.ruleOf?_withChild_of_ne above named found other]
  rw [sound.rules_eq_placedRules, sound'.rules_eq_placedRules, same]

/-- A child takes the place of a scope, whose own child goes with it, and below a child that was
replaced before nothing shows. -/
theorem addChild_changes_rules_replacing :
    replaced.Reachable ∧ ⟨0, 0⟩ ∈ replaced.roots ∧
    (∃ t', replaced.addChild ⟨0, 0⟩ "a" .requiredPresence = .ok (⟨0, 6⟩, t') ∧
      ⟨0, 4⟩ ∈ replaced.cutOff ⟨0, 0⟩ "a" ∧
      ChildChange replaced t' ⟨⟨0, 0⟩, [], ⟨0, 0⟩⟩ "a" .requiredPresence) ∧
    ∃ t', replaced.addChild ⟨0, 1⟩ "a" .requiredPresence = .ok (⟨0, 6⟩, t') ∧
      ¬ replaced.Rooted ⟨0, 1⟩ ∧ t'.rules = replaced.rules := by
  have reachable : replaced.Reachable := ⟨replacing, by decide +kernel⟩
  have root : (⟨0, 0⟩ : NodeId) ∈ replaced.roots := by decide +kernel
  have above : replaced.get? ⟨0, 0⟩ =
      some ⟨"/", .scope, none, (Children.empty.insert "a" ⟨0, 3⟩).insert "b" ⟨0, 5⟩⟩ := by
    decide +kernel
  have scope : replaced.get? ⟨0, 3⟩ =
      some ⟨"a", .scope, some ⟨0, 0⟩, Children.empty.insert "y" ⟨0, 4⟩⟩ := by
    decide +kernel
  have below : replaced.get? ⟨0, 4⟩ =
      some ⟨"y", .forbiddenPresence, some ⟨0, 3⟩, .empty⟩ := by
    decide +kernel
  have former : replaced.get? ⟨0, 1⟩ =
      some ⟨"b", .requiredPresence, some ⟨0, 0⟩, Children.empty.insert "x" ⟨0, 2⟩⟩ := by
    decide +kernel
  have displaced : replaced.Displaced ⟨0, 1⟩ :=
    ⟨_, _, _, former, rfl, above, by decide +kernel⟩
  have detached : ¬ replaced.Rooted ⟨0, 1⟩ := fun ⟨_, listed, _, leads⟩ =>
    reachable.sound.not_leads_of_displaced displaced listed (.here former) leads
  obtain ⟨t', added, -, -, -, changed⟩ :=
    addChild_changes_rules reachable above (by decide : "a" ≠ "") .requiredPresence
  obtain ⟨s', added', -, -, unchanged, -⟩ :=
    addChild_changes_rules reachable former (by decide : "a" ≠ "") .requiredPresence
  have change := changed ⟨0, 0⟩ root [] (.here above)
  refine ⟨reachable, root, ⟨t', added, ?_, change⟩, s', added', detached, unchanged detached⟩
  exact (change.mem_cutOff_iff ⟨0, 4⟩).mpr
    ⟨_, ⟨0, 3⟩, ["y"], above, by decide +kernel, .down scope (by decide +kernel) (.here below)⟩

end Tree

end Schematron
