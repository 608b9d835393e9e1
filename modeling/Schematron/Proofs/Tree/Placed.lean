import Schematron.Proofs.Tree.Listing

/-!
# Rules in their places

The rules of a tree together with the sites they belong to, and what a rule says
together with the contexts it is said about. A rule is made of two things only,
the path of its node and the `voices` of the node's children. A change of a tree
therefore shows in the rules exactly as far as it shows in the tour, in the paths
and in the voices, and it can be followed there place by place.
-/

namespace Schematron

namespace Tree

/-- What some children assert, with their contexts. -/
def heardFrom (t : Tree) (entries : List (String × NodeId)) : List (String × Assertion) :=
  entries.filterMap fun entry => (t.assertionOf? entry).map (entry.1, ·)

/-- What the children of a node assert, in the order of their contexts. -/
def voices (t : Tree) (id : NodeId) : List (String × Assertion) :=
  match t.get? id with
  | none => []
  | some n => t.heardFrom n.children.entries

/-- The rules of a tree with the sites they belong to. -/
def placedRules (t : Tree) : List (Site × RuleRecord) :=
  (t.tour t.roots).filterMap fun site => (t.ruleOf? site.node).map (site, ·)

/-- A node is at or below some root. -/
def Rooted (t : Tree) (id : NodeId) : Prop := ∃ root ∈ t.roots, ∃ way, t.Leads root way id

variable {t t' : Tree} {id child : NodeId} {n : Node} {context : String} {a : Assertion}

/-! ### Voices -/

/-- What a child asserts depends on its context and its kind. -/
theorem assertionOf?_eq_kind (entry : String × NodeId) : t.assertionOf? entry =
    ((t.get? entry.2).map Node.kind).bind (Assertion.ofKind? entry.1) := by
  rw [assertionOf?, Option.bind_map]
  rfl

theorem heardFrom_append (front back : List (String × NodeId)) :
    t.heardFrom (front ++ back) = t.heardFrom front ++ t.heardFrom back :=
  List.filterMap_append

theorem heardFrom_singleton (found : t.get? child = some n) :
    t.heardFrom [(context, child)] =
      ((Assertion.ofKind? context n.kind).map (context, ·)).toList := by
  have speaks : t.assertionOf? (context, child) = Assertion.ofKind? context n.kind := by
    rw [assertionOf?_eq_kind, found]
    rfl
  rw [heardFrom, List.filterMap_cons, speaks]
  cases Assertion.ofKind? context n.kind <;> rfl

/-- Children can be chosen by their contexts before or after they are heard. -/
theorem filter_heardFrom (entries : List (String × NodeId)) (side : String → Bool) :
    (t.heardFrom entries).filter (side ·.1) = t.heardFrom (entries.filter (side ·.1)) := by
  rw [heardFrom, heardFrom, List.filterMap_filter, List.filter_filterMap]
  refine List.filterMap_congr fun entry _ => ?_
  cases t.assertionOf? entry <;> cases near : side entry.1 <;> simp [Option.filter, near]

theorem heardFrom_congr {entries : List (String × NodeId)}
    (kinds : ∀ entry ∈ entries, (t'.get? entry.2).map Node.kind = (t.get? entry.2).map Node.kind) :
    t'.heardFrom entries = t.heardFrom entries := by
  refine List.filterMap_congr fun entry member => congrArg _ ?_
  rw [assertionOf?_eq_kind, assertionOf?_eq_kind, kinds entry member]

theorem voices_of_get? (found : t.get? id = some n) :
    t.voices id = t.heardFrom n.children.entries := by
  rw [voices, found]

/-- What a node hears from a child, between the voices of the smaller and of the larger contexts. -/
theorem voices_around {m : Node} (found : t.get? id = some n)
    (linked : n.children.get? context = some child) (below : t.get? child = some m) :
    t.voices id = t.heardFrom (n.children.entries.filter (·.1 < context)) ++
      ((Assertion.ofKind? context m.kind).map (context, ·)).toList ++
      t.heardFrom (n.children.entries.filter (context < ·.1)) := by
  have around := n.children.entries_around context
  rw [linked] at around
  rw [voices_of_get? found, ← heardFrom_singleton below, ← heardFrom_append, ← heardFrom_append]
  exact congrArg t.heardFrom around

theorem mem_voices_iff : (context, a) ∈ t.voices id ↔ ∃ n child m, t.get? id = some n ∧
    n.children.get? context = some child ∧ t.get? child = some m ∧
    Assertion.ofKind? context m.kind = some a := by
  rw [voices]
  cases found : t.get? id with
  | none => simp
  | some n =>
      simp only [heardFrom, List.mem_filterMap, Option.map_eq_some_iff, Prod.exists,
        Prod.mk.injEq, assertionOf?, Option.bind_eq_some_iff, Children.mem_entries_iff]
      constructor
      · rintro ⟨context, child, linked, a, ⟨m, below, speaks⟩, rfl, rfl⟩
        exact ⟨n, child, m, rfl, linked, below, speaks⟩
      · rintro ⟨n', child, m, same, linked, below, speaks⟩
        cases same
        exact ⟨context, child, linked, a, ⟨m, below, speaks⟩, rfl, rfl⟩

/-- Something is asserted exactly if there is a child that is no scope. -/
theorem voices_ne_nil_iff : t.voices id ≠ [] ↔ ∃ n context child m, t.get? id = some n ∧
    n.children.get? context = some child ∧ t.get? child = some m ∧ m.kind ≠ .scope := by
  constructor
  · intro speaking
    obtain ⟨⟨context, a⟩, member⟩ := List.exists_mem_of_ne_nil _ speaking
    obtain ⟨n, child, m, found, linked, below, speaks⟩ := mem_voices_iff.mp member
    refine ⟨n, context, child, m, found, linked, below, fun scope => ?_⟩
    rw [Assertion.ofKind?_eq_none_iff.mpr scope] at speaks
    cases speaks
  · rintro ⟨n, context, child, m, found, linked, below, kind⟩
    obtain ⟨a, speaks⟩ := Option.ne_none_iff_exists'.mp (mt Assertion.ofKind?_eq_none_iff.mp kind)
    exact List.ne_nil_of_mem (mem_voices_iff.mpr ⟨n, child, m, found, linked, below, speaks⟩)

theorem map_voices (found : t.get? id = some n) :
    (t.voices id).map (·.2) = n.children.entries.filterMap t.assertionOf? := by
  rw [voices_of_get? found, heardFrom, List.map_filterMap]
  simp [Function.comp_def]

theorem ruleOf?_eq_voices (id : NodeId) : t.ruleOf? id = if t.voices id = [] then none else
    (t.path id).toOption.map fun path => ⟨path, (t.voices id).map (·.2)⟩ := by
  rw [ruleOf?]
  cases found : t.get? id with
  | none => simp [asserted, voices, found]
  | some n =>
      rw [map_voices found, ← filterMap_asserted found]
      have silent : t.asserted id = [] ↔ t.voices id = [] := by
        rw [← filterMap_asserted_eq_nil_iff, filterMap_asserted found, ← map_voices found,
          List.map_eq_nil_iff]
      simp only [silent]

theorem ruleOf?_congr (path : t'.path id = t.path id) (voices : t'.voices id = t.voices id) :
    t'.ruleOf? id = t.ruleOf? id := by
  rw [ruleOf?_eq_voices, ruleOf?_eq_voices, path, voices]

theorem voices_congr {n' : Node} (found : t.get? id = some n) (found' : t'.get? id = some n')
    (children : n'.children = n.children)
    (kinds : ∀ context child, n.children.get? context = some child →
      (t'.get? child).map Node.kind = (t.get? child).map Node.kind) :
    t'.voices id = t.voices id := by
  rw [voices_of_get? found, voices_of_get? found', children]
  exact heardFrom_congr fun entry member =>
    kinds entry.1 entry.2 (n.children.mem_entries_iff.mp member)

/-! ### Places -/

/-- Rules can be chosen by their sites before or after they are made. -/
theorem filter_placed (sites : List Site) (rule : Site → Option RuleRecord) (keep : Site → Bool) :
    (sites.filterMap fun site => (rule site).map (site, ·)).filter (keep ·.1) =
      (sites.filter keep).filterMap fun site => (rule site).map (site, ·) := by
  rw [List.filter_filterMap, List.filterMap_filter]
  refine List.filterMap_congr fun site _ => ?_
  cases rule site <;> cases kept : keep site <;> simp [Option.filter, kept]

namespace Sound

theorem rules_eq_placedRules (h : t.Sound) : t.rules = .ok (t.placedRules.map (·.2)) := by
  rw [h.rules_eq_tour, placedRules, List.map_filterMap]
  simp [Function.comp_def]

/-- The rules are in the order of their sites. -/
theorem placedRules_ordered (h : t.Sound) : (t.placedRules.map (·.1)).Pairwise Site.Before := by
  have along : (t.placedRules.map (·.1)).Sublist (t.tour t.roots) := by
    rw [placedRules, List.map_filterMap]
    have some_sites : (t.tour t.roots).filterMap (fun site =>
          Option.map (·.1) ((t.ruleOf? site.node).map fun record => (site, record))) =
        (t.tour t.roots).filter fun site => (t.ruleOf? site.node).isSome := by
      rw [← List.filterMap_eq_filter]
      refine List.filterMap_congr fun site _ => ?_
      cases rule : t.ruleOf? site.node <;> simp [Option.guard, rule]
    rw [some_sites]
    exact List.filter_sublist
  exact (h.tour_ordered h.starts_roots).sublist along

/-- A tour meets a node in one place only. -/
theorem filter_tour_node (h : t.Sound) {root : NodeId} {way : List String}
    (member : root ∈ t.roots) (leads : t.Leads root way id) :
    (t.tour t.roots).filter (·.node = id) = [⟨root, way, id⟩] := by
  have met : ⟨root, way, id⟩ ∈ t.tour t.roots :=
    (h.mem_tour_iff h.starts_roots).mpr ⟨member, leads⟩
  have once : (t.tour t.roots).Nodup := .of_map _ (h.tour_node_once h.starts_roots)
  refine List.perm_singleton.mp
    ((List.perm_ext_iff_of_nodup (once.filter _) (List.nodup_singleton _)).mpr fun site => ?_)
  rw [List.mem_filter, decide_eq_true_eq, List.mem_singleton]
  constructor
  · rintro ⟨met', same⟩
    exact h.site_unique h.starts_roots met' met same
  · rintro rfl
    exact ⟨met, rfl⟩

/-- A tour meets the nodes at or below the roots. -/
theorem rooted_iff_mem_tour (h : t.Sound) :
    t.Rooted id ↔ ∃ site ∈ t.tour t.roots, site.node = id := by
  constructor
  · rintro ⟨root, member, way, leads⟩
    exact ⟨⟨root, way, id⟩, (h.mem_tour_iff h.starts_roots).mpr ⟨member, leads⟩, rfl⟩
  · rintro ⟨site, met, rfl⟩
    obtain ⟨member, leads⟩ := (h.mem_tour_iff h.starts_roots).mp met
    exact ⟨site.start, member, site.way, leads⟩

end Sound

end Tree

end Schematron
