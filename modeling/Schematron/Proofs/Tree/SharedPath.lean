import Schematron.Proofs.Tree.Listing

/-!
# Rules with the same path

A path joins contexts with slashes, and a context may contain slashes itself. So
a path does not tell where its contexts end: below one node, a child `b` with a
child `c` has the path of a child `b/c`. `sharing` is such a tree, and it has two
rules for one path.

`rules_told_apart` says that nothing else leads to the same path. Below a node,
two rules share their path exactly if the contexts of their ways spell the same
text when they are joined with slashes. Contexts without slashes can be read back
from this text, so then every rule has a path of its own.
-/

namespace Schematron

/-! ### Joined contexts -/

variable {path : String} {way way' : List String}

theorem intercalate_eq_empty_iff (named : "" ∉ way) : "/".intercalate way = "" ↔ way = [] := by
  cases way with
  | nil => simp
  | cons context rest =>
      have named_first : context ≠ "" := fun none => named (none ▸ List.mem_cons_self)
      refine iff_of_false ?_ (List.cons_ne_nil _ _)
      by_cases last : rest = []
      · rwa [last, String.intercalate_singleton]
      · rw [String.intercalate_cons_of_ne_nil last, String.append_eq_empty_iff,
          String.append_eq_empty_iff]
        exact fun nothing => named_first nothing.1.1

theorem foldl_joinPath_eq_self_iff (starts : path ≠ "") (named : "" ∉ way) :
    way.foldl joinPath path = path ↔ way = [] := by
  constructor
  · intro same
    by_contra some_below
    rw [foldl_joinPath starts some_below named, String.append_assoc, String.append_eq_left_iff,
      String.append_eq_empty_iff, intercalate_eq_empty_iff named] at same
    exact some_below same.2
  · rintro rfl
    rfl

/-- Two ways continue a path alike exactly if they spell the same text. -/
theorem foldl_joinPath_inj_iff (starts : path ≠ "") (named : "" ∉ way) (named' : "" ∉ way') :
    way.foldl joinPath path = way'.foldl joinPath path ↔
      "/".intercalate way = "/".intercalate way' := by
  by_cases here : way = []
  · rw [here, List.foldl_nil, String.intercalate_nil, eq_comm, @eq_comm _ "",
      foldl_joinPath_eq_self_iff starts named', intercalate_eq_empty_iff named']
  · by_cases here' : way' = []
    · rw [here', List.foldl_nil, String.intercalate_nil, foldl_joinPath_eq_self_iff starts named,
        intercalate_eq_empty_iff named]
    · rw [foldl_joinPath starts here named, foldl_joinPath starts here' named',
        String.append_right_inj]

/-- The pieces between the slashes are the contexts, if these have no slashes of their own. -/
theorem splitOn_intercalate_slash (some_below : way ≠ [])
    (plain : ∀ context ∈ way, '/' ∉ context.toList) :
    ("/".intercalate way).toList.splitOn '/' = way.map String.toList := by
  rw [String.toList_intercalate]
  refine List.splitOn_intercalate '/' ?_ (by simpa using some_below)
  rintro _ member
  obtain ⟨context, below, rfl⟩ := List.mem_map.mp member
  exact plain context below

/-- Contexts without slashes can be read back from what they spell. -/
theorem intercalate_inj (named : "" ∉ way) (named' : "" ∉ way')
    (plain : ∀ context ∈ way, '/' ∉ context.toList)
    (plain' : ∀ context ∈ way', '/' ∉ context.toList)
    (same : "/".intercalate way = "/".intercalate way') : way = way' := by
  by_cases here : way = []
  · rw [here, String.intercalate_nil, eq_comm, intercalate_eq_empty_iff named'] at same
    rw [here, same]
  · have here' : ¬ way' = [] := by
      rwa [← intercalate_eq_empty_iff named', ← same, intercalate_eq_empty_iff named]
    have letters : way.map String.toList = way'.map String.toList := by
      rw [← splitOn_intercalate_slash here plain, ← splitOn_intercalate_slash here' plain', same]
    exact List.map_injective_iff.mpr (fun _ _ => String.toList_injective) letters

namespace Tree

variable {t : Tree} {id last last' : NodeId} {n : Node}

/-! ### Paths below a node -/

/-- What holds of the contexts of all children holds along every way. -/
theorem Leads.forall_context (h : t.Leads id way last) (sound : t.Sound) (good : String → Prop)
    (children : ∀ {child m p}, t.get? child = some m → m.parent = some p → good m.context) :
    ∀ context ∈ way, good context := by
  induction h with
  | here _ => simp
  | down found linked _ ih =>
      obtain ⟨m, below, parent, rfl, -⟩ := sound.child_later found linked
      exact List.forall_mem_cons.mpr ⟨children below parent, ih⟩

namespace Sound

theorem empty_not_mem_way (h : t.Sound) (below : t.Leads id way last) : "" ∉ way := by
  intro member
  have named := below.forall_context h (· ≠ "") fun found _ => h.context_ne found
  exact named "" member rfl

theorem path_of_leads (h : t.Sound) (below : t.Leads id way last) (climbed : t.path id = .ok path) :
    t.path last = .ok (way.foldl joinPath path) := by
  induction below generalizing path with
  | here _ => exact climbed
  | down found linked _ ih =>
      obtain ⟨m, child, parent, rfl, -⟩ := h.child_later found linked
      refine ih ?_
      rw [path_of_child h child parent, climbed]
      rfl

/-- Two ways from a node lead to the same path exactly if they spell the same text. -/
theorem path_eq_iff (h : t.Sound) (found : t.get? id = some n) (below : t.Leads id way last)
    (below' : t.Leads id way' last') :
    t.path last = t.path last' ↔ "/".intercalate way = "/".intercalate way' := by
  obtain ⟨path, climbed⟩ := h.exists_path found
  rw [h.path_of_leads below climbed, h.path_of_leads below' climbed, Except.ok.injEq]
  exact foldl_joinPath_inj_iff (h.path_ne_empty found climbed) (h.empty_not_mem_way below)
    (h.empty_not_mem_way below')

end Sound

namespace Listing

variable {starts : List NodeId} {sites : List Site} {records : List RuleRecord}

/-- The paths of the rules are those of their sites, one for one. -/
theorem paths_eq (h : t.Listing starts sites records) :
    sites.map (t.path ·.node) = records.map (Except.ok ·.path) := by
  rw [← List.forall₂_eq_eq_eq, List.forall₂_map_left_iff, List.forall₂_map_right_iff]
  exact h.recorded.imp fun _ _ recorded => recorded.1

/-- Where no context has a slash in it, the rules from a node have different paths. -/
theorem paths_nodup (h : t.Listing [id] sites records) (sound : t.Sound)
    (found : t.get? id = some n)
    (plain : ∀ site ∈ sites, ∀ context ∈ site.way, '/' ∉ context.toList) :
    (records.map RuleRecord.path).Nodup := by
  have apart : (sites.map (t.path ·.node)).Nodup := by
    -- The same path has been come to by the same way, hence at the same node.
    refine List.Nodup.map_on ?_ (List.Nodup.of_map Site.node h.node_once)
    rintro ⟨start, way, node⟩ member ⟨start', way', node'⟩ member' same
    obtain ⟨begins, below, -⟩ := h.mem_iff.mp member
    obtain ⟨begins', below', -⟩ := h.mem_iff.mp member'
    cases List.mem_singleton.mp begins
    cases List.mem_singleton.mp begins'
    cases intercalate_inj (sound.empty_not_mem_way below) (sound.empty_not_mem_way below')
      (plain _ member) (plain _ member') ((sound.path_eq_iff found below below').mp same)
    cases below.target_unique below'
    rfl
  rw [h.paths_eq] at apart
  refine List.Nodup.of_map (Except.ok : String → Except TreeError String) ?_
  rwa [List.map_map]

end Listing

/-- The rules from any node belong to different nodes. Two of them share their path exactly if the
contexts below the starting node spell the same text, so they never do where no context has a
slash in it. -/
theorem rules_told_apart (h : t.Reachable) (found : t.get? id = some n) :
    ∃ sites records, t.rulesFrom id = .ok records ∧ t.Listing [id] sites records ∧
      (∀ a ∈ sites, ∀ b ∈ sites, t.path a.node = t.path b.node ↔
        "/".intercalate a.way = "/".intercalate b.way) ∧
      ((∀ site ∈ sites, ∀ context ∈ site.way, '/' ∉ context.toList) →
        (records.map RuleRecord.path).Nodup) := by
  have sound := h.sound
  have listing := sound.listing_tour (Sound.starts_singleton found)
  refine ⟨_, _, sound.rulesFrom_eq_tour found, listing, ?_, listing.paths_nodup sound found⟩
  intro a member b member'
  obtain ⟨begins, below, -⟩ := listing.mem_iff.mp member
  obtain ⟨begins', below', -⟩ := listing.mem_iff.mp member'
  rw [List.mem_singleton.mp begins] at below
  rw [List.mem_singleton.mp begins'] at below'
  exact sound.path_eq_iff found below below'

/-- No context below the root of that tree has a slash in it. -/
theorem rules_told_apart_replaced :
    replaced.Reachable ∧ ⟨0, 0⟩ ∈ replaced.roots ∧ ∃ records,
      replaced.rulesFrom ⟨0, 0⟩ = .ok records ∧ (records.map RuleRecord.path).Nodup := by
  have reachable : replaced.Reachable := ⟨replacing, by decide +kernel⟩
  have found : replaced.get? ⟨0, 0⟩ =
      some ⟨"/", .scope, none, (Children.empty.insert "a" ⟨0, 3⟩).insert "b" ⟨0, 5⟩⟩ := by
    decide +kernel
  have plain : ∀ m ∈ replaced.nodes, m.parent ≠ none → '/' ∉ m.context.toList := by
    decide +kernel
  obtain ⟨sites, records, ruled, listing, -, apart⟩ := rules_told_apart reachable found
  refine ⟨reachable, by decide +kernel, records, ruled, apart fun site member => ?_⟩
  obtain ⟨-, below, -⟩ := listing.mem_iff.mp member
  refine below.forall_context reachable.sound (fun context => '/' ∉ context.toList) ?_
  intro child m p found parent
  rw [get?, if_pos (issued_of_get? found).1] at found
  exact plain m (Array.mem_of_getElem? found) (by simp [parent])

/-- A history in which two nodes with children come to the same path. -/
def slashing : List Forest.Action :=
  [.plant, .act 0 (.addScope "a"), .act 0 (.addChild ⟨0, 0⟩ "b" .scope),
    .act 0 (.addChild ⟨0, 1⟩ "c" .scope), .act 0 (.addChild ⟨0, 2⟩ "y" .requiredPresence),
    .act 0 (.addChild ⟨0, 0⟩ "b/c" .scope), .act 0 (.addChild ⟨0, 4⟩ "x" .requiredPresence)]

def sharing : Tree := (Forest.run slashing).trees[0]?.getD (.empty 0)

/-- Rules from a root are not always told apart by their paths. -/
theorem paths_shared : ¬ ∀ t : Tree, t.Reachable → ∀ root ∈ t.roots, ∀ records,
    t.rulesFrom root = .ok records → (records.map RuleRecord.path).Nodup := by
  intro apart
  have reachable : sharing.Reachable := ⟨slashing, by decide +kernel⟩
  have root : ⟨0, 0⟩ ∈ sharing.roots := by decide +kernel
  have ruled : (sharing.rulesFrom ⟨0, 0⟩).map (·.map RuleRecord.path) =
      .ok ["a/b/c", "a/b/c"] := by decide +kernel
  obtain ⟨records, from_root, paths⟩ := Except.map_eq_ok_iff.mp ruled
  have once := apart sharing reachable ⟨0, 0⟩ root records from_root
  rw [paths] at once
  exact absurd once (by decide)

end Tree

end Schematron
