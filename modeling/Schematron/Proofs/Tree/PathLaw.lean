import Schematron.Proofs.Tree.History
import Schematron.Proofs.Tree.Path

/-!
# The law of absolute paths

A path is found in two passes. The climb goes from a node along the parents and
collects the contexts; it ends because a parent comes before its children, and it
looks at no place but the nodes it meets. Then the contexts are joined from the
root down, with a look at the path so far before each slash.

`Stands` gives the contexts of a node without either pass, by its parents alone.
`path_law` says what the two passes come to: a path is the path of the parent
continued by one context, and all of it is the contexts with slashes between
them, where a root `/` has only its slash in common with the rest.
-/

namespace Schematron

/-- Contexts below a root spell a path in which slashes stand between them. A root that is a slash
gives that slash and is nothing before it. -/
theorem pathOfContexts_eq {root : String} {below : List String} (named_root : root ≠ "")
    (named : "" ∉ below) : pathOfContexts (root :: below) =
      "/".intercalate ((if root = "/" ∧ below ≠ [] then "" else root) :: below) := by
  by_cases alone : below = []
  · simp [alone, pathOfContexts]
  · rw [pathOfContexts, foldl_joinPath named_root alone named,
      String.intercalate_cons_of_ne_nil alone]
    by_cases slash : root = "/"
    · rw [if_pos slash, if_pos ⟨slash, alone⟩, slash, String.append_empty, String.empty_append]
    · rw [if_neg slash, if_neg fun both => slash both.1]

namespace Tree

/-- The contexts from a root down to a node, told by the parents. -/
inductive Stands (t : Tree) : NodeId → List String → Prop
  | root {id n} : t.get? id = some n → n.parent = none → Stands t id [n.context]
  | child {id n p contexts} : t.get? id = some n → n.parent = some p → Stands t p contexts →
      Stands t id (contexts ++ [n.context])

/-- The climb along the parents in a number of turns, with the contexts below the place where it
is. It is not over when more turns are left to do. -/
def climb (t : Tree) : Nat → Option NodeId → List String → Option (Except TreeError (List String))
  | _, none, contexts => some (.ok contexts)
  | 0, some _, _ => none
  | turns + 1, some id, contexts =>
    match t.node id with
    | .error e => some (.error e)
    | .ok n => climb t turns n.parent (n.context :: contexts)

variable {t : Tree} {id p : NodeId} {n : Node} {contexts : List String}

/-- The climb takes one turn for each context. -/
theorem Stands.climb_eq (h : t.Stands id contexts) (below : List String) :
    t.climb contexts.length (some id) below = some (.ok (contexts ++ below)) := by
  induction h generalizing below with
  | root found root => simp [climb, node_eq_ok_iff.mpr found, root]
  | child found parent _ ih => simp [climb, node_eq_ok_iff.mpr found, parent, ih]

theorem Stands.lineage_eq (h : t.Stands id contexts) (sound : t.Sound) :
    t.lineage id = .ok contexts := by
  induction h with
  | root found root => exact lineage_of_root found root
  | child found parent _ ih =>
      rw [lineage_of_child sound found parent, ih]
      rfl

/-- No context on the way to a node is empty. -/
theorem Stands.empty_not_mem (h : t.Stands id contexts) (sound : t.Sound) : "" ∉ contexts := by
  have named {id : NodeId} {n : Node} (found : t.get? id = some n) : "" ∉ [n.context] := by
    rw [List.mem_singleton]
    exact fun none => sound.context_ne found none.symm
  induction h with
  | root found _ => exact named found
  | child found _ _ ih => exact fun inside => (List.mem_append.mp inside).elim ih (named found)

theorem Stands.ne_nil (h : t.Stands id contexts) : contexts ≠ [] := by
  cases h <;> simp

theorem Sound.exists_stands (sound : t.Sound) (found : t.get? id = some n) :
    ∃ contexts, t.Stands id contexts := by
  refine sound.up_induction (motive := fun id => ∃ contexts, t.Stands id contexts) ?_ ?_ id n found
  · intro id n found root
    exact ⟨_, .root found root⟩
  · rintro id n p found parent ⟨contexts, above⟩
    exact ⟨_, .child found parent above⟩

/-- A path is a single slash only for a root with this context. -/
theorem Sound.path_eq_slash_iff (sound : t.Sound) (found : t.get? id = some n) {path : String}
    (climbed : t.path id = .ok path) : path = "/" ↔ n.parent = none ∧ n.context = "/" := by
  cases parent : n.parent with
  | none =>
      rw [path_of_root found parent] at climbed
      cases climbed
      simp
  | some p =>
      obtain ⟨m, above⟩ := sound.parent_found found parent
      rw [path_of_child sound found parent] at climbed
      obtain ⟨before, reached, rfl⟩ := Except.map_eq_ok_iff.mp climbed
      have continued : joinPath before n.context ≠ "/" :=
        joinPath_ne (sound.path_ne_empty above reached) (sound.context_ne found) (by decide)
      simp [continued]

/-- Every node of a reachable tree has an absolute path, the replaced ones included. The climb ends
at a root after one turn for each context on the way. The path of a root is its context. Any other
path is that of the parent continued by the context, with a slash between the two unless the parent
is a root whose context is that slash. The whole path is the contexts with slashes between them,
where a root `/` counts as an empty context if there are more. -/
theorem path_law (h : t.Reachable) (found : t.get? id = some n) :
    ∃ root below path, t.Stands id (root :: below) ∧
      t.climb (below.length + 1) (some id) [] = some (.ok (root :: below)) ∧
      t.path id = .ok path ∧
      (n.parent = none → path = n.context) ∧
      (∀ p, n.parent = some p → ∃ m above, t.get? p = some m ∧ t.path p = .ok above ∧
        path = above ++ (if above = "/" then "" else "/") ++ n.context ∧
        (above = "/" ↔ m.parent = none ∧ m.context = "/")) ∧
      path = "/".intercalate ((if root = "/" ∧ below ≠ [] then "" else root) :: below) := by
  have sound := h.sound
  obtain ⟨contexts, stands⟩ := sound.exists_stands found
  obtain ⟨root, below, rfl⟩ := List.exists_cons_of_ne_nil stands.ne_nil
  obtain ⟨named_root, named⟩ : "" ≠ root ∧ "" ∉ below := by
    simpa using stands.empty_not_mem sound
  have climbed : t.path id = .ok (pathOfContexts (root :: below)) := by
    rw [path, stands.lineage_eq sound]
    rfl
  refine ⟨root, below, _, stands, by simpa using stands.climb_eq [], climbed, ?_, ?_,
    pathOfContexts_eq named_root.symm named⟩
  · intro none_above
    exact Except.ok.inj (climbed.symm.trans (path_of_root found none_above))
  · intro p parent
    obtain ⟨m, found_parent⟩ := sound.parent_found found parent
    obtain ⟨above, reached⟩ := sound.exists_path found_parent
    refine ⟨m, above, found_parent, reached, ?_, sound.path_eq_slash_iff found_parent reached⟩
    have continued := path_of_child sound found parent
    rw [reached, climbed] at continued
    rw [← joinPath_eq]
    exact Except.ok.inj continued

/-- A history with slashes in all contexts. The node `a/b` is replaced later, and what was declared
below it is detached with it. -/
def detaching : List Forest.Action :=
  [.plant, .act 0 (.addScope "/"), .act 0 (.addChild ⟨0, 0⟩ "a/b" .scope),
    .act 0 (.addChild ⟨0, 1⟩ "/" .scope), .act 0 (.addChild ⟨0, 2⟩ "/c/" .requiredPresence),
    .act 0 (.addChild ⟨0, 0⟩ "a/b" .optionalPresence)]

def detached : Tree := (Forest.run detaching).trees[0]?.getD (.empty 0)

/-- The last of the detached nodes has a path. The slash that its parent has as a context is
followed by another one, since the parent is no root. -/
theorem path_law_detached : detached.Reachable ∧
    (∃ n, detached.get? ⟨0, 3⟩ = some n ∧ n.parent = some ⟨0, 2⟩) ∧
    detached.path ⟨0, 3⟩ = .ok "/a/b////c/" := by
  have reachable : detached.Reachable := ⟨detaching, by decide +kernel⟩
  have found : detached.get? ⟨0, 3⟩ = some ⟨"/c/", .requiredPresence, some ⟨0, 2⟩, .empty⟩ := by
    decide +kernel
  have above : (detached.path ⟨0, 2⟩).toOption = some "/a/b//" := by decide +kernel
  obtain ⟨-, -, path, -, -, resolved, -, continued, -⟩ := path_law reachable found
  obtain ⟨m, before, -, reached, rfl, -⟩ := continued ⟨0, 2⟩ rfl
  rw [Except.toOption_eq_some_iff.mp above, Except.ok.injEq] at reached
  subst reached
  exact ⟨reachable, ⟨_, found, rfl⟩, resolved⟩

end Tree

end Schematron
