import Schematron.Proofs.Except
import Schematron.Proofs.Tree.Arena
import Schematron.Tree.Path

/-!
# Absolute paths of sound trees

In a sound tree every node has an absolute path: the climb along the parents
meets nodes of the tree only and ends at a root. The path of a child is the path
of its parent continued by its context.

Contexts are joined with slashes, and the beginning of a path decides whether a
slash stands behind it, because a path that was continued is no single slash
(`foldl_joinPath`).
-/

namespace Schematron

theorem joinPath_eq (path context : String) :
    joinPath path context = path ++ (if path = "/" then "" else "/") ++ context := by
  rw [joinPath]
  split <;> simp

/-- A path that was continued has two characters at least. -/
theorem joinPath_ne {path context other : String} (starts : path ≠ "") (named : context ≠ "")
    (short : other.length ≤ 1) : joinPath path context ≠ other := by
  have path_pos : path.length ≠ 0 := fun none => starts (String.length_eq_zero_iff.mp none)
  have context_pos : context.length ≠ 0 := fun none => named (String.length_eq_zero_iff.mp none)
  rintro rfl
  rw [joinPath_eq, String.length_append, String.length_append] at short
  omega

/-- Contexts continue a path by what they spell with slashes between them. -/
theorem foldl_joinPath {path : String} {way : List String} (starts : path ≠ "")
    (some_below : way ≠ []) (named : "" ∉ way) : way.foldl joinPath path =
      path ++ (if path = "/" then "" else "/") ++ "/".intercalate way := by
  induction way generalizing path with
  | nil => exact absurd rfl some_below
  | cons context rest ih =>
      rw [List.mem_cons, not_or] at named
      have named_first : context ≠ "" := fun none => named.1 none.symm
      rw [List.foldl_cons]
      by_cases last : rest = []
      · rw [last, List.foldl_nil, String.intercalate_singleton, joinPath_eq]
      · have continued : joinPath path context ≠ "" := joinPath_ne starts named_first (by decide)
        have no_slash : joinPath path context ≠ "/" := joinPath_ne starts named_first (by decide)
        rw [ih continued last named.2, if_neg no_slash, joinPath_eq,
          String.intercalate_cons_of_ne_nil last]
        simp only [String.append_assoc]

theorem pathOfContexts_concat {contexts : List String} (some_above : contexts ≠ [])
    (context : String) :
    pathOfContexts (contexts ++ [context]) = joinPath (pathOfContexts contexts) context := by
  cases contexts with
  | nil => exact absurd rfl some_above
  | cons root rest => simp [pathOfContexts]

namespace Tree

variable {t : Tree} {id p : NodeId} {n : Node}

theorem get?_of_issued (tag : id.tag = t.tag) (inside : id.index < t.size) :
    ∃ n, t.get? id = some n := by
  rw [get?, if_pos tag]
  exact ⟨_, Array.getElem?_eq_getElem inside⟩

namespace Sound

/-- The parent of a node is a node. -/
theorem parent_found (h : t.Sound) (found : t.get? id = some n) (parent : n.parent = some p) :
    ∃ m, t.get? p = some m := by
  obtain ⟨tag, earlier⟩ := h.parent_earlier found parent
  exact get?_of_issued tag (Nat.lt_trans earlier (issued_of_get? found).2)

/-- What a parent hands down to its children holds of every node, if it holds of the roots. -/
theorem up_induction (h : t.Sound) {motive : NodeId → Prop}
    (root : ∀ id n, t.get? id = some n → n.parent = none → motive id)
    (child : ∀ id n p, t.get? id = some n → n.parent = some p → motive p → motive id)
    (id : NodeId) (n : Node) (found : t.get? id = some n) : motive id := by
  generalize place : id.index = index
  induction index using Nat.strongRecOn generalizing id n with
  | ind index ih =>
      cases parent : n.parent with
      | none => exact root id n found parent
      | some p =>
          obtain ⟨m, above⟩ := h.parent_found found parent
          have earlier := (h.parent_earlier found parent).2
          exact child id n p found parent (ih p.index (place ▸ earlier) p m above rfl)

end Sound

theorem lineage_of_root (found : t.get? id = some n) (root : n.parent = none) :
    t.lineage id = .ok [n.context] := by
  rw [lineage, node_eq_ok_iff.mpr found]
  simp only [Except.bind, bind, root, pure, Except.pure]

theorem lineage_of_child (h : t.Sound) (found : t.get? id = some n) (parent : n.parent = some p) :
    t.lineage id = (t.lineage p).map (· ++ [n.context]) := by
  have earlier := (h.parent_earlier found parent).2
  rw [lineage, node_eq_ok_iff.mpr found]
  simp only [Except.bind, bind, parent, dif_pos earlier, pure, Except.pure]
  cases t.lineage p <;> rfl

theorem lineage_ne_nil {contexts : List String} (climbed : t.lineage id = .ok contexts) :
    contexts ≠ [] := by
  rw [lineage] at climbed
  cases found : t.node id with
  | error e => simp [found, bind, Except.bind] at climbed
  | ok n =>
      simp only [found, bind, Except.bind, pure, Except.pure] at climbed
      split at climbed
      · cases climbed
        simp
      · split at climbed
        · split at climbed
          · cases climbed
          · cases climbed
            simp
        · cases climbed

theorem path_of_root (found : t.get? id = some n) (root : n.parent = none) :
    t.path id = .ok n.context := by
  rw [path, lineage_of_root found root]
  rfl

/-- The path of a child continues the path of its parent. -/
theorem path_of_child (h : t.Sound) (found : t.get? id = some n) (parent : n.parent = some p) :
    t.path id = (t.path p).map (joinPath · n.context) := by
  rw [path, path, lineage_of_child h found parent]
  cases climbed : t.lineage p with
  | error e => rfl
  | ok contexts =>
      simp only [Except.map]
      rw [pathOfContexts_concat (lineage_ne_nil climbed)]

/-- Every node of a sound tree has an absolute path. -/
theorem Sound.exists_path (h : t.Sound) (found : t.get? id = some n) :
    ∃ path, t.path id = .ok path := by
  refine h.up_induction (motive := fun id => ∃ path, t.path id = .ok path) ?_ ?_ id n found
  · intro id n found root
    exact ⟨n.context, path_of_root found root⟩
  · rintro id n p found parent ⟨path, above⟩
    refine ⟨joinPath path n.context, ?_⟩
    rw [path_of_child h found parent, above]
    rfl

theorem Sound.path_ne_empty (h : t.Sound) (found : t.get? id = some n) {path : String}
    (climbed : t.path id = .ok path) : path ≠ "" := by
  refine h.up_induction (motive := fun id => ∀ path, t.path id = .ok path → path ≠ "")
    ?_ ?_ id n found path climbed
  · intro id n found root path climbed
    rw [path_of_root found root] at climbed
    cases climbed
    exact h.context_ne found
  · intro id n p found parent above path climbed
    rw [path_of_child h found parent] at climbed
    obtain ⟨before, reached, rfl⟩ := Except.map_eq_ok_iff.mp climbed
    exact joinPath_ne (above before reached) (h.context_ne found) (by decide)

end Tree

end Schematron
