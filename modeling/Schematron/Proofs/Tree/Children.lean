import Mathlib.Data.List.Basic
import Mathlib.Data.List.Sort
import Mathlib.Data.String.Basic
import Schematron.Tree.Children

/-!
# Children as a finite map

The entries of a node's children are exactly the pairs that are found by their
contexts, and the order of the contexts leaves only one way to list them. A map
of children that is listed in any other order therefore gives the same entries
once they are sorted by their contexts.
-/

namespace Schematron

namespace Children

/-- The entries of an ascending list are found by their contexts. -/
theorem mem_iff_lookup {entries : List (String × NodeId)} (ascending : Ascending entries)
    {context : String} {id : NodeId} :
    (context, id) ∈ entries ↔ entries.lookup context = some id := by
  induction entries with
  | nil => simp
  | cons entry rest ih =>
      obtain ⟨other, otherId⟩ := entry
      obtain ⟨above, below⟩ := List.pairwise_cons.mp ascending
      rw [List.lookup_cons, List.mem_cons, ih below, Prod.mk.injEq]
      by_cases same : context = other
      · subst same
        -- The contexts behind this entry are larger, so it is the only one of its context.
        have absent : rest.lookup context ≠ some id := by
          intro found
          exact String.lt_irrefl context (above _ ((ih below).mpr found))
        simp [absent, eq_comm]
      · have differ : (context == other) = false := by simpa using same
        simp [differ, same]

/-- An entry is a child that is found by its context. -/
theorem mem_entries_iff (cs : Children) {context : String} {id : NodeId} :
    (context, id) ∈ cs.entries ↔ cs.get? context = some id :=
  mem_iff_lookup cs.ascending

/-- Ascending lists with the same entries are equal. -/
theorem eq_of_mem_iff {entries others : List (String × NodeId)}
    (ascending : Ascending entries) (ascending' : Ascending others)
    (same : ∀ entry, entry ∈ entries ↔ entry ∈ others) : entries = others := by
  have nodup {l : List (String × NodeId)} (h : Ascending l) : l.Nodup := by
    refine List.Pairwise.imp ?_ h
    rintro a b lt rfl
    exact String.lt_irrefl a.1 lt
  have perm := (List.perm_ext_iff_of_nodup (nodup ascending) (nodup ascending')).mpr same
  refine perm.eq_of_pairwise (fun a b _ _ lt gt => ?_) ascending ascending'
  exact absurd (String.lt_trans lt gt) (String.lt_irrefl a.1)

/-- Entries with smaller contexts, at most one with a given context and entries with larger contexts
are in order. -/
theorem ascending_around {entries : List (String × NodeId)} (ascending : Ascending entries)
    (context : String) (id : Option NodeId) :
    Ascending (entries.filter (·.1 < context) ++ (id.map (context, ·)).toList ++
      entries.filter (context < ·.1)) := by
  refine List.pairwise_append.mpr ⟨List.pairwise_append.mpr ⟨ascending.filter _, ?_, ?_⟩,
    ascending.filter _, ?_⟩
  · cases id <;> simp
  · intro a below b here
    cases id with
    | none => cases here
    | some id =>
        rw [List.mem_singleton.mp here]
        simpa using (List.mem_filter.mp below).2
  · intro a front b above
    have larger : context < b.1 := by simpa using (List.mem_filter.mp above).2
    rcases List.mem_append.mp front with below | here
    · exact String.lt_trans (by simpa using (List.mem_filter.mp below).2) larger
    · cases id with
      | none => cases here
      | some id => rwa [List.mem_singleton.mp here]

/-- The entries in front of a context, at it and behind it. -/
theorem entries_around (cs : Children) (context : String) : cs.entries =
    cs.entries.filter (·.1 < context) ++ ((cs.get? context).map (context, ·)).toList ++
      cs.entries.filter (context < ·.1) := by
  refine eq_of_mem_iff cs.ascending (ascending_around cs.ascending context _) ?_
  rintro ⟨other, id⟩
  simp only [List.mem_append, List.mem_filter, decide_eq_true_eq, Option.mem_toList,
    Option.map_eq_some_iff, Prod.mk.injEq, mem_entries_iff]
  rcases lt_trichotomy other context with below | rfl | above
  · simp only [below, below.ne', below.not_gt, and_true, and_false, false_and, exists_false,
      or_false]
  · simp only [lt_irrefl, and_false, true_and, exists_eq_right, false_or, or_false]
  · simp only [above, above.ne, above.not_gt, and_true, and_false, false_and, exists_false,
      false_or]

/-- A child that is added stands between the others, and none of them moves. -/
theorem entries_insert (cs : Children) (context : String) (id : NodeId) :
    (cs.insert context id).entries = cs.entries.filter (·.1 < context) ++
      (context, id) :: cs.entries.filter (context < ·.1) := by
  have around := ascending_around cs.ascending context (some id)
  rw [List.append_assoc] at around
  refine eq_of_mem_iff (cs.insert context id).ascending around ?_
  rintro ⟨other, otherId⟩
  simp only [List.mem_append, List.mem_cons, List.mem_filter, decide_eq_true_eq, Prod.mk.injEq,
    mem_entries_iff, get?_insert]
  rcases lt_trichotomy other context with below | rfl | above
  · simp only [below, below.ne, below.not_gt, if_false, and_true, and_false, false_and, or_false]
  · simp only [lt_irrefl, if_true, and_false, true_and, false_or, or_false, Option.some.injEq,
      eq_comm]
  · simp only [above, above.ne', above.not_gt, if_false, and_true, and_false, false_and, false_or]

/-- Entries in the order of their contexts. -/
def sortByContext (entries : List (String × NodeId)) : List (String × NodeId) :=
  entries.mergeSort fun a b => a.1 ≤ b.1

/-- However the children are listed, sorting them by their contexts gives their entries. -/
theorem sortByContext_of_perm {cs : Children} {listed : List (String × NodeId)}
    (perm : listed.Perm cs.entries) : sortByContext listed = cs.entries := by
  have sorted : (sortByContext listed).Pairwise fun a b => a.1 ≤ b.1 := by
    have sorted := @List.pairwise_mergeSort _ (fun a b : String × NodeId => decide (a.1 ≤ b.1))
      (by intro a b c ab bc; simp only [decide_eq_true_eq] at *; exact String.le_trans ab bc)
      (by intro a b; simpa using String.le_total a.1 b.1) listed
    simpa [sortByContext] using sorted
  have ascending : cs.entries.Pairwise fun a b => a.1 ≤ b.1 :=
    cs.ascending.imp fun lt => le_of_lt lt
  have perm' : (sortByContext listed).Perm cs.entries :=
    (List.mergeSort_perm listed _).trans perm
  refine perm'.eq_of_pairwise (fun a b ha hb ab ba => ?_) sorted ascending
  -- A context has one child, so entries of the same context are the same entry.
  have context : a.1 = b.1 := String.le_antisymm ab ba
  have found := (mem_entries_iff cs).mp (perm'.mem_iff.mp ha)
  have found' := (mem_entries_iff cs).mp hb
  rw [context, found'] at found
  exact Prod.ext context (Option.some.inj found).symm

end Children

end Schematron
