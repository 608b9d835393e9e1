/-!
# Nodes by their contexts

The identifiers of the nodes of a tree, and the children of one node: a finite
map from contexts to identifiers. Its entries are kept in ascending order of the
contexts, so they do not show in which order the children were declared.
-/

namespace Schematron

structure NodeId where
  /-- The tag of the tree that issued it. -/
  tag : UInt32
  /-- The place of the node in its tree. -/
  index : Nat
  deriving DecidableEq, Repr

namespace NodeId

/-- The identifier as it is displayed, without the tag. -/
def display (id : NodeId) : String := "#" ++ toString id.index

/-- The order of identifiers: by the tag, then by the place. -/
def compare (a b : NodeId) : Ordering :=
  (Ord.compare a.tag b.tag).then (Ord.compare a.index b.index)

end NodeId

/-- Entries of children in ascending order of their contexts, which makes the contexts differ. -/
abbrev Ascending (entries : List (String × NodeId)) : Prop :=
  entries.Pairwise fun a b => a.1 < b.1

/-- The children of a node: one for each context, in ascending order of the contexts. -/
structure Children where
  entries : List (String × NodeId)
  ascending : Ascending entries
  deriving DecidableEq, Repr

namespace Children

def empty : Children := ⟨[], .nil⟩

def isEmpty (cs : Children) : Bool := cs.entries.isEmpty

def size (cs : Children) : Nat := cs.entries.length

def get? (cs : Children) (context : String) : Option NodeId := cs.entries.lookup context

/-- The entries with one more, in place of the entry of the same context if there is one. -/
def insertEntry (context : String) (id : NodeId) :
    List (String × NodeId) → List (String × NodeId)
  | [] => [(context, id)]
  | (other, otherId) :: rest =>
    if context < other then (context, id) :: (other, otherId) :: rest
    else if context = other then (context, id) :: rest
    else (other, otherId) :: insertEntry context id rest

/-- Every entry is the new one or was there before. -/
theorem eq_or_mem_of_mem_insertEntry {context : String} {id : NodeId}
    {entries : List (String × NodeId)} {entry : String × NodeId}
    (h : entry ∈ insertEntry context id entries) : entry = (context, id) ∨ entry ∈ entries := by
  fun_induction insertEntry context id entries with
  | case1 => exact List.mem_cons.1 h
  | case2 => exact List.mem_cons.1 h
  | case3 => exact (List.mem_cons.1 h).imp_right (.tail _)
  | case4 other otherId rest _ _ ih =>
    rcases List.mem_cons.1 h with rfl | h
    · exact .inr (.head rest)
    · exact (ih h).imp_right (.tail _)

/-- A new entry goes where the order asks for it. -/
theorem ascending_insertEntry (context : String) (id : NodeId)
    {entries : List (String × NodeId)} (h : Ascending entries) :
    Ascending (insertEntry context id entries) := by
  induction entries with
  | nil => simp [insertEntry]
  | cons entry rest ih =>
    obtain ⟨other, otherId⟩ := entry
    obtain ⟨above, h⟩ := List.pairwise_cons.1 h
    simp only [insertEntry]
    split
    · next lt =>
      refine .cons (fun later mem => ?_) (.cons above h)
      rcases List.mem_cons.1 mem with rfl | mem
      · exact lt
      · exact String.lt_trans lt (above later mem)
    · split
      · next _ eq => exact .cons (eq ▸ above) h
      · next not_lt ne =>
        refine .cons (fun later mem => ?_) (ih h)
        rcases eq_or_mem_of_mem_insertEntry mem with rfl | mem
        · exact String.not_le.1 fun le => ne (String.le_antisymm le (String.not_lt.1 not_lt))
        · exact above later mem

/-- The children with one more, in place of the child of the same context if there is one. -/
def insert (cs : Children) (context : String) (id : NodeId) : Children :=
  ⟨insertEntry context id cs.entries, ascending_insertEntry context id cs.ascending⟩

@[simp] theorem get?_empty (context : String) : empty.get? context = none := rfl

theorem lookup_insertEntry (context other : String) (id : NodeId)
    (entries : List (String × NodeId)) :
    (insertEntry context id entries).lookup other =
      if other = context then some id else entries.lookup other := by
  have key (a b : String) (rest : List (String × NodeId)) (i : NodeId) :
      ((a, i) :: rest).lookup b = if b = a then some i else rest.lookup b := by
    by_cases h : b = a
    · simp [h]
    · have hb : (b == a) = false := by simpa using h
      simp [List.lookup_cons, hb, h]
  induction entries with
  | nil => simp [insertEntry, key]
  | cons entry rest ih =>
    obtain ⟨c, i⟩ := entry
    simp only [insertEntry]
    split
    · simp [key]
    · split
      · next _ heq =>
        subst heq
        by_cases h : other = context <;> simp [key, h]
      · next _ hne =>
        by_cases h : other = context
        · subst h
          simp [key, ih, hne]
        · simp [key, ih, h]

/-- A child that was added is found under its context, and the others are found as before. -/
@[simp] theorem get?_insert (cs : Children) (context other : String) (id : NodeId) :
    (cs.insert context id).get? other = if other = context then some id else cs.get? other :=
  lookup_insertEntry context other id cs.entries

end Children

end Schematron
