import Mathlib.Data.List.Infix
import Schematron.Assertion

/-!
# What a set literal contains

A text between marks is cut into pieces at the marks, and it occurs in another
one exactly if its pieces are neighbouring pieces of the other. The literal of a
set is such a text: its pieces are those of the values, with one piece that is a
single space between two values.

`finds_iff` says which field values are found in the literal of any set, and
`literal_contains_iff` says it of the texts themselves. The piece between two
values is one that no value has put there, so a field value can be found although
it is not in the set.
-/

namespace Schematron

/-- Pieces with a mark before each of them and one behind the last. -/
def fenced (mark : Char) (pieces : List (List Char)) : List Char :=
  mark :: pieces.flatMap (· ++ [mark])

section Fenced

variable {mark : Char} {piece : List Char} {pieces others : List (List Char)}

theorem fenced_cons (mark : Char) (piece : List Char) (pieces : List (List Char)) :
    fenced mark (piece :: pieces) = mark :: (piece ++ fenced mark pieces) := by
  simp [fenced]

/-- A text between two marks is the text of its pieces. -/
theorem fenced_splitOn (mark : Char) (text : List Char) :
    fenced mark (text.splitOn mark) = mark :: (text ++ [mark]) := by
  induction text with
  | nil => rfl
  | cons c rest ih =>
      rw [List.splitOn_cons_eq_if_modifyHead]
      by_cases same : c = mark
      · rw [if_pos (by simpa using same), fenced_cons, ih, same]
        rfl
      · rw [if_neg (by simpa using same)]
        obtain ⟨piece, pieces, split⟩ := List.exists_cons_of_ne_nil (List.splitOn_ne_nil mark rest)
        rw [split, fenced_cons] at ih
        rw [split, List.modifyHead_cons, fenced_cons, List.cons_append, List.cons.inj ih |>.2]
        rfl

theorem notMem_of_mem_splitOn {text : List Char} (member : piece ∈ text.splitOn mark) :
    mark ∉ piece := by
  induction text generalizing piece with
  | nil =>
      rw [List.splitOn_nil, List.mem_singleton] at member
      simp [member]
  | cons c rest ih =>
      rw [List.splitOn_cons_eq_if_modifyHead] at member
      by_cases same : c = mark
      · rw [if_pos (by simpa using same)] at member
        rcases List.mem_cons.mp member with rfl | later
        · simp
        · exact ih later
      · rw [if_neg (by simpa using same)] at member
        obtain ⟨first, pieces, split⟩ := List.exists_cons_of_ne_nil (List.splitOn_ne_nil mark rest)
        rw [split, List.modifyHead_cons] at member
        rcases List.mem_cons.mp member with rfl | later
        · have clean := ih (split ▸ List.mem_cons_self)
          simpa [Ne.symm same] using clean
        · exact ih (split ▸ List.mem_cons_of_mem _ later)

/-- Two texts that go up to their first mark begin alike only if they are the same there. -/
theorem append_mark_prefix_iff {other rest rest' : List Char} (clean : mark ∉ piece)
    (clean' : mark ∉ other) :
    piece ++ mark :: rest <+: other ++ mark :: rest' ↔ piece = other ∧ rest <+: rest' := by
  induction piece generalizing other with
  | nil =>
      cases other with
      | nil => simp
      | cons c others =>
          have differ : mark ≠ c := fun same => clean' (same ▸ List.mem_cons_self)
          simp [List.cons_prefix_cons, differ]
  | cons c more ih =>
      obtain ⟨differ, clean⟩ : mark ≠ c ∧ mark ∉ more := by simpa using clean
      cases other with
      | nil => simp [List.cons_prefix_cons, Ne.symm differ]
      | cons c' others =>
          obtain ⟨differ', clean'⟩ : mark ≠ c' ∧ mark ∉ others := by simpa using clean'
          simp only [List.cons_append, List.cons_prefix_cons, ih clean clean', List.cons.injEq,
            and_assoc]

/-- Fenced pieces begin a fenced text exactly if they are its first pieces. -/
theorem fenced_prefix_iff (clean : ∀ piece ∈ pieces, mark ∉ piece)
    (clean' : ∀ piece ∈ others, mark ∉ piece) :
    fenced mark pieces <+: fenced mark others ↔ pieces <+: others := by
  induction pieces generalizing others with
  | nil => simp [fenced]
  | cons piece rest ih =>
      obtain ⟨clean_piece, clean_rest⟩ := List.forall_mem_cons.mp clean
      cases others with
      | nil =>
          constructor
          · intro before
            have length := before.length_le
            simp only [fenced, List.flatMap_cons, List.flatMap_nil, List.length_cons,
              List.length_append, List.length_nil] at length
            omega
          · intro before
            cases List.prefix_nil.mp before
      | cons other others =>
          obtain ⟨clean_other, clean_others⟩ := List.forall_mem_cons.mp clean'
          rw [fenced_cons, fenced_cons, List.cons_prefix_cons, List.cons_prefix_cons]
          have after := ih clean_rest clean_others
          simp only [fenced, List.cons_prefix_cons, true_and] at after ⊢
          rw [append_mark_prefix_iff clean_piece clean_other, after]

/-- A text that starts with a mark is not found before the next mark. -/
theorem infix_append_iff {text rest : List Char} (clean : mark ∉ piece) :
    mark :: text <:+: piece ++ rest ↔ mark :: text <:+: rest := by
  induction piece with
  | nil => rfl
  | cons c more ih =>
      obtain ⟨differ, clean⟩ : mark ≠ c ∧ mark ∉ more := by simpa using clean
      rw [List.cons_append, List.infix_cons_iff, List.cons_prefix_cons, ih clean]
      simp [differ]

/-- Fenced pieces occur in a fenced text exactly if they are neighbouring pieces of it. -/
theorem fenced_infix_iff (some_piece : pieces ≠ []) (clean : ∀ piece ∈ pieces, mark ∉ piece)
    (clean' : ∀ piece ∈ others, mark ∉ piece) :
    fenced mark pieces <:+: fenced mark others ↔ pieces <:+: others := by
  induction others with
  | nil =>
      obtain ⟨piece, rest, rfl⟩ := List.exists_cons_of_ne_nil some_piece
      constructor
      · intro inside
        have length := inside.length_le
        simp only [fenced, List.flatMap_cons, List.flatMap_nil, List.length_cons,
          List.length_append, List.length_nil] at length
        omega
      · intro inside
        cases List.infix_nil.mp inside
  | cons other others ih =>
      obtain ⟨clean_other, clean_others⟩ := List.forall_mem_cons.mp clean'
      have first : fenced mark pieces <+: mark :: (other ++ fenced mark others) ↔
          pieces <+: other :: others := by
        rw [← fenced_cons, fenced_prefix_iff clean clean']
      have later : fenced mark pieces <:+: other ++ fenced mark others ↔ pieces <:+: others := by
        rw [← ih clean_others]
        exact infix_append_iff clean_other
      rw [fenced_cons, List.infix_cons_iff, first, later, List.infix_cons_iff]

end Fenced

/-- To stand somewhere in a text is to be an infix of its characters. -/
theorem exists_eq_append_iff {text other : String} :
    (∃ before behind, other = before ++ text ++ behind) ↔ text.toList <:+: other.toList := by
  constructor
  · rintro ⟨before, behind, rfl⟩
    exact ⟨before.toList, behind.toList, by simp⟩
  · rintro ⟨before, behind, joined⟩
    refine ⟨String.ofList before, String.ofList behind, String.toList_inj.mp ?_⟩
    simp [← joined]

namespace ValueSet

/-- The pieces of the literal of a set: those of its values, with a space between two values. -/
def segments (s : ValueSet) : List (List Char) :=
  List.intercalate [[' ']]
    (s.values.map fun value => (backslashed '\'' value).toList.splitOn '_')

variable {s : ValueSet}

theorem literal_cons_cons (value next : String) (rest : List String) :
    (ValueSet.mk (value :: next :: rest)).literal =
      delimited (backslashed '\'' value) ++ " " ++ (ValueSet.mk (next :: rest)).literal := by
  simp [literal, String.intercalate_cons_cons]

theorem segments_cons_cons (value next : String) (rest : List String) :
    (ValueSet.mk (value :: next :: rest)).segments =
      (backslashed '\'' value).toList.splitOn '_' ++ [[' ']] ++
        (ValueSet.mk (next :: rest)).segments := by
  simp [segments]

theorem notMem_of_mem_segments {segment : List Char} (member : segment ∈ s.segments) :
    '_' ∉ segment := by
  obtain ⟨values⟩ := s
  induction values with
  | nil => cases member
  | cons value rest ih =>
      cases rest with
      | nil =>
          have inside : segment ∈ (backslashed '\'' value).toList.splitOn '_' := by
            simpa [segments] using member
          exact notMem_of_mem_splitOn inside
      | cons next rest =>
          rw [segments_cons_cons, List.mem_append, List.mem_append, List.mem_singleton] at member
          rcases member with (inside | rfl) | later
          · exact notMem_of_mem_splitOn inside
          · decide
          · exact ih later

theorem toList_delimited (value : String) :
    (delimited value).toList = '_' :: (value.toList ++ ['_']) := by
  simp [delimited]

/-- The literal of a set that lists something is its segments between delimiters. -/
theorem toList_literal (listed : s.values ≠ []) : s.literal.toList = fenced '_' s.segments := by
  obtain ⟨values⟩ := s
  induction values with
  | nil => exact absurd rfl listed
  | cons value rest ih =>
      cases rest with
      | nil => simp [literal, segments, toList_delimited, fenced_splitOn]
      | cons next rest =>
          have tail := ih (by simp)
          rw [literal_cons_cons, String.toList_append, String.toList_append, tail,
            toList_delimited, ← fenced_splitOn, segments_cons_cons]
          simp [fenced]

/-- A field value is found exactly if its pieces are neighbouring segments of the literal. -/
theorem finds_iff (s : ValueSet) (value : String) :
    s.finds value = true ↔ value.toList.splitOn '_' <:+: s.segments := by
  have pieces : (delimited value).toList = fenced '_' (value.toList.splitOn '_') := by
    rw [toList_delimited, fenced_splitOn]
  rw [finds, occursIn_iff]
  by_cases listed : s.values = []
  · have nothing : s.literal.toList = [] := by simp [literal, listed]
    have no_segments : s.segments = [] := by simp [segments, listed]
    rw [nothing, no_segments, List.infix_nil, List.infix_nil, toList_delimited]
    simp
  · rw [toList_literal listed, pieces]
    exact fenced_infix_iff (List.splitOn_ne_nil _ _) (fun _ => notMem_of_mem_splitOn)
      fun _ => notMem_of_mem_segments

/-- The exact extent of a set. Its literal holds the delimited field value exactly if the pieces of
that value, cut at the delimiters, are a contiguous run of the segments. The values of the set and
the field value may be any texts: a run can lie inside of one value, go from one value into the next
ones, or be nothing but the space between two values. -/
theorem literal_contains_iff (s : ValueSet) (value : String) :
    (∃ before behind, s.literal = before ++ delimited value ++ behind) ↔
      ∃ before behind, s.segments = before ++ value.toList.splitOn '_' ++ behind := by
  have found := finds_iff s value
  rw [finds, occursIn_iff] at found
  rw [exists_eq_append_iff, found]
  constructor
  · rintro ⟨before, behind, joined⟩
    exact ⟨before, behind, joined.symm⟩
  · rintro ⟨before, behind, joined⟩
    exact ⟨before, behind, joined.symm⟩

/-- A part of a value is found, and so is a run into the next value. A listed value with a quote is
not, because the literal has a backslash before the quote. -/
example : (ValueSet.mk ["ADMIN_USER", "it's"]).finds "USER" = true ∧
    (ValueSet.mk ["ADMIN_USER", "it's"]).finds "USER_ _it\\'s" = true ∧
    (ValueSet.mk ["ADMIN_USER", "it's"]).finds "it's" = false := by
  decide

end ValueSet

end Schematron
