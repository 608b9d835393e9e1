import Schematron.Proofs.Assertion.SetLiteral

/-!
# Whole values in set tests

`SetTest.holds?` reads the test of a set constraint as XPath does, where a
literal ends at the next single quote, and evaluates it for a field value. For
values without quotes and delimiters it is the search that `finds` describes.

The search is meant to find whole values only. It does so for every field value
without a delimiter, apart from a single space: the literal `_a_ _b_` contains
`_ _`, so a set of two values matches a space that it does not list.
`Straddles` is what is found in excess, and `matches_whole_values` states the
exact extent of both tests.
-/

namespace List

theorem mem_intersperse_iff {α : Type} {a between : α} {l : List α} :
    a ∈ l.intersperse between ↔ a ∈ l ∨ a = between ∧ 2 ≤ l.length := by
  induction l with
  | nil => simp
  | cons first rest ih =>
      cases rest with
      | nil => simp
      | cons next rest =>
          have two : 2 ≤ (first :: next :: rest).length := by simp
          rw [intersperse_cons_cons, mem_cons, mem_cons, ih,
            @mem_cons _ first (next :: rest)]
          constructor
          · rintro (same | same | later | ⟨same, -⟩)
            · exact .inl (.inl same)
            · exact .inr ⟨same, two⟩
            · exact .inl (.inr later)
            · exact .inr ⟨same, two⟩
          · rintro ((same | later) | ⟨same, -⟩)
            · exact .inl same
            · exact .inr (.inr (.inl later))
            · exact .inr (.inl same)

end List

namespace Schematron

namespace SetTest

/-- What comes behind the beginning of a text. -/
def past (beginning text : List Char) : Option (List Char) :=
  if beginning.isPrefixOf text then some (text.drop beginning.length) else none

/-- The literal that is searched for the value of a context, if the text is such a search. -/
def literal? (context : String) (text : List Char) : Option (List Char) :=
  (past "contains('".toList text).bind fun rest =>
    if rest.dropWhile (· ≠ '\'') = ("', concat('_', " ++ context ++ ", '_'))").toList then
      some (rest.takeWhile (· ≠ '\''))
    else none

/-- Whether the test of a set constraint holds of a field value, if the text is such a test: a
search for the value, or the negation of one. -/
def holds? (context test value : String) : Option Bool :=
  match literal? context test.toList with
  | some literal => some (occursIn (delimited value).toList literal)
  | none =>
    (past "not(".toList test.toList).bind fun rest =>
      if rest.getLast? = some ')' then
        (literal? context rest.dropLast).map fun literal =>
          !occursIn (delimited value).toList literal
      else none

theorem past_append (beginning rest : List Char) :
    past beginning (beginning ++ rest) = some rest := by
  rw [past, if_pos (List.isPrefixOf_iff_prefix.mpr (List.prefix_append _ _)), List.drop_left]

end SetTest

namespace ValueSet

/-- No value holds a delimiter or a single quote. -/
def NoDelimiterOrQuote (s : ValueSet) : Prop :=
  ∀ value ∈ s.values, '_' ∉ value.toList ∧ '\'' ∉ value.toList

/-- A field value is found across the boundary of two listed values: it is the space between them,
or it has delimiters, and between these stand neighbouring values with a space between any two. -/
def Straddles (s : ValueSet) (value : String) : Prop :=
  value = " " ∧ 2 ≤ s.values.length ∨
    '_' ∈ value.toList ∧
      value.toList.splitOn '_' <:+: (s.values.map String.toList).intersperse [' ']

variable {s : ValueSet}

theorem toList_backslashed_of_notMem {mark : Char} {value : String} (clean : mark ∉ value.toList) :
    (backslashed mark value).toList = value.toList := by
  rw [backslashed, String.toList_ofList]
  have each : ∀ c ∈ value.toList, (if c = mark then ['\\', c] else [c]) = [c] := by
    intro c member
    refine if_neg ?_
    rintro rfl
    exact clean member
  rw [List.flatMap_congr each, List.flatMap_singleton']

/-- Without delimiters and quotes the segments are the values, with a space between two of them. -/
theorem segments_of_noDelimiterOrQuote (clean : s.NoDelimiterOrQuote) :
    s.segments = (s.values.map String.toList).intersperse [' '] := by
  obtain ⟨values⟩ := s
  induction values with
  | nil => rfl
  | cons value rest ih =>
      obtain ⟨⟨whole, unquoted⟩, clean_rest⟩ := List.forall_mem_cons.mp clean
      have piece : (backslashed '\'' value).toList.splitOn '_' = [value.toList] := by
        rw [toList_backslashed_of_notMem unquoted, List.splitOn_eq_singleton whole]
      cases rest with
      | nil => simp [segments, piece]
      | cons next rest =>
          rw [segments_cons_cons, piece, ih clean_rest]
          rfl

/-- What is found in the literal is then the values, and what straddles them. -/
theorem finds_of_noDelimiterOrQuote (clean : s.NoDelimiterOrQuote) (value : String) :
    s.finds value = true ↔ value ∈ s.values ∨ s.Straddles value := by
  rw [finds_iff, segments_of_noDelimiterOrQuote clean, Straddles]
  by_cases marked : '_' ∈ value.toList
  · have unlisted : value ∉ s.values := fun listed => (clean value listed).1 marked
    have no_space : value ≠ " " := by
      rintro rfl
      revert marked
      decide
    simp [marked, unlisted, no_space]
  · have space : value.toList = [' '] ↔ value = " " := by
      rw [← String.toList_inj]
      rfl
    rw [List.splitOn_eq_singleton marked, List.singleton_infix_iff, List.mem_intersperse_iff,
      List.mem_map_of_injective (fun _ _ => String.toList_inj.mp), List.length_map, space]
    simp [marked]

theorem notMem_literal (clean : s.NoDelimiterOrQuote) : '\'' ∉ s.literal.toList := by
  by_cases listed : s.values = []
  · simp [literal, listed]
  · rw [toList_literal listed, segments_of_noDelimiterOrQuote clean, fenced, List.mem_cons,
      List.mem_flatMap]
    rintro (impossible | ⟨segment, member, inside⟩)
    · cases impossible
    · rcases List.mem_intersperse_iff.mp member with listed | ⟨rfl, -⟩
      · obtain ⟨value, inside_set, rfl⟩ := List.mem_map.mp listed
        have clean := (clean value inside_set).2
        simp [clean] at inside
      · simp at inside

/-- The test of a set is read as a search of its literal if no quote ends that early. -/
theorem literal?_test (clean : '\'' ∉ s.literal.toList) (context : String) :
    SetTest.literal? context (s.test context).toList = some s.literal.toList := by
  have unquoted : ∀ c ∈ s.literal.toList, decide (c ≠ '\'') = true := by
    intro c member
    simp only [decide_eq_true_eq]
    rintro rfl
    exact clean member
  have text : (s.test context).toList = "contains('".toList ++
      (s.literal.toList ++ ("', concat('_', " ++ context ++ ", '_'))").toList) := by
    simp [test]
  have tail : ("', concat('_', " ++ context ++ ", '_'))").toList =
      '\'' :: (", concat('_', " ++ context ++ ", '_'))").toList := by
    simp
  rw [SetTest.literal?, text, SetTest.past_append, Option.bind_some,
    List.dropWhile_append_of_pos unquoted, List.takeWhile_append_of_pos unquoted, tail]
  simp

end ValueSet

namespace SetTest

open ValueSet

variable {s : ValueSet}

theorem holds?_of_notMem (clean : '\'' ∉ s.literal.toList) (context value : String) :
    holds? context (s.test context) value = some (s.finds value) := by
  rw [holds?, literal?_test clean]
  rfl

theorem holds?_not_of_notMem (clean : '\'' ∉ s.literal.toList) (context value : String) :
    holds? context ("not(" ++ s.test context ++ ")") value = some (!s.finds value) := by
  have text : ("not(" ++ s.test context ++ ")").toList =
      "not(".toList ++ ((s.test context).toList ++ [')']) := by
    simp
  have other : literal? context ("not(".toList ++ ((s.test context).toList ++ [')'])) = none := rfl
  rw [holds?, text, other]
  simp only
  rw [past_append, Option.bind_some, List.getLast?_concat, if_pos rfl, List.dropLast_concat,
    literal?_test clean]
  rfl

theorem holds?_test (clean : s.NoDelimiterOrQuote) (context value : String) :
    holds? context (s.test context) value = some (s.finds value) :=
  holds?_of_notMem (notMem_literal clean) context value

theorem holds?_not_test (clean : s.NoDelimiterOrQuote) (context value : String) :
    holds? context ("not(" ++ s.test context ++ ")") value = some (!s.finds value) :=
  holds?_not_of_notMem (notMem_literal clean) context value

/-- A set of values without delimiters and quotes finds its values and what straddles them, and
nothing else. The test that asks for a value of the set holds of exactly these field values, and
the test that forbids the values of the set holds of exactly the others. -/
theorem matches_whole_values (clean : s.NoDelimiterOrQuote) (context value : String) :
    (s.finds value = true ↔ value ∈ s.values ∨ s.Straddles value) ∧
    (∃ a, Assertion.ofKind? context (.setInclusion s) = some a ∧
      ∃ holds, holds? context a.test value = some holds ∧
        (holds = true ↔ value ∈ s.values ∨ s.Straddles value)) ∧
    ∃ a, Assertion.ofKind? context (.setExclusion s) = some a ∧
      ∃ holds, holds? context a.test value = some holds ∧
        (holds = true ↔ ¬ (value ∈ s.values ∨ s.Straddles value)) := by
  have found := finds_of_noDelimiterOrQuote clean value
  refine ⟨found, ⟨_, rfl, s.finds value, holds?_test clean context value, found⟩,
    ⟨_, rfl, !s.finds value, holds?_not_test clean context value, ?_⟩⟩
  rw [← found]
  cases s.finds value <;> simp

/-- The values `a` and `b`, of which a space is neither. -/
theorem matches_whole_values_space :
    (ValueSet.mk ["a", "b"]).NoDelimiterOrQuote ∧ " " ∉ (ValueSet.mk ["a", "b"]).values ∧
      (ValueSet.mk ["a", "b"]).finds " " = true ∧
      ∃ a, Assertion.ofKind? "c" (.setInclusion ⟨["a", "b"]⟩) = some a ∧
        holds? "c" a.test " " = some true := by
  have clean : (ValueSet.mk ["a", "b"]).NoDelimiterOrQuote := by simp [NoDelimiterOrQuote]
  obtain ⟨found, ⟨a, asserted, holds, evaluated, exact_extent⟩, -⟩ :=
    matches_whole_values clean "c" " "
  have straddles : (ValueSet.mk ["a", "b"]).Straddles " " := .inl ⟨rfl, by simp⟩
  refine ⟨clean, by decide, found.mpr (.inr straddles), a, asserted, ?_⟩
  rw [evaluated, exact_extent.mpr (.inr straddles)]

/-- Values without delimiters and quotes are not enough for whole values to be matched. -/
theorem not_only_listed_values :
    ¬ ∀ s : ValueSet, s.NoDelimiterOrQuote →
      ∀ value, (s.finds value = true ↔ value ∈ s.values) := by
  intro only_listed
  have listed := (only_listed ⟨["a", "b"]⟩ (by simp [NoDelimiterOrQuote]) " ").mp (by decide)
  revert listed
  decide

end SetTest

end Schematron
