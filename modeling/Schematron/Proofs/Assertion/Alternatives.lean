import Mathlib.Logic.Function.Basic
import Schematron.Assertion

/-!
# The set that a message names

The message of a set constraint lists the values in quotes. A quote in a value gets a
backslash before it, but a backslash does not, so `"\"` can be the value `\` or the
beginning of a longer one, and what stands behind it can be a connector or a part of
the value. A reader that goes from the front has to try both.

From the end there is no choice. A quote that opens a value stands at the front of the
list or behind the space of a connector, never behind a backslash, while a quote that
belongs to a value always does. `readBack_alternatives` states that the values are read
back in this way, whatever they hold, and `message_identifies_set` what this means for
two constraints with the same message.
-/

namespace Schematron

namespace ValueSet

def quoted (value : String) : String := "\"" ++ backslashed '"' value ++ "\""

/-- A character of a listed value for a reader that comes from the end. -/
def turned (c : Char) : List Char := if c = '"' then ['"', '\\'] else [c]

/-- Reads a list of alternatives from its end, with the values that were read before. Inside a
value there are also its characters that were read before. -/
def readBack (values : List String) : Option (List Char) → List Char → List String
  | none, [] => values
  | none, c :: rest => if c = '"' then readBack values (some []) rest else readBack values none rest
  | some _, [] => values
  | some value, '"' :: '\\' :: rest => readBack values (some ('"' :: value)) rest
  | some value, '"' :: rest => readBack (String.ofList value :: values) none rest
  | some value, c :: rest => readBack values (some (c :: value)) rest

variable {values : List String} {rest : List Char}

theorem reverse_quoted (value : String) : (quoted value).toList.reverse =
    '"' :: (value.toList.reverse.flatMap turned ++ ['"']) := by
  have each : List.reverse ∘ (fun c => if c = '"' then ['\\', c] else [c]) = turned := by
    funext c
    by_cases quote : c = '"' <;> simp [turned, quote]
  simp [quoted, backslashed, List.reverse_flatMap, each]

/-- The characters of a value are read up to the quote that opens it. -/
theorem readBack_inside (behind : List Char) (clean : rest.head? ≠ some '\\') (cs : List Char) :
    readBack values (some behind) (cs.flatMap turned ++ '"' :: rest) =
      readBack (String.ofList (cs.reverse ++ behind) :: values) none rest := by
  induction cs generalizing behind with
  | nil =>
      -- There is no backslash before the quote that opens the value, so it is not one of its own.
      rw [List.flatMap_nil, List.nil_append, readBack]
      · rfl
      · rintro more rfl
        exact clean rfl
  | cons c cs ih =>
      by_cases quote : c = '"'
      · subst quote
        have escaped := ih ('"' :: behind)
        simpa [readBack, turned] using escaped
      · have plain := ih (c :: behind)
        simpa [readBack, turned, quote] using plain

theorem readBack_quoted (value : String) (clean : rest.head? ≠ some '\\') :
    readBack values none ((quoted value).toList.reverse ++ rest) =
      readBack (value :: values) none rest := by
  have inside := @readBack_inside values rest [] clean value.toList.reverse
  rw [List.reverse_reverse, List.append_nil, String.ofList_toList] at inside
  rw [reverse_quoted]
  simpa [readBack] using inside

/-- What stands between two values: it ends in a space, and there is no quote in it. -/
structure Parting (gap : String) : Prop where
  unquoted : '"' ∉ gap.toList
  spaced : gap.toList.getLast? = some ' '

theorem readBack_unquoted {gap : List Char} (unquoted : '"' ∉ gap) :
    readBack values none (gap ++ rest) = readBack values none rest := by
  induction gap with
  | nil => rfl
  | cons c gap ih =>
      obtain ⟨differ, unquoted⟩ := not_or.mp (mt List.mem_cons.mpr unquoted)
      rw [List.cons_append, readBack, if_neg (Ne.symm differ), ih unquoted]

/-- A value and what stands before it. -/
theorem Parting.readBack_append {gap : String} (parting : Parting gap) (value : String) :
    readBack values none ((gap ++ quoted value).toList.reverse ++ rest) =
      readBack (value :: values) none rest := by
  have clean : (gap.toList.reverse ++ rest).head? ≠ some '\\' := by
    rw [List.head?_append, List.head?_reverse, parting.spaced]
    simp
  rw [String.toList_append, List.reverse_append, List.append_assoc, readBack_quoted value clean]
  exact readBack_unquoted (by simpa using parting.unquoted)

theorem readBack_sentenceTail (listed : List String) :
    readBack values none ((sentenceTail .or (listed.map quoted)).toList.reverse ++ rest) =
      readBack (listed ++ values) none rest := by
  have words : Parting Connectors.or.words := ⟨by decide, by decide⟩
  have lastWord : Parting Connectors.or.lastWord := ⟨by decide, by decide⟩
  induction listed generalizing rest with
  | nil => rfl
  | cons value more ih =>
      cases more with
      | nil => exact lastWord.readBack_append value
      | cons next more =>
          rw [List.map_cons, List.map_cons, sentenceTail, ← List.map_cons, String.toList_append,
            List.reverse_append, List.append_assoc, ih]
          · exact words.readBack_append value
          · simp

/-- What stands behind the first value, be it one more value or several. -/
theorem exists_behind_first (value : String) (more : List String) :
    ∃ behind, sentence .or ((value :: more).map quoted) = quoted value ++ behind ∧
      ∀ rest, readBack [] none (behind.toList.reverse ++ rest) = readBack more none rest := by
  have twoWords : Parting Connectors.or.twoWords := ⟨by decide, by decide⟩
  match more with
  | [] => exact ⟨"", by simp [sentence], fun rest => rfl⟩
  | [other] =>
      refine ⟨Connectors.or.twoWords ++ quoted other, ?_, fun rest => ?_⟩
      · rw [List.map_cons, List.map_singleton, sentence, String.append_assoc]
      · exact twoWords.readBack_append other
  | other :: next :: more =>
      refine ⟨sentenceTail .or ((other :: next :: more).map quoted), rfl, fun rest => ?_⟩
      rw [readBack_sentenceTail, List.append_nil]

/-- The values of a set can be read off the list of alternatives. -/
theorem readBack_alternatives (s : ValueSet) :
    readBack [] none s.alternatives.toList.reverse = s.values := by
  obtain ⟨listed⟩ := s
  cases listed with
  | nil => rfl
  | cons value more =>
      obtain ⟨behind, listed_first, read⟩ := exists_behind_first value more
      have opening := @readBack_quoted more [] value (by simp)
      rw [List.append_nil] at opening
      calc readBack [] none (sentence .or ((value :: more).map quoted)).toList.reverse
        _ = readBack [] none (behind.toList.reverse ++ (quoted value).toList.reverse) := by
          rw [listed_first, String.toList_append, List.reverse_append]
        _ = readBack more none (quoted value).toList.reverse := read _
        _ = value :: more := opening

theorem alternatives_injective : Function.Injective alternatives := by
  intro s t same
  have values := readBack_alternatives s
  rw [same, readBack_alternatives] at values
  exact congrArg ValueSet.mk values.symm

end ValueSet

namespace Assertion

/-- The words of a set constraint before its values. -/
theorem message_of_setKind {k : Kind} {s : ValueSet} (listed : k.values? = some s)
    (context : String) : ∃ a verb, ofKind? context k = some a ∧
      a.message = valueMessage context (verb ++ s.alternatives) ∧
      (k = .setInclusion s ∧ verb = "MUST be " ∨ k = .setExclusion s ∧ verb = "MUST NOT be ") := by
  cases k with
  | setInclusion allowed => cases listed; exact ⟨_, _, rfl, rfl, .inl ⟨rfl, rfl⟩⟩
  | setExclusion forbidden => cases listed; exact ⟨_, _, rfl, rfl, .inr ⟨rfl, rfl⟩⟩
  | _ => cases listed

theorem valueMessage_inj {context other requirement requirement' : String} :
    valueMessage context requirement = valueMessage other requirement' ↔
      context = other ∧ requirement = requirement' := by
  constructor
  · intro same
    have parts := congrArg Message.parts same
    rw [parts_valueMessage, parts_valueMessage] at parts
    simp only [List.cons.injEq, MessagePart.valueOf.injEq, MessagePart.text.injEq, and_true,
      true_and] at parts
    obtain ⟨rfl, text⟩ := parts
    exact ⟨rfl, by simpa using text⟩
  · rintro ⟨rfl, rfl⟩
    rfl

/-- A set that is asked for is not described like one that is forbidden. -/
theorem asked_ne_forbidden (s t : ValueSet) :
    "MUST be " ++ s.alternatives ≠ "MUST NOT be " ++ t.alternatives := by
  intro same
  have chars := congrArg String.toList same
  simp at chars

/-- The message of a set constraint identifies the constraint: two of them have the same message
exactly if they have the same context, both ask for a value of their set or both forbid the values,
and their sets list the same values in the same order, whatever the values hold. -/
theorem message_identifies_set {k l : Kind} {s t : ValueSet} (listed : k.values? = some s)
    (listed' : l.values? = some t) (context other : String) :
    ∃ a b, ofKind? context k = some a ∧ ofKind? other l = some b ∧
      (a.message = b.message ↔ context = other ∧ k = l) := by
  obtain ⟨a, verb, made, message, stated⟩ := message_of_setKind listed context
  obtain ⟨b, verb', made', message', stated'⟩ := message_of_setKind listed' other
  refine ⟨a, b, made, made', ?_⟩
  rw [message, message', valueMessage_inj, and_congr_right_iff]
  rintro -
  obtain ⟨rfl, rfl⟩ | ⟨rfl, rfl⟩ := stated
  · obtain ⟨rfl, rfl⟩ | ⟨rfl, rfl⟩ := stated'
    · rw [String.append_right_inj, ValueSet.alternatives_injective.eq_iff,
        Kind.setInclusion.injEq]
    · simp [asked_ne_forbidden]
  · obtain ⟨rfl, rfl⟩ | ⟨rfl, rfl⟩ := stated'
    · simp [(asked_ne_forbidden _ _).symm]
    · rw [String.append_right_inj, ValueSet.alternatives_injective.eq_iff,
        Kind.setExclusion.injEq]

/-- Two sets that are hard to tell apart. The list of the first one begins with `"\" or "`, which is
the whole list of the second one. In the first the backslash is a value, in the second it stands
before a quote of the value. -/
theorem message_identifies_set_backslash :
    (Kind.setInclusion ⟨["\\", "a"]⟩).values? = some ⟨["\\", "a"]⟩ ∧
    (Kind.setInclusion ⟨["\" or "]⟩).values? = some ⟨["\" or "]⟩ ∧
    ∃ a b, ofKind? "c" (.setInclusion ⟨["\\", "a"]⟩) = some a ∧
      ofKind? "c" (.setInclusion ⟨["\" or "]⟩) = some b ∧ a.message ≠ b.message := by
  obtain ⟨a, b, made, made', same_iff⟩ := message_identifies_set
    (k := .setInclusion ⟨["\\", "a"]⟩) (l := .setInclusion ⟨["\" or "]⟩) rfl rfl "c" "c"
  refine ⟨rfl, rfl, a, b, made, made', fun same => ?_⟩
  exact absurd (same_iff.mp same).2 (by decide)

end Assertion

end Schematron
