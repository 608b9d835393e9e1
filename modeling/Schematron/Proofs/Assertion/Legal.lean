import Schematron.Assertion
import Schematron.Proofs.Markup.Legal

/-!
# Legal assertions

The test and the message of a constraint are put together from its context, the
values of its set and the texts of its numbers, with words of their own between them.
They hold no illegal character unless the context or one of the values does.
-/

namespace Schematron

open Grammar

/-! ### Numbers -/

namespace Decimal

theorem isChar_of_isDigit {c : Char} (digit : c.isDigit = true) : isChar c = true := by
  simp only [Char.isDigit, Bool.and_eq_true, decide_eq_true_eq, ge_iff_le,
    UInt32.le_iff_toNat_le] at digit
  have low : 48 ≤ c.toNat := digit.1
  have high : c.toNat ≤ 57 := digit.2
  simp only [isChar, inRanges, charRanges, List.any_cons, List.any_nil, Bool.or_eq_true,
    Bool.and_eq_true, decide_eq_true_eq]
  omega

theorem isChar_of_mem_digits {n : Nat} : ∀ c ∈ digits n, isChar c = true :=
  fun _ member => isChar_of_isDigit (isDigit_of_mem_digits member)

theorem isChar_of_mem_positionalText {pointZero : Bool} {ds : List Char} {exponent : Int}
    (legal : ∀ c ∈ ds, isChar c = true) :
    ∀ c ∈ positionalText pointZero ds exponent, isChar c = true := by
  have zeros (n : Nat) : ∀ c ∈ List.replicate n '0', isChar c = true := by
    intro c member
    rw [List.eq_of_mem_replicate member]
    decide
  rw [positionalText]
  split
  · have point : ∀ c ∈ (if pointZero then ['.', '0'] else []), isChar c = true := by
      split
      · exact List.all_eq_true.mp (by decide)
      · exact nofun
    simp only [List.forall_mem_append]
    exact ⟨⟨legal, zeros _⟩, point⟩
  · dsimp only
    split
    · rw [List.forall_mem_append, List.forall_mem_cons]
      exact ⟨fun c member => legal c (List.mem_of_mem_take member), by decide,
        fun c member => legal c (List.mem_of_mem_drop member)⟩
    · rw [List.forall_mem_append, List.forall_mem_cons, List.forall_mem_cons]
      exact ⟨⟨by decide, by decide, zeros _⟩, legal⟩

theorem legal_text_plain (d : Decimal) : Legal (d.text .plain) := by
  have body := @isChar_of_mem_positionalText false (digits d.coefficient) d.exponent
    isChar_of_mem_digits
  rw [Legal, text, String.toList_ofList, textChars]
  simp only [Layout.isPositional, Layout.plain, if_true]
  split
  · exact List.forall_mem_cons.mpr ⟨by decide, body⟩
  · exact body

end Decimal

theorem Number.legal_text (n : Number) : Legal n.text := by
  cases n with
  | integer value =>
      rw [text, integerText, Legal, String.toList_ofList]
      split
      · exact List.forall_mem_cons.mpr ⟨by decide, Decimal.isChar_of_mem_digits⟩
      · exact Decimal.isChar_of_mem_digits
  | decimal value =>
      cases value with
      | nan => decide
      | infinite negative => cases negative <;> decide
      | finite negative scale fraction =>
          rw [text, decimalText]
          · cases (Binary64.finite negative scale fraction).shortest? .away with
            | none => decide
            | some d => exact d.legal_text_plain
          all_goals exact fun same => by cases same

/-! ### Sets and sentences -/

theorem legal_backslashed {mark : Char} {s : String} : Legal (backslashed mark s) ↔ Legal s := by
  refine forall_isChar_flatMap fun c => ?_
  have slash : isChar '\\' = true := by decide
  split <;> simp [slash]

theorem legal_sentenceTail {c : Connectors} {l : List String} (words : Legal c.words)
    (last : Legal c.lastWord) (each : ∀ s ∈ l, Legal s) : Legal (sentenceTail c l) := by
  fun_induction sentenceTail c l with
  | case1 => decide
  | case2 item => simpa [last] using each
  | case3 item rest _ ih =>
      obtain ⟨first, later⟩ := List.forall_mem_cons.mp each
      simp [words, first, ih later]

theorem legal_sentence {c : Connectors} {l : List String} (words : Legal c.words)
    (two : Legal c.twoWords) (last : Legal c.lastWord) (each : ∀ s ∈ l, Legal s) :
    Legal (sentence c l) := by
  unfold sentence
  split
  · decide
  · simpa using each
  · simpa [two] using each
  · next first rest _ _ =>
    obtain ⟨first, later⟩ := List.forall_mem_cons.mp each
    exact legal_append.mpr ⟨first, legal_sentenceTail words last later⟩

namespace ValueSet

variable {s : ValueSet}

theorem legal_test (legal : ∀ v ∈ s.values, Legal v) {context : String} (named : Legal context) :
    Legal (s.test context) := by
  have literal : Legal s.literal := by
    refine legal_intercalate (by decide) (List.forall_mem_map.mpr fun v member => ?_)
    have mark : Legal "_" := by decide
    simp [delimited, mark, legal_backslashed, legal v member]
  simp only [test, legal_append]
  exact ⟨⟨⟨⟨by decide, literal⟩, by decide⟩, named⟩, by decide⟩

theorem legal_alternatives (legal : ∀ v ∈ s.values, Legal v) : Legal s.alternatives := by
  refine legal_sentence (by decide) (by decide) (by decide) (List.forall_mem_map.mpr ?_)
  intro v member
  have quote : Legal "\"" := by decide
  simp [quote, legal_backslashed, legal v member]

end ValueSet

/-! ### Ranges -/

theorem Comparison.legal_operator (c : Comparison) : Legal c.operator := by
  cases c <;> decide

theorem Comparison.legal_phrase (c : Comparison) : Legal c.phrase := by
  cases c <;> decide

namespace NumericRange

variable {r : NumericRange} {context : String}

theorem legal_of_mem_requirements (named : Legal context) :
    ∀ q ∈ r.requirements context, Legal q.test ∧ Legal q.phrase := by
  have number : Legal "number(" := by decide
  have closing : Legal ") " := by decide
  have space : Legal " " := by decide
  intro q member
  simp only [requirements, List.mem_append, List.mem_cons, List.mem_filterMap] at member
  rcases member with ((rfl | even) | odd) | ⟨c, -, asked⟩
  · have equal : Legal ") = " := by decide
    exact ⟨by simp [number, equal, named], show Legal "MUST be a number" by decide⟩
  · split at even
    · rw [List.mem_singleton.mp even]
      have zero : Legal ") mod 2 = 0" := by decide
      exact ⟨by simp [number, zero, named], show Legal "MUST be even" by decide⟩
    · cases even
  · split at odd
    · rw [List.mem_singleton.mp odd]
      have one : Legal ") mod 2 = 1" := by decide
      exact ⟨by simp [number, one, named], show Legal "MUST be odd" by decide⟩
    · cases odd
  · obtain ⟨n, -, rfl⟩ := Option.map_eq_some_iff.mp asked
    have bound : Legal n.text := n.legal_text
    constructor
    · simp [number, closing, space, named, bound, c.legal_operator]
    · simp [bound, c.legal_phrase]

theorem legal_test (named : Legal context) : Legal (r.test context) := by
  refine legal_intercalate (by decide) (List.forall_mem_map.mpr fun q member => ?_)
  have opening : Legal "(" := by decide
  have closing : Legal ")" := by decide
  simp [opening, closing, (legal_of_mem_requirements named q member).1]

theorem legal_phrase (named : Legal context) : Legal (r.phrase context) := by
  refine legal_sentence (by decide) (by decide) (by decide) (List.forall_mem_map.mpr ?_)
  exact fun q member => (legal_of_mem_requirements named q member).2

end NumericRange

/-! ### Constraints -/

/-- The values that a kind lists. -/
def Kind.strings (k : Kind) : List String := k.values?.toList.flatMap ValueSet.values

def MessagePart.string : MessagePart → String
  | text content => content
  | valueOf select => select

def Message.strings (m : Message) : List String := m.parts.map MessagePart.string

def Assertion.strings (a : Assertion) : List String := a.test :: a.message.strings

namespace Assertion

variable {context requirement : String}

theorem legal_presenceMessage (named : Legal context) (said : Legal requirement) :
    ∀ s ∈ (presenceMessage context requirement).strings, Legal s := by
  have opening : Legal "element \"" := by decide
  have closing : Legal "\" " := by decide
  simp [Message.strings, MessagePart.string, opening, closing, named, said]

theorem legal_valueMessage (named : Legal context) (said : Legal requirement) :
    ∀ s ∈ (valueMessage context requirement).strings, Legal s := by
  have text : Legal "text \"" := by decide
  have opening : Legal "\": element \"" := by decide
  have closing : Legal "\" " := by decide
  simp [Message.strings, MessagePart.string, text, opening, closing, named, said]

/-- What a constraint asserts is legal if its context and the values it lists are. -/
theorem legal_of_ofKind? {kind : Kind} {a : Assertion} (made : ofKind? context kind = some a)
    (named : Legal context) (listed : ∀ v ∈ kind.strings, Legal v) : ∀ s ∈ a.strings, Legal s := by
  have opening : Legal "count(" := by decide
  have negation : Legal "not(" := by decide
  have closing : Legal ")" := by decide
  have least (bound : String) (legal : Legal bound) : Legal ("count(" ++ context ++ bound) := by
    simp [opening, named, legal]
  cases kind with
  | scope => cases made
  | requiredPresence =>
      cases made
      exact List.forall_mem_cons.mpr
        ⟨least ") >= 1" (by decide), legal_presenceMessage named (by decide)⟩
  | optionalPresence =>
      cases made
      exact List.forall_mem_cons.mpr
        ⟨least ") >= 0" (by decide), legal_presenceMessage named (by decide)⟩
  | forbiddenPresence =>
      cases made
      exact List.forall_mem_cons.mpr
        ⟨by simp [negation, named, closing], legal_presenceMessage named (by decide)⟩
  | setInclusion allowed =>
      cases made
      have values : ∀ v ∈ allowed.values, Legal v := by
        simpa [Kind.strings, Kind.values?] using listed
      have asked : Legal ("MUST be " ++ allowed.alternatives) :=
        legal_append.mpr ⟨by decide, allowed.legal_alternatives values⟩
      exact List.forall_mem_cons.mpr
        ⟨allowed.legal_test values named, legal_valueMessage named asked⟩
  | setExclusion forbidden =>
      cases made
      have values : ∀ v ∈ forbidden.values, Legal v := by
        simpa [Kind.strings, Kind.values?] using listed
      have asked : Legal ("MUST NOT be " ++ forbidden.alternatives) :=
        legal_append.mpr ⟨by decide, forbidden.legal_alternatives values⟩
      have test : Legal (forbidden.test context) := forbidden.legal_test values named
      exact List.forall_mem_cons.mpr
        ⟨by simp [negation, test, closing], legal_valueMessage named asked⟩
  | numericRange range =>
      cases made
      exact List.forall_mem_cons.mpr
        ⟨range.legal_test named, legal_valueMessage named (range.legal_phrase named)⟩

end Assertion

end Schematron
