import Mathlib.Data.List.Induction
import Schematron.Proofs.Assertion.Demand

/-!
# Settings of numeric constraints

A range is set up by settings, of which the last one for each aspect counts.
`test_and_message_agree` states that the test and the message of a numeric constraint
both list the demands that are left of them, condition by condition and phrase by
phrase, and that there is only the demand for a number exactly if the range is
unconstrained.

A bound is demanded whatever number it is. One that is not a number differs from
itself, but it is compared with a missing bound here, from which it differs as well.
-/

namespace Schematron

namespace NumericRange

namespace Setting

def aspect : Setting → Aspect
  | even _ => .even
  | odd _ => .odd
  | bound c _ => .bound c

/-- What the setting asks for; one that takes a requirement back asks for nothing. -/
def demand? : Setting → Option Demand
  | even required => if required then some .even else none
  | odd required => if required then some .odd else none
  | bound c n => n.map (.bound c)

end Setting

/-- The last of the settings that are about an aspect. -/
def lastSetting? (settings : List Setting) (a : Aspect) : Option Setting :=
  (settings.filter (·.aspect = a)).getLast?

/-- What the settings ask for in the end, in the order of the aspects. -/
def requested (settings : List Setting) : List Demand :=
  Aspect.all.filterMap fun a => (lastSetting? settings a).bind Setting.demand?

variable {r : NumericRange} {context : String}

/-- A setting replaces the demand in its aspect and leaves the other aspects. -/
theorem demand?_set (r : NumericRange) (s : Setting) (a : Aspect) :
    (r.set s).demand? a = if s.aspect = a then s.demand? else r.demand? a := by
  cases s with
  | even required => cases a <;> rfl
  | odd required => cases a <;> rfl
  | bound c n =>
      cases a with
      | even => simp [demand?, set, Setting.aspect]
      | odd => simp [demand?, set, Setting.aspect]
      | bound d =>
          by_cases same : d = c
          · subst same
            simp [demand?, set, Setting.aspect, Setting.demand?]
          · simp [demand?, set, Setting.aspect, same, Ne.symm same]

theorem demand?_unbounded (a : Aspect) : unbounded.demand? a = none := by
  cases a with
  | even => rfl
  | odd => rfl
  | bound c => cases c <;> rfl

/-- After any settings a range demands what the last one for each aspect asked for. -/
theorem demand?_foldl_set (settings : List Setting) (a : Aspect) :
    (settings.foldl set unbounded).demand? a =
      (lastSetting? settings a).bind Setting.demand? := by
  induction settings using List.reverseRecOn with
  | nil => exact demand?_unbounded a
  | append_singleton settings s ih =>
      rw [List.foldl_append, List.foldl_cons, List.foldl_nil, demand?_set, lastSetting?,
        List.filter_append]
      by_cases about : s.aspect = a
      · simp [about]
      · simpa [about, lastSetting?] using ih

theorem further_foldl_set (settings : List Setting) :
    (settings.foldl set unbounded).further = requested settings :=
  List.filterMap_congr fun a _ => demand?_foldl_set settings a

theorem further_eq_nil_iff : r.further = [] ↔ ∀ a, r.demand? a = none := by
  simp [further, List.filterMap_eq_nil_iff, Aspect.mem_all]

/-- A range is unconstrained exactly if it demands nothing beyond a number. -/
theorem isUnconstrained_iff : r.isUnconstrained = true ↔ r.further = [] := by
  -- A bound is the same as a missing one only if it is missing, whatever number it is.
  have absent (c : Comparison) : sameBound (r.bound c) (unbounded.bound c) = true ↔
      r.bound c = none := by
    have none : unbounded.bound c = none := by cases c <;> rfl
    rw [none]
    cases r.bound c <;> simp [sameBound]
  rw [further_eq_nil_iff]
  simp only [isUnconstrained, equals, Bool.and_eq_true, decide_eq_true_eq, List.all_eq_true, absent]
  constructor
  · rintro ⟨⟨even, odd⟩, bounds⟩ a
    cases a with
    | even => simp [demand?, even, unbounded]
    | odd => simp [demand?, odd, unbounded]
    | bound c => simp [demand?, bounds c (Comparison.mem_all c)]
  · intro nothing
    refine ⟨⟨?_, ?_⟩, fun c _ => ?_⟩
    · simpa [demand?, unbounded] using nothing .even
    · simpa [demand?, unbounded] using nothing .odd
    · simpa [demand?] using nothing (.bound c)

/-- A test is nothing but its first condition exactly if nothing more is demanded. -/
theorem test_eq_first_iff :
    r.test context = "(number(" ++ context ++ ") = " ++ context ++ ")" ↔ r.further = [] := by
  have first : "(" ++ Demand.test context .number ++ ")" =
      "(number(" ++ context ++ ") = " ++ context ++ ")" :=
    String.toList_inj.mp (by simp [Demand.test])
  rw [test_eq, demands, List.map_cons, List.map_cons, first]
  cases r.further with
  | nil => simp
  | cons d more =>
      rw [List.map_cons, List.map_cons, String.intercalate_cons_cons, String.append_assoc,
        String.append_eq_left_iff]
      simp

/-- A numeric constraint has one condition for being a number and one for each demand that is left
of its settings, in parentheses and joined by `and`. Its message shows the value of the context and
has one phrase for each condition, in the same order: alone, joined by `and`, or with commas and
with `and` before the last one. What is left of the settings is what the last one for each aspect
asks for, in the order of the aspects, and it is nothing exactly if the range is unconstrained. -/
theorem test_and_message_agree (settings : List Setting) (context : String) :
    ∃ a text, Assertion.ofKind? context (.numericRange (settings.foldl set unbounded)) = some a ∧
      a.test = " and ".intercalate ((Demand.number :: requested settings).map fun d =>
        "(" ++ d.test context ++ ")") ∧
      a.message.parts = [.text "text \"", .valueOf context,
        .text ("\": element \"" ++ context ++ "\" " ++ text)] ∧
      text = sentence .and ((Demand.number :: requested settings).map Demand.phrase) ∧
      (requested settings = [] → text = "MUST be a number") ∧
      (∀ d, requested settings = [d] → text = "MUST be a number and " ++ d.phrase) ∧
      (∀ middle last, middle ≠ [] → requested settings = middle ++ [last] →
        text = "MUST be a number" ++ String.join (middle.map fun d => ", " ++ d.phrase) ++
          ", and " ++ last.phrase) ∧
      ((Demand.number :: requested settings).length = 1 ↔
        (settings.foldl set unbounded).isUnconstrained = true) ∧
      (a.test = "(number(" ++ context ++ ") = " ++ context ++ ")" ↔
        (settings.foldl set unbounded).isUnconstrained = true) := by
  have left := further_foldl_set settings
  have worded : (settings.foldl set unbounded).phrase context =
      sentence .and ((Demand.number :: requested settings).map Demand.phrase) := by
    rw [phrase_eq, demands, left]
  refine ⟨_, _, rfl, ?_, Assertion.parts_valueMessage context _, worded, ?_, ?_, ?_, ?_, ?_⟩
  · rw [test_eq, demands, left, List.map_map]
    rfl
  · intro nothing
    rw [worded, nothing]
    rfl
  · intro d alone
    rw [worded, alone]
    rfl
  · intro middle last more split
    have several : middle.map Demand.phrase ≠ [] := by simpa using more
    rw [worded, split, List.map_cons, List.map_append, List.map_singleton,
      sentence_concat .and several, List.map_map]
    rfl
  · rw [isUnconstrained_iff, left]
    simp
  · rw [isUnconstrained_iff, test_eq_first_iff]

/-- An upper bound is replaced, an odd value is not required any more, and a lower bound is not a
number. -/
def replaced : List Setting :=
  [.bound .lessThan (some (.integer 3)), .odd true, .even true,
    .bound .greaterThan (some (.decimal .nan)),
    .bound .lessThan (some (.decimal (.ofDecimal ⟨false, 25, -1⟩))), .odd false]

theorem test_and_message_agree_replaced :
    (∃ a, Assertion.ofKind? "@n" (.numericRange (replaced.foldl set unbounded)) = some a ∧
      a.test = "(number(@n) = @n) and (number(@n) mod 2 = 0) and " ++
        "(number(@n) > (0 div 0)) and (number(@n) < 2.5)" ∧
      a.message.parts = [.text "text \"", .valueOf "@n",
        .text ("\": element \"@n\" MUST be a number, MUST be even, " ++
          "MUST be greater than (0 div 0), and MUST be less than 2.5")]) ∧
      (replaced.foldl set unbounded).isUnconstrained = false := by
  have left : requested replaced = [.even, .bound .greaterThan (.decimal .nan)] ++
      [.bound .lessThan (.decimal (.ofDecimal ⟨false, 25, -1⟩))] := by decide +kernel
  obtain ⟨a, text, made, test, parts, -, -, -, several, unconstrained, -⟩ :=
    test_and_message_agree replaced "@n"
  refine ⟨⟨a, made, ?_, ?_⟩, ?_⟩
  · rw [test, left]
    decide +kernel
  · rw [parts, several _ _ (List.cons_ne_nil _ _) left]
    decide +kernel
  · rw [left] at unconstrained
    exact Bool.eq_false_iff.mpr fun free => absurd (unconstrained.mpr free) (by decide)

end NumericRange

end Schematron
