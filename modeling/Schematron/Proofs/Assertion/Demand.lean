import Mathlib.Data.List.Basic
import Schematron.Assertion

/-!
# Demands of numeric constraints

A range demands that a value is a number, and more for each aspect that was set: a
parity that is required, or a comparison that has a bound. Every demand has a condition
in the test of the constraint and a phrase in its message. `requirements_eq` states that
a range has these and no others, in the order of its aspects.
-/

namespace Schematron

inductive Demand where
  | number
  | even
  | odd
  | bound (c : Comparison) (b : Number)
  deriving DecidableEq, Repr

namespace Demand

def phrase : Demand → String
  | number => "MUST be a number"
  | even => "MUST be even"
  | odd => "MUST be odd"
  | bound .equalTo b => "MUST be equal to " ++ b.text
  | bound .greaterThan b => "MUST be greater than " ++ b.text
  | bound .greaterThanOrEqualTo b => "MUST be greater than or equal to " ++ b.text
  | bound .lessThan b => "MUST be less than " ++ b.text
  | bound .lessThanOrEqualTo b => "MUST be less than or equal to " ++ b.text
  | bound .otherThan b => "MUST NOT be equal to " ++ b.text

def test (context : String) : Demand → String
  | number => "number(" ++ context ++ ") = " ++ context
  | even => "number(" ++ context ++ ") mod 2 = 0"
  | odd => "number(" ++ context ++ ") mod 2 = 1"
  | bound .equalTo b => "number(" ++ context ++ ") = " ++ b.text
  | bound .greaterThan b => "number(" ++ context ++ ") > " ++ b.text
  | bound .greaterThanOrEqualTo b => "number(" ++ context ++ ") >= " ++ b.text
  | bound .lessThan b => "number(" ++ context ++ ") < " ++ b.text
  | bound .lessThanOrEqualTo b => "number(" ++ context ++ ") <= " ++ b.text
  | bound .otherThan b => "number(" ++ context ++ ") != " ++ b.text

theorem phrase_bound (c : Comparison) (b : Number) :
    (bound c b).phrase = c.phrase ++ b.text := by
  cases c <;> rfl

theorem test_bound (context : String) (c : Comparison) (b : Number) :
    (bound c b).test context = "number(" ++ context ++ ") " ++ c.operator ++ " " ++ b.text := by
  apply String.toList_inj.mp
  cases c <;> simp [test, Comparison.operator]

end Demand

namespace NumericRange

/-- What a range can be set to ask for. -/
inductive Aspect where
  | even
  | odd
  | bound (c : Comparison)
  deriving DecidableEq, Repr

/-- Every aspect, in the order in which tests and messages go through them. -/
def Aspect.all : List Aspect := .even :: .odd :: Comparison.all.map .bound

theorem Aspect.mem_all (a : Aspect) : a ∈ all := by
  cases a <;> simp [all, Comparison.mem_all]

/-- The demand of a range in one aspect. -/
def demand? (r : NumericRange) : Aspect → Option Demand
  | .even => if r.even then some .even else none
  | .odd => if r.odd then some .odd else none
  | .bound c => (r.bound c).map (.bound c)

/-- The demands beyond that for a number. -/
def further (r : NumericRange) : List Demand := Aspect.all.filterMap r.demand?

/-- The demands of a range, in the order of its message. -/
def demands (r : NumericRange) : List Demand := .number :: r.further

variable {r : NumericRange} {d : Demand}

theorem mem_further_iff : d ∈ r.further ↔ ∃ a, r.demand? a = some d := by
  rw [further, List.mem_filterMap]
  constructor
  · rintro ⟨a, -, demanded⟩
    exact ⟨a, demanded⟩
  · rintro ⟨a, demanded⟩
    exact ⟨a, Aspect.mem_all a, demanded⟩

/-- The parities come first, then the bounds. -/
theorem further_eq (r : NumericRange) : r.further =
    (if r.even then [.even] else []) ++ (if r.odd then [.odd] else []) ++
      Comparison.all.filterMap fun c => r.demand? (.bound c) := by
  rw [further, Aspect.all, List.filterMap_cons, List.filterMap_cons, List.filterMap_map]
  simp only [demand?, Function.comp_def]
  cases r.even <;> cases r.odd <;> rfl

/-- A range has a condition and a phrase for each of its demands. -/
theorem requirements_eq (r : NumericRange) (context : String) :
    r.requirements context = r.demands.map fun d => ⟨d.test context, d.phrase⟩ := by
  have bounded : Comparison.all.filterMap (r.requirement? context) =
      (Comparison.all.filterMap fun c => r.demand? (.bound c)).map
        fun d => ⟨d.test context, d.phrase⟩ := by
    rw [List.map_filterMap]
    refine List.filterMap_congr fun c _ => ?_
    rw [requirement?, demand?]
    cases r.bound c with
    | none => rfl
    | some b => simp [Demand.test_bound, Demand.phrase_bound]
  rw [requirements, bounded, demands, further_eq, List.map_cons, List.map_append,
    List.map_append, List.cons_append, List.cons_append]
  cases r.even <;> cases r.odd <;> rfl

theorem test_eq (r : NumericRange) (context : String) : r.test context =
    " and ".intercalate ((r.demands.map (Demand.test context)).map fun text =>
      "(" ++ text ++ ")") := by
  rw [test, requirements_eq, List.map_map, List.map_map]
  rfl

theorem phrase_eq (r : NumericRange) (context : String) :
    r.phrase context = sentence .and (r.demands.map Demand.phrase) := by
  rw [phrase, requirements_eq, List.map_map]
  rfl

end NumericRange

end Schematron
