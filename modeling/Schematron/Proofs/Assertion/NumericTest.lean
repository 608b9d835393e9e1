import Mathlib.Algebra.Ring.Int.Parity
import Schematron.Proofs.Assertion.Demand
import Schematron.Proofs.Assertion.XPath

/-!
# What numeric tests ask for

The message of a numeric constraint lists its demands, and its test has one condition
for each of them. `test_holds_iff` evaluates the test by the rules of XPath and
compares it with the demands, for integer bounds and for every integer in the field.

The two agree for all demands but one. A number is tested for being odd by the
remainder of its division by two, which has to be one. The remainder of a negative odd
number is minus one, so the test rejects it although the message asks for nothing but
an odd number.
-/

namespace Schematron

namespace Comparison

/-- Whether a number stands in the relation to a bound. -/
def holds : Comparison → Int → Int → Bool
  | equalTo, n, b => n = b
  | greaterThan, n, b => b < n
  | greaterThanOrEqualTo, n, b => b ≤ n
  | lessThan, n, b => n < b
  | lessThanOrEqualTo, n, b => n ≤ b
  | otherThan, n, b => n ≠ b

/-- The operator that a comparison is written with. -/
def xpath : Comparison → XPath.Operator
  | equalTo => .equal
  | greaterThan => .greater
  | greaterThanOrEqualTo => .greaterOrEqual
  | lessThan => .less
  | lessThanOrEqualTo => .lessOrEqual
  | otherThan => .notEqual

theorem apply_xpath (c : Comparison) (n b : Int) :
    c.xpath.apply (.number n) (.number b) = some (.boolean (c.holds n b)) := by
  cases c <;> rfl

end Comparison

namespace Demand

/-- An integer meets the demand. Nothing is said of bounds that are no integers. -/
def Met (n : Int) : Demand → Prop
  | number => True
  | even => Even n
  | odd => Odd n
  | bound c x => ∃ b, x = .integer b ∧ c.holds n b.toInt = true

/-- Whether an integer passes the condition. -/
def passes (n : Int) : Demand → Bool
  | number => true
  | even => n.tmod 2 = 0
  | odd => n.tmod 2 = 1
  | bound c (.integer b) => c.holds n b.toInt
  | bound _ (.decimal _) => false

/-- The bound, if there is one, is an integer. -/
def Whole (d : Demand) : Prop := ∀ c x, d = bound c x → ∃ b, x = .integer b

end Demand

/-- All bounds are integers. -/
def NumericRange.Whole (r : NumericRange) : Prop := ∀ c x, r.bound c = some x → ∃ b, x = .integer b

/-! ### Conditions -/

namespace Demand

open XPath

variable {context : String} {n : Int}

def integer (b : Int64) : Expr :=
  if b < 0 then .negative (.literal b.toInt.natAbs) else .literal b.toInt.natAbs

/-- The condition as an expression, with the field in place of a bound that is no integer. -/
def expr : Demand → Expr
  | number => .binary .equal (.number .field) .field
  | even => .binary .equal (.binary .mod (.number .field) (.literal 2)) (.literal 0)
  | odd => .binary .equal (.binary .mod (.number .field) (.literal 2)) (.literal 1)
  | bound c (.integer b) => .binary c.xpath (.number .field) (integer b)
  | bound c (.decimal _) => .binary c.xpath (.number .field) .field

theorem readsOperand_integerText (begins : BeginsPath context.toList) (b : Int64) :
    ReadsOperand context.toList (Number.integerText b).toList (integer b) := by
  have read := begins.readsOperand_integer (decide (b < 0)) b.toInt.natAbs
  simpa only [decide_eq_true_eq, Number.integerText, String.toList_ofList, integer] using read

theorem reads_test (begins : BeginsPath context.toList) {d : Demand} (whole : d.Whole) :
    Reads context.toList (d.test context).toList d.expr := by
  have two : Decimal.digits 2 = ['2'] := by decide
  cases d with
  | number =>
      have text : (test context number).toList =
          numberOf context.toList ++ ' ' :: (Operator.equal.spelling ++ ' ' :: context.toList) := by
        simp [test, numberOf, callSpelling, Operator.spelling]
      rw [text]
      exact begins.reads_comparison .equal begins.readsOperand_field
  | even =>
      have zero : Decimal.digits 0 = ['0'] := by decide
      have text : (test context even).toList =
          numberOf context.toList ++ ' ' :: (Operator.mod.spelling ++ ' ' :: (Decimal.digits 2 ++
            ' ' :: (Operator.equal.spelling ++ ' ' :: Decimal.digits 0))) := by
        simp [test, numberOf, callSpelling, Operator.spelling, two, zero]
      rw [text]
      exact begins.reads_remainder 2 (by decide) (begins.readsOperand_integer false 0)
  | odd =>
      have one : Decimal.digits 1 = ['1'] := by decide
      have text : (test context odd).toList =
          numberOf context.toList ++ ' ' :: (Operator.mod.spelling ++ ' ' :: (Decimal.digits 2 ++
            ' ' :: (Operator.equal.spelling ++ ' ' :: Decimal.digits 1))) := by
        simp [test, numberOf, callSpelling, Operator.spelling, two, one]
      rw [text]
      exact begins.reads_remainder 2 (by decide) (begins.readsOperand_integer false 1)
  | bound c x =>
      obtain ⟨b, rfl⟩ := whole c x rfl
      have text : (test context (bound c (.integer b))).toList = numberOf context.toList ++
          ' ' :: (c.xpath.spelling ++ ' ' :: (Number.integerText b).toList) := by
        cases c <;> simp [test, Number.text, numberOf, callSpelling, Operator.spelling,
          Comparison.xpath]
      rw [text]
      exact begins.reads_comparison c.xpath (readsOperand_integerText begins b)

theorem eval_integer (n : Int) (b : Int64) : eval n (integer b) = some (.number b.toInt) := by
  have sign : b < 0 ↔ b.toInt < 0 := Int64.lt_iff_toInt_lt
  by_cases negative : b < 0
  · have value : -(b.toInt.natAbs : Int) = b.toInt := by
      have below := sign.mp negative
      omega
    rw [integer, if_pos negative]
    simp only [eval, Option.bind_some, Value.number?, Option.map_some, value]
  · have value : (b.toInt.natAbs : Int) = b.toInt := by
      have above := mt sign.mpr negative
      omega
    rw [integer, if_neg negative]
    simp only [eval, value]

theorem eval_expr (n : Int) {d : Demand} (whole : d.Whole) :
    eval n d.expr = some (.boolean (d.passes n)) := by
  cases d with
  | number => simp [expr, eval, Value.number?, Operator.apply, passes]
  | even => simp [expr, eval, Value.number?, Operator.apply, passes]
  | odd => simp [expr, eval, Value.number?, Operator.apply, passes]
  | bound c x =>
      obtain ⟨b, rfl⟩ := whole c x rfl
      rw [expr, eval, eval_integer]
      exact c.apply_xpath n b.toInt

/-- The remainder by two takes the sign of the number, so it is one for positive numbers only. -/
theorem tmod_two_eq_one_iff (n : Int) : n.tmod 2 = 1 ↔ Odd n ∧ 0 < n := by
  by_cases positive : 0 < n
  · rw [Int.tmod_eq_emod_of_nonneg (Int.le_of_lt positive), Int.odd_iff]
    simp [positive]
  · -- Truncation is symmetric, so this is minus the remainder of a number that is not negative.
    have mirrored : n.tmod 2 = -((-n) % 2) := by
      rw [← Int.tmod_eq_emod_of_nonneg (by omega), Int.neg_tmod, neg_neg]
    constructor
    · intro one
      omega
    · rintro ⟨-, positive⟩
      omega

/-- A condition passes the integers that meet its demand, apart from negative odd numbers. -/
theorem passes_iff (n : Int) (d : Demand) :
    d.passes n = true ↔ d.Met n ∧ (d = odd → 0 < n) := by
  cases d with
  | number => simp [passes, Met]
  | even => simp [passes, Met, ← Int.dvd_iff_tmod_eq_zero, even_iff_two_dvd]
  | odd => simp [passes, Met, tmod_two_eq_one_iff]
  | bound c x => cases x <;> simp [passes, Met]

end Demand

/-! ### Ranges -/

namespace NumericRange

open XPath

variable {r : NumericRange} {context : String}

theorem whole_of_mem_demands (whole : r.Whole) {d : Demand} (member : d ∈ r.demands) :
    d.Whole := by
  rintro c x rfl
  obtain impossible | member := List.mem_cons.mp member
  · cases impossible
  · obtain ⟨a, demanded⟩ := mem_further_iff.mp member
    cases a with
    | even => cases asked : r.even <;> simp [demand?, asked] at demanded
    | odd => cases asked : r.odd <;> simp [demand?, asked] at demanded
    | bound d =>
        obtain ⟨y, present, same⟩ := Option.map_eq_some_iff.mp demanded
        cases same
        exact whole c x present

/-- The demands are met by the numbers of the right parity that stand in the relations to the
bounds. -/
theorem forall_met_iff (whole : r.Whole) (n : Int) : (∀ d ∈ r.demands, d.Met n) ↔
    (r.even = true → Even n) ∧ (r.odd = true → Odd n) ∧
      ∀ c b, r.bound c = some (.integer b) → c.holds n b.toInt = true := by
  have parity (asked : Bool) (d : Demand) :
      (∀ e ∈ if asked then [d] else [], e.Met n) ↔ (asked = true → d.Met n) := by
    cases asked <;> simp
  have bounded : (∀ d ∈ Comparison.all.filterMap (fun c => r.demand? (.bound c)), d.Met n) ↔
      ∀ c b, r.bound c = some (.integer b) → c.holds n b.toInt = true := by
    simp only [List.mem_filterMap, demand?, Option.map_eq_some_iff]
    constructor
    · intro met c b present
      obtain ⟨b', same, related⟩ := met _ ⟨c, Comparison.mem_all c, _, present, rfl⟩
      cases same
      exact related
    · rintro related - ⟨c, -, x, present, rfl⟩
      obtain ⟨b, rfl⟩ := whole c x present
      exact ⟨b, rfl, related c b present⟩
  rw [demands, List.forall_mem_cons, further_eq, List.forall_mem_append, List.forall_mem_append,
    parity, parity, bounded, and_assoc]
  simp [Demand.Met]

theorem odd_mem_demands_iff : Demand.odd ∈ r.demands ↔ r.odd = true := by
  rw [demands, List.mem_cons, mem_further_iff]
  constructor
  · rintro (impossible | ⟨a, demanded⟩)
    · cases impossible
    · cases a with
      | even => cases asked : r.even <;> simp [demand?, asked] at demanded
      | odd => cases asked : r.odd <;> simp [demand?, asked] at demanded ⊢
      | bound c => simp [demand?] at demanded
  · intro asked
    exact .inr ⟨.odd, by simp [demand?, asked]⟩

/-- Conditions in parentheses, joined by `and`. -/
theorem toList_intercalate_and (first : String) (more : List String) :
    (" and ".intercalate ((first :: more).map fun text => "(" ++ text ++ ")")).toList =
      '(' :: (first.toList ++ ')' :: conjuncts (more.map String.toList)) := by
  induction more generalizing first with
  | nil => simp [conjuncts]
  | cons next more ih =>
      have tail := ih next
      rw [List.map_cons] at tail
      rw [List.map_cons, List.map_cons, String.intercalate_cons_cons, String.toList_append, tail]
      simp [conjuncts, Operator.spelling]

/-- The test of a range is read as the conjunction of its conditions. -/
theorem read?_test (whole : r.Whole) (begins : BeginsPath context.toList) :
    read? context (r.test context) =
      some ((r.further.map Demand.expr).foldl (.binary .and) (Demand.expr .number)) := by
  have text : (r.test context).toList = '(' :: ((Demand.test context .number).toList ++
      ')' :: conjuncts (r.further.map fun d => (d.test context).toList)) := by
    rw [test_eq, demands, List.map_cons, toList_intercalate_and, List.map_map]
    rfl
  have number : Demand.Whole .number := by rintro c x ⟨⟩
  exact read?_conjunction text (Demand.reads_test begins number) fun d member =>
    Demand.reads_test begins (whole_of_mem_demands whole (List.mem_cons_of_mem _ member))

theorem holds?_test (whole : r.Whole) (begins : BeginsPath context.toList) (n : Int) :
    holds? context (r.test context) n = some (r.demands.all (Demand.passes n)) := by
  have number : Demand.Whole .number := by rintro c x ⟨⟩
  have value := eval_conjunction (Demand.eval_expr n number) fun d (member : d ∈ r.further) =>
    Demand.eval_expr n (whole_of_mem_demands whole (List.mem_cons_of_mem _ member))
  rw [holds?, r.read?_test whole begins, Option.bind_some, value]
  rfl

/-- A range of integers makes an assertion whose message lists its demands. The test of the
assertion holds of the integers that meet all of them, except that it rejects negative integers
where odd ones are asked for. -/
theorem test_holds_iff (whole : r.Whole) (begins : BeginsPath context.toList) :
    ∃ a, Assertion.ofKind? context (.numericRange r) = some a ∧
      a.message =
        Assertion.valueMessage context (sentence .and (r.demands.map Demand.phrase)) ∧
      ∀ n : Int, ∃ holds, holds? context a.test n = some holds ∧
        (holds = true ↔ (∀ d ∈ r.demands, d.Met n) ∧ (r.odd = true → 0 < n)) ∧
        ((∀ d ∈ r.demands, d.Met n) ↔
          (r.even = true → Even n) ∧ (r.odd = true → Odd n) ∧
            ∀ c b, r.bound c = some (.integer b) → c.holds n b.toInt = true) := by
  refine ⟨_, rfl, by rw [phrase_eq], fun n => ⟨_, r.holds?_test whole begins n, ?_,
    forall_met_iff whole n⟩⟩
  simp only [List.all_eq_true, Demand.passes_iff]
  constructor
  · intro passed
    exact ⟨fun d member => (passed d member).1,
      fun asked => (passed .odd (odd_mem_demands_iff.mpr asked)).2 rfl⟩
  · rintro ⟨met, positive⟩ d member
    refine ⟨met d member, ?_⟩
    rintro rfl
    exact positive (odd_mem_demands_iff.mp member)

/-- Odd numbers from minus five on: the test rejects minus three, which meets both demands, and
holds of three. -/
theorem test_holds_iff_odd :
    let r := { unbounded with odd := true, greaterThanOrEqualTo := some (.integer (-5)) }
    r.Whole ∧ BeginsPath "c".toList ∧ (∀ d ∈ r.demands, d.Met (-3)) ∧
      ∃ a, Assertion.ofKind? "c" (.numericRange r) = some a ∧
        holds? "c" a.test (-3) = some false ∧ holds? "c" a.test 3 = some true := by
  intro r
  have whole : r.Whole := by
    intro c x present
    cases c <;> cases present
    exact ⟨_, rfl⟩
  have begins : BeginsPath "c".toList := ⟨⟨'c', rfl, by decide⟩, by decide⟩
  obtain ⟨a, made, -, evaluated⟩ := test_holds_iff whole begins
  obtain ⟨low, at_low, extent, met⟩ := evaluated (-3)
  obtain ⟨high, at_high, extent', met'⟩ := evaluated 3
  have demands_met : ∀ d ∈ r.demands, d.Met (-3) := by
    refine met.mpr ⟨nofun, fun _ => by decide, fun c b present => ?_⟩
    cases c <;> cases present
    decide
  have demands_met' : ∀ d ∈ r.demands, d.Met 3 := by
    refine met'.mpr ⟨nofun, fun _ => by decide, fun c b present => ?_⟩
    cases c <;> cases present
    decide
  have rejected : low = false :=
    Bool.eq_false_iff.mpr fun accepted => absurd ((extent.mp accepted).2 rfl) (by decide)
  have accepted : high = true := extent'.mpr ⟨demands_met', fun _ => by decide⟩
  exact ⟨whole, begins, demands_met, a, made, rejected ▸ at_low, accepted ▸ at_high⟩

/-- Minus one is odd, but it does not pass the test for odd numbers. -/
theorem odd_rejected :
    ¬ ∀ (r : NumericRange) (context : String), r.Whole → BeginsPath context.toList →
      ∃ a, Assertion.ofKind? context (.numericRange r) = some a ∧
        ∀ n : Int, holds? context a.test n = some true ↔ ∀ d ∈ r.demands, d.Met n := by
  intro exact_test
  have whole : ({ unbounded with odd := true } : NumericRange).Whole := by
    intro c x present
    cases c <;> cases present
  obtain ⟨a, made, exact_test⟩ :=
    exact_test { unbounded with odd := true } "c" whole ⟨⟨'c', rfl, by decide⟩, by decide⟩
  have met : ∀ d ∈ ({ unbounded with odd := true } : NumericRange).demands, d.Met (-1) :=
    (forall_met_iff whole (-1)).mpr
      ⟨nofun, fun _ => by decide, fun c b present => by cases c <;> cases present⟩
  have accepted := (exact_test (-1)).mpr met
  cases made
  revert accepted
  decide +kernel

end NumericRange

end Schematron
