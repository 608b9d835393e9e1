import Schematron.Decimal.Shortest
import Schematron.Proofs.Decimal.Rounding

/-!
# Shortest decimals read back

The shortest decimal of a number lies in the interval of what is rounded to it. So the
number is read back from it, and from every other way to write the same decimal.
-/

namespace Schematron

/-- A count of steps on a coarser grid, as a count on the grid below. -/
theorem Decimal.size_grid (negative : Bool) (count power : ℕ) (exponent : ℤ) :
    Decimal.size ⟨negative, count, exponent + power⟩ =
      (count * 10 ^ power : ℕ) * 10 ^ exponent := by
  rw [size, zpow_add₀ (by norm_num), zpow_natCast]
  push_cast
  ring

namespace RoundingInterval

variable {r : RoundingInterval} {tie : Tie} {n : ℕ}

theorem bounds_of_contains (inside : r.contains n = true) : r.low ≤ n ∧ n ≤ r.high ∧
    (r.closed = false → r.low < n ∧ n < r.high) := by
  rw [contains] at inside
  split at inside
  · next closed =>
    simp only [Bool.and_eq_true, decide_eq_true_eq] at inside
    exact ⟨inside.1, inside.2, fun opened => absurd (closed.symm.trans opened) (by decide)⟩
  · simp only [Bool.and_eq_true, decide_eq_true_eq] at inside
    exact ⟨inside.1.le, inside.2.le, fun _ => inside⟩

/-- A step of a grid is only taken inside of the interval. -/
theorem contains_of_nearest? {grid count : ℕ} (found : r.nearest? tie grid = some count) :
    r.contains (count * grid) = true := by
  simp only [nearest?] at found
  split at found
  · cases found
  · next below _ => cases found; exact below
  · next _ above => cases found; exact above
  · next below above =>
    split at found
    · cases found; exact below
    · split at found
      · cases found; exact above
      · split at found
        · cases found; exact above
        · split at found
          · cases found; exact below
          · cases found; exact above

theorem contains_shortestFrom (inside : r.contains r.value = true) (power : ℕ) :
    r.contains ((r.shortestFrom tie power).1 * 10 ^ (r.shortestFrom tie power).2) = true := by
  induction power with
  | zero => rwa [shortestFrom, pow_zero, mul_one]
  | succ power ih =>
      rw [shortestFrom]
      split
      · next count found => exact contains_of_nearest? found
      · exact ih

end RoundingInterval

namespace Binary64

variable {negative : Bool} {scale : Fin 2047} {fraction : Fin (Nat.pow 2 52)}

/-- The unit in which an interval is told: a quarter of the last bit, as a multiple of a power
of ten. -/
def quarter (scale : Fin 2047) : ℕ :=
  Nat.pow 2 (lastBit scale - 2).toNat * Nat.pow 5 (-(lastBit scale - 2)).toNat

theorem quarter_pos (scale : Fin 2047) : 0 < quarter scale :=
  Nat.mul_pos (Nat.pow_pos (by norm_num)) (Nat.pow_pos (by norm_num))

theorem quarter_eq (scale : Fin 2047) :
    (quarter scale : ℚ) * 10 ^ min (lastBit scale - 2) 0 = 2 ^ (lastBit scale - 2) := by
  rw [quarter]
  generalize lastBit scale - 2 = e
  rcases Int.eq_nat_or_neg e with ⟨n, rfl | rfl⟩
  · simp
  · have ten : (10 : ℚ) ^ n = 2 ^ n * 5 ^ n := by rw [← mul_pow]; norm_num
    simp [ten]

/-- A count of units of the interval, told in last bits. -/
theorem count_div_lastBit (scale : Fin 2047) (fraction : Fin (Nat.pow 2 52)) (n : ℕ) :
    (n * 10 ^ (interval scale fraction).2 / 2 ^ lastBit scale : ℚ) = n / (4 * quarter scale) := by
  show (n * 10 ^ min (lastBit scale - 2) 0 / 2 ^ lastBit scale : ℚ) = _
  have ten : (10 : ℚ) ^ min (lastBit scale - 2) 0 ≠ 0 := by positivity
  have last : (2 : ℚ) ^ lastBit scale =
      4 * quarter scale * 10 ^ min (lastBit scale - 2) 0 := by
    rw [mul_assoc, quarter_eq, zpow_sub₀ (by norm_num), zpow_ofNat]
    ring
  rw [last, mul_div_mul_right _ _ ten]

theorem significand_pos (nonzero : isZero (.finite negative scale fraction) = false) :
    0 < significand scale fraction := by
  have power := pow_two_52
  rw [significand]
  split
  · next least =>
    refine Nat.pos_of_ne_zero fun nothing => ?_
    have first : scale = 0 := Fin.ext least
    have second : fraction = 0 := Fin.ext nothing
    rw [isZero, first, second] at nonzero
    cases nonzero
  · omega

/-- The gap below a number in quarters of its last bit. -/
def gapQuarters (scale : Fin 2047) (fraction : Fin (Nat.pow 2 52)) : ℕ :=
  if fraction.val = 0 && scale.val > 1 then 1 else 2

theorem gap_eq (scale : Fin 2047) (fraction : Fin (Nat.pow 2 52)) :
    gap scale fraction = (gapQuarters scale fraction : ℚ) / 4 := by
  rw [gap, gapQuarters]
  simp only [Bool.and_eq_true, decide_eq_true_eq]
  split
  · norm_num
  · norm_num

theorem gapQuarters_bounds (scale : Fin 2047) (fraction : Fin (Nat.pow 2 52)) :
    0 < gapQuarters scale fraction ∧ gapQuarters scale fraction ≤ 2 := by
  rw [gapQuarters]
  split
  · omega
  · omega

/-- The lower end of the interval is where the numbers near to it begin. -/
theorem low_eq (nonzero : isZero (.finite negative scale fraction) = false) :
    (significand scale fraction - gap scale fraction) * (4 * quarter scale) =
      ((interval scale fraction).1.low : ℚ) := by
  have positive := significand_pos nonzero
  obtain ⟨-, wide⟩ := gapQuarters_bounds scale fraction
  have small : gapQuarters scale fraction ≤ 4 * significand scale fraction := by omega
  show _ = (((4 * significand scale fraction - gapQuarters scale fraction) * quarter scale : ℕ) : ℚ)
  rw [gap_eq]
  push_cast [Nat.cast_sub small]
  ring

theorem high_eq (scale : Fin 2047) (fraction : Fin (Nat.pow 2 52)) :
    ((significand scale fraction : ℚ) + 1 / 2) * (4 * quarter scale) =
      ((interval scale fraction).1.high : ℚ) := by
  show _ = (((4 * significand scale fraction + 2) * quarter scale : ℕ) : ℚ)
  push_cast
  ring

/-- What is in the interval of a number is near to it. -/
theorem near_of_contains (nonzero : isZero (.finite negative scale fraction) = false) {n : ℕ}
    (inside : (interval scale fraction).1.contains n = true) :
    Near scale fraction (n * 10 ^ (interval scale fraction).2) := by
  obtain ⟨low, high, strict⟩ := RoundingInterval.bounds_of_contains inside
  have unit : (0 : ℚ) < 4 * quarter scale := by
    have positive : (0 : ℚ) < quarter scale := by exact_mod_cast quarter_pos scale
    positivity
  constructor
  · rw [count_div_lastBit, le_div_iff₀ unit, low_eq nonzero]
    exact_mod_cast low
  · rw [count_div_lastBit, div_le_iff₀ unit, high_eq]
    exact_mod_cast high
  · intro odd
    obtain ⟨above, beneath⟩ := strict (decide_eq_false (by omega))
    rw [count_div_lastBit, lt_div_iff₀ unit, div_lt_iff₀ unit, low_eq nonzero, high_eq]
    exact ⟨by exact_mod_cast above, by exact_mod_cast beneath⟩

/-- A number lies in its own interval. -/
theorem contains_value (nonzero : isZero (.finite negative scale fraction) = false) :
    (interval scale fraction).1.contains (interval scale fraction).1.value = true := by
  have positive := significand_pos nonzero
  obtain ⟨some_gap, -⟩ := gapQuarters_bounds scale fraction
  have low : (interval scale fraction).1.low < (interval scale fraction).1.value :=
    Nat.mul_lt_mul_of_pos_right (show _ - gapQuarters scale fraction < _ by omega)
      (quarter_pos scale)
  have high : (interval scale fraction).1.value < (interval scale fraction).1.high :=
    Nat.mul_lt_mul_of_pos_right (by omega) (quarter_pos scale)
  rw [RoundingInterval.contains]
  split
  · simp [low.le, high.le]
  · simp [low, high]

theorem near_zero : Near 0 0 0 := by
  have bits : significand 0 0 = 0 := rfl
  have half : gap 0 0 = 1 / 2 := if_neg (by simp)
  refine ⟨?_, ?_, fun odd => absurd odd (by decide)⟩
  · rw [bits, half]
    norm_num
  · rw [bits]
    norm_num

/-- The shortest decimal of a finite number has its sign and is near to it. -/
theorem exists_shortest? (tie : Tie) (negative : Bool) (scale : Fin 2047)
    (fraction : Fin (Nat.pow 2 52)) :
    ∃ d, (finite negative scale fraction).shortest? tie = some d ∧ d.negative = negative ∧
      Near scale fraction d.size := by
  rw [shortest?]
  split
  · next zero =>
    simp only [isZero, Bool.and_eq_true, decide_eq_true_eq] at zero
    obtain ⟨rfl, rfl⟩ := zero
    have no_size : Decimal.size ⟨negative, 0, 0⟩ = 0 := by simp [Decimal.size]
    exact ⟨_, rfl, rfl, no_size ▸ near_zero⟩
  · next nonzero =>
    rw [Bool.not_eq_true] at nonzero
    have inside := @RoundingInterval.contains_shortestFrom (interval scale fraction).1 tie
      (contains_value nonzero) (Decimal.digits (interval scale fraction).1.value).length
    have near := near_of_contains nonzero inside
    refine ⟨_, rfl, rfl, ?_⟩
    show Near scale fraction (Decimal.size ⟨negative, _, _ + _⟩)
    rw [Decimal.size_grid]
    exact near

/-- A number is read back from its shortest decimal, however that is written. -/
theorem ofDecimal_shortest? {x : Binary64} {tie : Tie} {d d' : Decimal}
    (found : x.shortest? tie = some d) (sign : d'.negative = d.negative)
    (size : d'.size = d.size) : ofDecimal d' = x := by
  cases x with
  | nan => cases found
  | infinite negative => cases found
  | finite negative scale fraction =>
      obtain ⟨shortest, same, kept, near⟩ := exists_shortest? tie negative scale fraction
      cases same.symm.trans found
      rw [ofDecimal_eq (size ▸ near), sign, kept]

theorem shortest?_eq_none_iff {x : Binary64} {tie : Tie} :
    x.shortest? tie = none ↔ x.isFinite = false := by
  cases x with
  | nan => exact iff_of_true rfl rfl
  | infinite negative => exact iff_of_true rfl rfl
  | finite negative scale fraction =>
      obtain ⟨d, found, -⟩ := exists_shortest? tie negative scale fraction
      exact iff_of_false (by rw [found]; simp) (by simp [isFinite])

theorem isFinite_of_shortest? {x : Binary64} {tie : Tie} {d : Decimal}
    (found : x.shortest? tie = some d) : x.isFinite = true := by
  by_contra lost
  rw [Bool.not_eq_true, ← shortest?_eq_none_iff, found] at lost
  cases lost

/-- Only the shortest decimal of zero has no digits but a zero, and it is written without more
zeros behind it. -/
theorem exponent_of_shortest? {x : Binary64} {tie : Tie} {d : Decimal}
    (found : x.shortest? tie = some d) (nothing : d.coefficient = 0) : d.exponent = 0 := by
  cases x with
  | nan => cases found
  | infinite negative => cases found
  | finite negative scale fraction =>
      obtain ⟨shortest, same, -, near⟩ := exists_shortest? tie negative scale fraction
      cases same.symm.trans found
      have no_size : d.size = 0 := by rw [Decimal.size, nothing, Nat.cast_zero, zero_mul]
      have zero := @Near.eq_zero negative _ _ _ near (by rw [no_size]; positivity)
      have known : (Binary64.zero negative).shortest? tie = some ⟨negative, 0, 0⟩ := rfl
      rw [zero, known] at found
      cases found
      rfl

end Binary64

end Schematron
