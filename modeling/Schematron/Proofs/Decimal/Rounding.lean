import Mathlib.Algebra.Order.Field.Power
import Mathlib.Data.Rat.Cast.Order
import Mathlib.Tactic.Linarith
import Mathlib.Tactic.NormNum.Pow
import Mathlib.Tactic.Positivity
import Mathlib.Tactic.Ring
import Schematron.Decimal.Rounding

/-!
# What rounds to a number

A ratio is rounded to a finite number if it is not farther from it than half of the
way to the next number above and to the next one below. `Near` says this of a ratio,
with the two ends only if the significand is even, and `ofDecimal_eq` that a decimal
of such a size is read as the number. Nothing is assumed of how the decimal is given.
-/

namespace Schematron

/-! ### Powers with signed exponents -/

theorem pow_toNat_div (b : ℚ) (e : ℤ) : b ^ e.toNat / b ^ (-e).toNat = b ^ e := by
  rcases Int.eq_nat_or_neg e with ⟨n, rfl | rfl⟩
  · simp
  · simp

/-- A ratio of natural numbers over a power of a base, as a ratio of natural numbers. -/
theorem ratio_over_pow (b num den : ℕ) (e : ℤ) :
    ((num * Nat.pow b (-e).toNat : ℕ) : ℚ) / (den * Nat.pow b e.toNat : ℕ) =
      num / den / (b : ℚ) ^ e := by
  rw [← pow_toNat_div, Nat.pow_eq, Nat.pow_eq]
  push_cast
  rw [div_div_div_eq, mul_comm (den : ℚ)]

/-! ### Binary magnitudes -/

section Magnitude

variable {num den : ℕ} {e : ℤ}

/-- A ratio is compared to a power of two without rounding. -/
theorem scaled_lt_iff (num : ℕ) (den_pos : 0 < den) (e : ℤ) :
    num * Nat.pow 2 (-e).toNat < den * Nat.pow 2 e.toNat ↔ (num / den : ℚ) < 2 ^ e := by
  have scaled := ratio_over_pow 2 num den e
  have unit : (0 : ℚ) < 2 ^ e := by positivity
  rw [Nat.cast_ofNat] at scaled
  rw [← div_lt_one unit, ← scaled, div_lt_one]
  · exact Nat.cast_lt.symm
  · exact_mod_cast Nat.mul_pos den_pos (Nat.pow_pos two_pos)

/-- The lengths of the two numbers tell the size of their ratio within a factor of two. -/
theorem ratio_between_log2 (num_pos : 0 < num) (den_pos : 0 < den)
    (lengths : (num.log2 : ℤ) - den.log2 = e) :
    (2 : ℚ) ^ (e - 1) ≤ num / den ∧ (num / den : ℚ) < 2 ^ (e + 1) := by
  have num_low : (2 : ℚ) ^ num.log2 ≤ num := by exact_mod_cast Nat.log2_self_le num_pos.ne'
  have num_high : (num : ℚ) < 2 ^ (num.log2 + 1) := by exact_mod_cast @Nat.lt_log2_self num
  have den_low : (2 : ℚ) ^ den.log2 ≤ den := by exact_mod_cast Nat.log2_self_le den_pos.ne'
  have den_high : (den : ℚ) < 2 ^ (den.log2 + 1) := by exact_mod_cast @Nat.lt_log2_self den
  have den_pos' : (0 : ℚ) < den := by exact_mod_cast den_pos
  constructor
  · rw [le_div_iff₀ den_pos', ← lengths]
    calc (2 : ℚ) ^ ((num.log2 : ℤ) - den.log2 - 1) * den
        ≤ 2 ^ ((num.log2 : ℤ) - den.log2 - 1) * 2 ^ (den.log2 + 1) := by gcongr
      _ = 2 ^ num.log2 := by
        rw [← zpow_natCast, ← zpow_natCast, ← zpow_add₀ (by norm_num)]
        congr 1
        push_cast
        omega
      _ ≤ num := num_low
  · rw [div_lt_iff₀ den_pos', ← lengths]
    calc (num : ℚ) < 2 ^ (num.log2 + 1) := num_high
      _ = 2 ^ ((num.log2 : ℤ) - den.log2 + 1) * 2 ^ den.log2 := by
        rw [← zpow_natCast, ← zpow_natCast, ← zpow_add₀ (by norm_num)]
        congr 1
        push_cast
        omega
      _ ≤ _ := by gcongr

/-- The magnitude is the exponent of the greatest power of two up to the ratio. -/
theorem binaryMagnitude_spec (num_pos : 0 < num) (den_pos : 0 < den) :
    (2 : ℚ) ^ binaryMagnitude num den ≤ num / den ∧
      (num / den : ℚ) < 2 ^ (binaryMagnitude num den + 1) := by
  -- The difference of the lengths is the magnitude or one more than it.
  generalize lengths : (num.log2 : ℤ) - den.log2 = estimate
  obtain ⟨below, above⟩ := ratio_between_log2 num_pos den_pos lengths
  rw [binaryMagnitude, lengths]
  split
  · next less =>
    rw [sub_add_cancel]
    exact ⟨below, (scaled_lt_iff num den_pos estimate).mp less⟩
  · next more => exact ⟨not_lt.mp (mt (scaled_lt_iff num den_pos estimate).mpr more), above⟩

theorem binaryMagnitude_lt (num_pos : 0 < num) (den_pos : 0 < den)
    (below : (num / den : ℚ) < 2 ^ e) : binaryMagnitude num den < e := by
  have reached := (binaryMagnitude_spec num_pos den_pos).1
  exact (zpow_lt_zpow_iff_right₀ one_lt_two).mp (reached.trans_lt below)

theorem le_binaryMagnitude (num_pos : 0 < num) (den_pos : 0 < den)
    (above : (2 : ℚ) ^ e ≤ num / den) : e ≤ binaryMagnitude num den := by
  have exceeded := (binaryMagnitude_spec num_pos den_pos).2
  exact Int.lt_add_one_iff.mp
    ((zpow_lt_zpow_iff_right₀ (one_lt_two (α := ℚ))).mp (above.trans_lt exceeded))

end Magnitude

/-! ### Rounded quotients -/

/-- A ratio is rounded to what is at most a half away, and to the even one of two that are. -/
theorem roundedQuotient_eq {num den s : ℕ} (den_pos : 0 < den) (low : (s : ℚ) - 1 / 2 ≤ num / den)
    (high : (num / den : ℚ) ≤ s + 1 / 2)
    (strict : s % 2 = 1 → (s : ℚ) - 1 / 2 < num / den ∧ (num / den : ℚ) < s + 1 / 2) :
    roundedQuotient num den = s := by
  have den_pos' : (0 : ℚ) < den := by exact_mod_cast den_pos
  have rest_lt : num % den < den := Nat.mod_lt num den_pos
  have parts : den * (num / den) + num % den = num := Nat.div_add_mod num den
  have low' : 2 * s * den ≤ 2 * num + den := by
    rw [le_div_iff₀ den_pos'] at low
    exact_mod_cast (by linarith : (2 * s * den : ℚ) ≤ 2 * num + den)
  have high' : 2 * num ≤ (2 * s + 1) * den := by
    rw [div_le_iff₀ den_pos'] at high
    exact_mod_cast (by linarith : (2 * num : ℚ) ≤ (2 * s + 1) * den)
  have strict' : s % 2 = 1 → 2 * s * den < 2 * num + den ∧ 2 * num < (2 * s + 1) * den := by
    intro odd
    obtain ⟨above, below⟩ := strict odd
    rw [lt_div_iff₀ den_pos'] at above
    rw [div_lt_iff₀ den_pos'] at below
    exact ⟨by exact_mod_cast (by linarith : (2 * s * den : ℚ) < 2 * num + den),
      by exact_mod_cast (by linarith : (2 * num : ℚ) < (2 * s + 1) * den)⟩
  rw [roundedQuotient]
  generalize num / den = quotient at parts ⊢
  generalize num % den = rest at parts rest_lt ⊢
  have at_most : s < quotient + 2 := by
    refine Nat.lt_of_mul_lt_mul_right (a := den) ?_
    nlinarith
  have at_least : quotient < s + 1 := by
    refine Nat.lt_of_mul_lt_mul_right (a := den) ?_
    nlinarith
  obtain rfl | rfl : s = quotient ∨ s = quotient + 1 := by omega
  · have small : 2 * rest ≤ den := by nlinarith
    have smaller (odd : s % 2 = 1) : 2 * rest < den := by nlinarith [strict' odd]
    refine if_neg ?_
    simp only [Bool.or_eq_true, Bool.and_eq_true, decide_eq_true_eq]
    omega
  · have large : den ≤ 2 * rest := by nlinarith
    have larger (odd : (quotient + 1) % 2 = 1) : den < 2 * rest := by nlinarith [strict' odd]
    refine if_pos ?_
    simp only [Bool.or_eq_true, Bool.and_eq_true, decide_eq_true_eq]
    omega

/-- The same for a ratio in units of a power of two. -/
theorem roundedQuotient_scaled {num den s : ℕ} {e : ℤ} (den_pos : 0 < den)
    (low : (s : ℚ) - 1 / 2 ≤ num / den / 2 ^ e) (high : (num / den / 2 ^ e : ℚ) ≤ s + 1 / 2)
    (strict : s % 2 = 1 →
      (s : ℚ) - 1 / 2 < num / den / 2 ^ e ∧ (num / den / 2 ^ e : ℚ) < s + 1 / 2) :
    roundedQuotient (num * Nat.pow 2 (-e).toNat) (den * Nat.pow 2 e.toNat) = s := by
  have scaled := ratio_over_pow 2 num den e
  rw [Nat.cast_ofNat] at scaled
  rw [← scaled] at low high strict
  exact roundedQuotient_eq (Nat.mul_pos den_pos (Nat.pow_pos two_pos)) low high strict

namespace Binary64

/-! ### What is near to a number -/

variable {negative : Bool} {scale : Fin 2047} {fraction : Fin (Nat.pow 2 52)} {size : ℚ}

/-- Half of the way to the next number below, in units of the last bit. Below a power of two the
numbers are twice as dense, the least normal number excepted. -/
def gap (scale : Fin 2047) (fraction : Fin (Nat.pow 2 52)) : ℚ :=
  if fraction.val = 0 ∧ scale.val > 1 then 1 / 4 else 1 / 2

/-- The sizes that are rounded to a finite number. -/
structure Near (scale : Fin 2047) (fraction : Fin (Nat.pow 2 52)) (size : ℚ) : Prop where
  low : significand scale fraction - gap scale fraction ≤ size / 2 ^ lastBit scale
  high : size / 2 ^ lastBit scale ≤ significand scale fraction + 1 / 2
  strict : fraction.val % 2 = 1 →
    significand scale fraction - gap scale fraction < size / 2 ^ lastBit scale ∧
      size / 2 ^ lastBit scale < significand scale fraction + 1 / 2

theorem pow_two_52 : Nat.pow 2 52 = 4503599627370496 := rfl

theorem significand_lt (scale : Fin 2047) (fraction : Fin (Nat.pow 2 52)) :
    significand scale fraction < 2 ^ 53 := by
  have small : fraction.val < Nat.pow 2 52 := fraction.isLt
  have power := pow_two_52
  rw [significand]
  split
  · omega
  · omega

theorem significand_mod_two (scale : Fin 2047) (fraction : Fin (Nat.pow 2 52)) :
    significand scale fraction % 2 = fraction.val % 2 := by
  rw [significand]
  split
  · rfl
  · have power := pow_two_52
    omega

theorem lastBit_bounds (scale : Fin 2047) : -1074 ≤ lastBit scale ∧ lastBit scale ≤ 971 := by
  have small : scale.val < 2047 := scale.isLt
  rw [lastBit]
  split
  · omega
  · omega

theorem gap_le (scale : Fin 2047) (fraction : Fin (Nat.pow 2 52)) :
    gap scale fraction ≤ 1 / 2 := by
  rw [gap]
  split
  · norm_num
  · norm_num

/-- The fields of a number are found again in its significand and its last bit. -/
theorem ofSignificand_significand (negative : Bool) (scale : Fin 2047)
    (fraction : Fin (Nat.pow 2 52)) :
    ofSignificand negative (significand scale fraction) (lastBit scale) =
      .finite negative scale fraction := by
  have small : fraction.val < Nat.pow 2 52 := fraction.isLt
  have bound : scale.val < 2047 := scale.isLt
  rw [ofSignificand, significand, lastBit]
  by_cases least : scale.val = 0
  · have first : (0 : Fin 2047) = scale := Fin.ext least.symm
    have second : Fin.ofNat (Nat.pow 2 52) fraction.val = fraction :=
      Fin.ext (Nat.mod_eq_of_lt small)
    rw [if_pos least, if_pos small, first, second]
  · have first : Fin.ofNat 2047 ((scale.val : ℤ) - 1075 + 1075).toNat = scale := by
      refine Fin.ext ((congrArg (· % 2047) ?_).trans (Nat.mod_eq_of_lt bound))
      omega
    have second : Fin.ofNat (Nat.pow 2 52) (Nat.pow 2 52 + fraction.val - Nat.pow 2 52) =
        fraction := by
      rw [Nat.add_sub_cancel_left]
      exact Fin.ext (Nat.mod_eq_of_lt small)
    rw [if_neg least, if_neg least, if_neg (by omega), first, second]

/-- What is near to a number has no more bits than it. -/
theorem Near.size_lt_unit (near : Near scale fraction size) :
    size < 2 ^ (lastBit scale + 53) := by
  have unit : (0 : ℚ) < 2 ^ lastBit scale := by positivity
  have digits : (significand scale fraction : ℚ) + 1 ≤ 2 ^ 53 := by
    exact_mod_cast significand_lt scale fraction
  rw [zpow_add₀ (by norm_num)]
  refine (div_lt_iff₀' unit).mp ?_
  rw [zpow_ofNat]
  linarith [near.high]

/-- What has fewer bits than a normal number is only near to it just below a power of two, where
the numbers are twice as dense. -/
theorem Near.below_power (near : Near scale fraction size) (normal : lastBit scale ≠ -1074)
    (below : size / 2 ^ lastBit scale < 2 ^ 52) :
    significand scale fraction = 2 ^ 52 ∧ 2 ^ 52 - 1 / 4 ≤ size / 2 ^ lastBit scale := by
  have later : 1 < scale.val := by
    rw [lastBit] at normal
    split at normal
    · exact absurd rfl normal
    · omega
  have leading : significand scale fraction = 2 ^ 52 + fraction.val := if_neg (by omega)
  have low := near.low
  have whole : fraction.val = 0 := by
    have short := gap_le scale fraction
    rw [leading] at low
    push_cast at low
    have small : (fraction.val : ℚ) < 1 := by linarith
    exact Nat.lt_one_iff.mp (by exact_mod_cast small)
  have quarter : gap scale fraction = 1 / 4 := if_pos ⟨whole, later⟩
  rw [whole, Nat.add_zero] at leading
  rw [quarter, leading] at low
  push_cast at low
  exact ⟨leading, low⟩

/-! ### Reading what is near -/

section ofRatio

variable {num den s : ℕ} {e : ℤ}

theorem ofRatio_of_ne (num_pos : 0 < num)
    (exponent : max (binaryMagnitude num den - 52) (-1074) = e)
    (rounded : roundedQuotient (num * Nat.pow 2 (-e).toNat) (den * Nat.pow 2 e.toNat) = s)
    (no_carry : s < 2 ^ 53) (bounded : e ≤ 971) :
    ofRatio negative num den = ofSignificand negative s e := by
  have other : s ≠ Nat.pow 2 53 := no_carry.ne
  rw [ofRatio, if_neg num_pos.ne', exponent]
  simp only [rounded, if_neg other]
  exact if_neg (not_lt.mpr bounded)

theorem ofRatio_of_carry (num_pos : 0 < num)
    (exponent : max (binaryMagnitude num den - 52) (-1074) = e)
    (rounded : roundedQuotient (num * Nat.pow 2 (-e).toNat) (den * Nat.pow 2 e.toNat) = 2 ^ 53)
    (bounded : e + 1 ≤ 971) :
    ofRatio negative num den = ofSignificand negative (2 ^ 52) (e + 1) := by
  have carry : roundedQuotient (num * Nat.pow 2 (-e).toNat) (den * Nat.pow 2 e.toNat) =
      Nat.pow 2 53 := rounded
  rw [ofRatio, if_neg num_pos.ne', exponent]
  simp only [if_pos carry]
  exact if_neg (not_lt.mpr bounded)

/-- A ratio that is near to a number is rounded to it. -/
theorem ofRatio_eq (num_pos : 0 < num) (den_pos : 0 < den)
    (near : Near scale fraction (num / den)) :
    ofRatio negative num den = .finite negative scale fraction := by
  obtain ⟨least, greatest⟩ := lastBit_bounds scale
  have fields := ofSignificand_significand negative scale fraction
  have unit : (0 : ℚ) < 2 ^ lastBit scale := by positivity
  have at_most := binaryMagnitude_lt num_pos den_pos near.size_lt_unit
  by_cases dense : (2 : ℚ) ^ (lastBit scale + 52) ≤ num / den ∨ lastBit scale = -1074
  · -- The ratio has as many bits as the number, or there are no smaller ones.
    have exponent : max (binaryMagnitude num den - 52) (-1074) = lastBit scale := by
      rcases dense with large | last
      · have at_least := le_binaryMagnitude num_pos den_pos large
        omega
      · omega
    have short := gap_le scale fraction
    have low := near.low
    have parity := significand_mod_two scale fraction
    have rounded := @roundedQuotient_scaled num den (significand scale fraction) (lastBit scale)
      den_pos (by linarith) near.high fun odd => by
        obtain ⟨above, below⟩ := near.strict (parity.symm.trans odd)
        exact ⟨by linarith, below⟩
    rw [ofRatio_of_ne num_pos exponent rounded (significand_lt scale fraction) greatest, fields]
  · -- The ratio is just below a power of two, and it is rounded up to that.
    obtain ⟨below, normal⟩ := not_or.mp dense
    rw [not_le] at below
    have below' : (num / den / 2 ^ lastBit scale : ℚ) < 2 ^ 52 := by
      rw [div_lt_iff₀' unit, ← zpow_ofNat, ← zpow_add₀ (by norm_num)]
      exact below
    obtain ⟨leading, low⟩ := near.below_power normal below'
    have exponent : max (binaryMagnitude num den - 52) (-1074) = lastBit scale - 1 := by
      have upper := binaryMagnitude_lt num_pos den_pos below
      have lower : (2 : ℚ) ^ (lastBit scale + 51) ≤ num / den := by
        rw [zpow_add₀ (by norm_num), ← le_div_iff₀' unit, zpow_ofNat]
        linarith
      have lower := le_binaryMagnitude num_pos den_pos lower
      omega
    have halved : (num / den / 2 ^ (lastBit scale - 1) : ℚ) =
        2 * (num / den / 2 ^ lastBit scale) := by
      rw [zpow_sub_one₀ (by norm_num), ← div_div, div_inv_eq_mul, mul_comm]
    have rounded := @roundedQuotient_scaled num den (2 ^ 53) (lastBit scale - 1) den_pos
      (by rw [halved]; push_cast; linarith) (by rw [halved]; push_cast; linarith)
      fun odd => absurd odd (by decide)
    rw [ofRatio_of_carry num_pos exponent rounded (by omega), sub_add_cancel, ← leading, fields]

end ofRatio

/-- Only zero is near to what is too small. -/
theorem Near.eq_zero (near : Near scale fraction size) (small : size < 2 ^ (-1075 : ℤ)) :
    finite negative scale fraction = zero negative := by
  obtain ⟨least, -⟩ := lastBit_bounds scale
  have short := gap_le scale fraction
  have unit : (0 : ℚ) < 2 ^ lastBit scale := by positivity
  have half : size / 2 ^ lastBit scale < 1 / 2 := by
    rw [div_lt_iff₀' unit]
    calc size < 2 ^ (-1075 : ℤ) := small
      _ = 2 ^ (-1074 : ℤ) * (1 / 2) := by
        rw [show (-1075 : ℤ) = -1074 - 1 by norm_num, zpow_sub_one₀ (by norm_num), one_div]
      _ ≤ _ := by gcongr; norm_num
  have nothing : significand scale fraction = 0 := by
    have below : (significand scale fraction : ℚ) < 1 := by linarith [near.low]
    exact Nat.lt_one_iff.mp (by exact_mod_cast below)
  rw [significand] at nothing
  split at nothing
  · next lowest =>
    have first : scale = 0 := Fin.ext lowest
    have second : fraction = 0 := Fin.ext nothing
    rw [zero, first, second]
  · have power := pow_two_52
    omega

/-- The bounds of magnitudes lie outside of the format. -/
theorem two_pow_le_ten_pow : (2 : ℚ) ^ (1024 : ℤ) ≤ 10 ^ (309 : ℤ) ∧
    (10 : ℚ) ^ (-324 : ℤ) ≤ 2 ^ (-1075 : ℤ) := by
  have large : 2 ^ 1024 ≤ 10 ^ 309 := by decide +kernel
  have small : 2 ^ 1075 ≤ 10 ^ 324 := by decide +kernel
  constructor
  · rw [zpow_ofNat, zpow_ofNat]
    exact_mod_cast large
  · rw [zpow_neg, zpow_neg, zpow_ofNat, zpow_ofNat]
    gcongr
    exact_mod_cast small

/-- What is near to a finite number is below the limit of the format. -/
theorem Near.size_lt (near : Near scale fraction size) : size < 2 ^ (1024 : ℤ) := by
  obtain ⟨-, greatest⟩ := lastBit_bounds scale
  calc size < 2 ^ (lastBit scale + 53) := near.size_lt_unit
    _ ≤ 2 ^ (1024 : ℤ) := zpow_le_zpow_right₀ (by norm_num) (by omega)

end Binary64

namespace Decimal

/-- How far a decimal is from zero. -/
def size (d : Decimal) : ℚ := d.coefficient * 10 ^ d.exponent

/-- The magnitude is the exponent of the greatest power of ten up to the size. -/
theorem magnitude_spec {d : Decimal} (nonzero : d.coefficient ≠ 0) :
    10 ^ d.magnitude ≤ d.size ∧ d.size < 10 ^ (d.magnitude + 1) := by
  have some_digit : 0 < (digits d.coefficient).length := List.length_pos_iff.mpr (digits_ne_nil _)
  have below : (d.coefficient : ℚ) < 10 ^ (digits d.coefficient).length := by
    exact_mod_cast (Nat.length_toDigits_le_iff (by norm_num) some_digit).mp le_rfl
  have above : (10 : ℚ) ^ ((digits d.coefficient).length - 1) ≤ d.coefficient := by
    rcases Nat.eq_zero_or_pos ((digits d.coefficient).length - 1) with single | more
    · rw [single, pow_zero]
      exact_mod_cast Nat.one_le_iff_ne_zero.mpr nonzero
    · have longer := mt (Nat.length_toDigits_le_iff (by norm_num) more).mpr
        (Nat.not_le.mpr (Nat.sub_lt some_digit one_pos))
      exact_mod_cast not_lt.mp longer
  have unit : (0 : ℚ) < 10 ^ d.exponent := by positivity
  have leading : d.magnitude = ((digits d.coefficient).length - 1 : ℕ) + d.exponent := by
    rw [magnitude]
    omega
  have behind : d.magnitude + 1 = ((digits d.coefficient).length : ℕ) + d.exponent := by
    rw [magnitude]
    omega
  rw [behind, leading, size, zpow_add₀ (by norm_num), zpow_add₀ (by norm_num), zpow_natCast,
    zpow_natCast]
  exact ⟨by gcongr, by gcongr⟩

/-- The size of a decimal as the ratio that is rounded. -/
theorem ratio_eq_size (d : Decimal) : ((d.coefficient * Nat.pow 10 d.exponent.toNat : ℕ) : ℚ) /
    (Nat.pow 10 (-d.exponent).toNat : ℕ) = d.size := by
  rw [size, ← pow_toNat_div, Nat.pow_eq, Nat.pow_eq]
  push_cast
  rw [mul_div_assoc]

end Decimal

namespace Binary64

variable {d : Decimal}

theorem magnitude_lt (nonzero : d.coefficient ≠ 0) (limited : d.size < 2 ^ (1024 : ℤ)) :
    d.magnitude < 309 := by
  obtain ⟨low, -⟩ := Decimal.magnitude_spec nonzero
  obtain ⟨limit, -⟩ := two_pow_le_ten_pow
  have below : (10 : ℚ) ^ d.magnitude < 10 ^ (309 : ℤ) := low.trans_lt (limited.trans_le limit)
  exact (zpow_lt_zpow_iff_right₀ (by norm_num)).mp below

/-- A decimal whose size is near to a number is read as the number. -/
theorem ofDecimal_eq {scale : Fin 2047} {fraction : Fin (Nat.pow 2 52)}
    (near : Near scale fraction d.size) : ofDecimal d = .finite d.negative scale fraction := by
  rw [ofDecimal]
  split
  · next nothing =>
    have no_size : d.size = 0 := by rw [Decimal.size, nothing, Nat.cast_zero, zero_mul]
    exact (near.eq_zero (by rw [no_size]; positivity)).symm
  · next nonzero =>
    rw [if_neg (not_le.mpr (magnitude_lt nonzero near.size_lt))]
    split
    · next small =>
      obtain ⟨-, high⟩ := Decimal.magnitude_spec nonzero
      obtain ⟨-, limit⟩ := two_pow_le_ten_pow
      have beyond : (10 : ℚ) ^ (d.magnitude + 1) ≤ 10 ^ (-324 : ℤ) :=
        (zpow_le_zpow_iff_right₀ (by norm_num)).mpr (by omega)
      exact (near.eq_zero (high.trans_le (beyond.trans limit))).symm
    · apply ofRatio_eq
      · exact Nat.mul_pos (Nat.pos_of_ne_zero nonzero) (Nat.pow_pos (by norm_num))
      · exact Nat.pow_pos (by norm_num)
      · rw [d.ratio_eq_size]
        exact near

/-! ### Finite results -/

theorem isFinite_ofSignificand (negative : Bool) (significand : ℕ) (exponent : ℤ) :
    (ofSignificand negative significand exponent).isFinite = true := by
  rw [ofSignificand]
  split
  · rfl
  · rfl

/-- What is below the last power of two is not rounded to an infinity. -/
theorem isFinite_ofRatio {num den : ℕ} (den_pos : 0 < den)
    (small : (num / den : ℚ) < 2 ^ (1023 : ℤ)) : (ofRatio negative num den).isFinite = true := by
  rw [ofRatio]
  split
  · rfl
  · next nonzero =>
    have bounded := binaryMagnitude_lt (Nat.pos_of_ne_zero nonzero) den_pos small
    dsimp only
    split
    · rw [if_neg (by dsimp only; omega)]
      exact isFinite_ofSignificand _ _ _
    · rw [if_neg (by dsimp only; omega)]
      exact isFinite_ofSignificand _ _ _

theorem isFinite_ofDecimal (small : d.size < 2 ^ (1023 : ℤ)) : (ofDecimal d).isFinite = true := by
  rw [ofDecimal]
  split
  · rfl
  · next nonzero =>
    have limited : d.size < 2 ^ (1024 : ℤ) := small.trans (by
      exact (zpow_lt_zpow_iff_right₀ one_lt_two).mpr (by norm_num))
    rw [if_neg (not_le.mpr (magnitude_lt nonzero limited))]
    split
    · rfl
    · apply isFinite_ofRatio
      · exact Nat.pow_pos (by norm_num)
      · rw [d.ratio_eq_size]
        exact small

end Binary64

end Schematron
