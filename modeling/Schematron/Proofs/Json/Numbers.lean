import Mathlib.Tactic.IntervalCases
import Schematron.Json.Printer
import Schematron.Json.Reader
import Schematron.Proofs.Decimal.Rounding

/-!
# Numbers in JSON texts

An integer is read back as itself. A decimal is read back with its sign and its size,
though not always with its digits: one that is a whole number is written with a zero
behind the point, and that is a digit of what is read.
-/

namespace Schematron

namespace Decimal

/-- Only zero is written with a leading zero. -/
theorem eq_zero_of_head?_digits {n : ℕ} (leading : (digits n).head? = some '0') : n = 0 := by
  induction n using Nat.strongRecOn with
  | ind n ih =>
      rw [digits, Nat.toDigits_eq_if (by decide)] at leading
      split at leading
      · next small =>
        interval_cases n
        all_goals first | rfl | exact absurd leading (by decide)
      · next large =>
        change (digits (n / 10) ++ _).head? = _ at leading
        rw [List.head?_append_of_ne_nil _ (digits_ne_nil (n / 10))] at leading
        have less : n / 10 < n := by omega
        have nothing := ih (n / 10) less leading
        omega

theorem ofDigits_append (ds es : List Char) :
    ofDigits (ds ++ es) = ofDigits ds * 10 ^ es.length + ofDigits es := by
  rw [ofDigits, Nat.ofDigitChars_append, Nat.ofDigitChars_eq_ofDigitChars_zero, mul_comm]
  rfl

theorem ofDigits_replicate_zero (n : ℕ) : ofDigits (List.replicate n '0') = 0 := by
  induction n with
  | zero => rfl
  | succ n ih =>
      have zero : ofDigits ['0'] = 0 := rfl
      rw [List.replicate_succ, ← List.singleton_append, ofDigits_append, ih, zero, zero_mul]

/-- A decimal as it is read from its text with all places. -/
def pointed (d : Decimal) : Decimal :=
  if 0 ≤ d.exponent then ⟨d.negative, d.coefficient * 10 ^ (d.exponent.toNat + 1), -1⟩ else d

/-- A decimal as it is read from its text in configuration. -/
def retold (d : Decimal) : Decimal :=
  if Layout.tagged.isPositional d.magnitude then d.pointed else d

@[simp] theorem negative_retold (d : Decimal) : d.retold.negative = d.negative := by
  rw [retold, pointed]
  split
  · split
    · rfl
    · rfl
  · rfl

/-- The sizes of a decimal and of what is read are the same. -/
@[simp] theorem size_retold (d : Decimal) : d.retold.size = d.size := by
  have whole (above : 0 ≤ d.exponent) :
      size ⟨d.negative, d.coefficient * 10 ^ (d.exponent.toNat + 1), -1⟩ = d.size := by
    obtain ⟨power, same⟩ := Int.eq_ofNat_of_zero_le above
    rw [size, size, same, Int.toNat_natCast, zpow_natCast]
    push_cast
    ring
  rw [retold, pointed]
  split
  · split
    · next above => exact whole above
    · rfl
  · rfl

end Decimal

namespace Json

variable {ds rest : List Char}

/-- The characters are digits, at least one. -/
def Digits (ds : List Char) : Prop := ds ≠ [] ∧ ∀ c ∈ ds, c.isDigit = true

theorem digits_digits (n : ℕ) : Digits (Decimal.digits n) :=
  ⟨Decimal.digits_ne_nil n, fun _ => Decimal.isDigit_of_mem_digits⟩

/-- What stands behind a number and does not continue it. -/
def Stops (rest : List Char) : Prop :=
  ∀ c ∈ rest.head?, c.isDigit = false ∧ c ≠ '.' ∧ c ≠ 'e' ∧ c ≠ 'E'

theorem readDigits_append (digits : Digits ds) (stops : ∀ c ∈ rest.head?, c.isDigit = false) :
    readDigits (ds ++ rest) = some (ds, rest) := by
  have taken : rest.takeWhile Char.isDigit = [] := by
    cases rest with
    | nil => rfl
    | cons c rest => rw [List.takeWhile_cons, stops c rfl]; rfl
  have dropped : rest.dropWhile Char.isDigit = rest := by
    cases rest with
    | nil => rfl
    | cons c rest => rw [List.dropWhile_cons, stops c rfl]; rfl
  rw [readDigits, List.takeWhile_append_of_pos digits.2, List.dropWhile_append_of_pos digits.2,
    taken, dropped, List.append_nil]
  obtain ⟨c, more, rfl⟩ := List.exists_cons_of_ne_nil digits.1
  rfl

/-- Digits before a point, which start with a zero only if there is nothing else. -/
structure Whole (ds : List Char) : Prop where
  digits : Digits ds
  leading : ds.head? = some '0' → ds = ['0']

theorem whole_digits (n : ℕ) : Whole (Decimal.digits n) where
  digits := digits_digits n
  leading zero := by rw [Decimal.eq_zero_of_head?_digits zero]; rfl

theorem readWhole_append (whole : Whole ds) (stops : ∀ c ∈ rest.head?, c.isDigit = false) :
    readWhole (ds ++ rest) = some (ds, rest) := by
  obtain ⟨c, more, rfl⟩ := List.exists_cons_of_ne_nil whole.digits.1
  by_cases zero : c = '0'
  · rw [whole.leading (by rw [zero]; rfl)]
    rfl
  · rw [← readDigits_append whole.digits stops, List.cons_append, readWhole]
    intro later same
    exact zero (List.cons.inj same).1

/-! ### The parts of a number -/

section parts

variable {negative : Bool} {whole places : List Char}

theorem readFraction_of_stops (stops : Stops rest) : readFraction rest = some (none, rest) := by
  cases rest with
  | nil => rfl
  | cons c rest =>
      rw [readFraction]
      intro later same
      exact (stops c rfl).2.1 (List.cons.inj same).1

theorem readExponent_of_stops (stops : Stops rest) : readExponent rest = some (none, rest) := by
  cases rest with
  | nil => rfl
  | cons c rest =>
      rw [readExponent]
      · intro later same
        exact (stops c rfl).2.2.1 (List.cons.inj same).1
      · intro later same
        exact (stops c rfl).2.2.2 (List.cons.inj same).1

theorem Stops.no_digit (stops : Stops rest) : ∀ c ∈ rest.head?, c.isDigit = false :=
  fun c first => (stops c first).1

theorem readUnsigned_parts {cs cs' cs'' : List Char} {fraction : Option (List Char)}
    {exponent : Option ℤ} (whole_read : readWhole cs = some (whole, cs'))
    (fraction_read : readFraction cs' = some (fraction, cs''))
    (exponent_read : readExponent cs'' = some (exponent, rest)) :
    readUnsigned negative cs = some (ofNumberParts negative whole fraction exponent, rest) := by
  simp [readUnsigned, whole_read, fraction_read, exponent_read]

theorem readUnsigned_whole (digits : Whole whole) (stops : Stops rest) :
    readUnsigned negative (whole ++ rest) = some (ofNumberParts negative whole none none, rest) :=
  readUnsigned_parts (readWhole_append digits stops.no_digit) (readFraction_of_stops stops)
    (readExponent_of_stops stops)

theorem readFraction_places (digits : Digits places)
    (stops : ∀ c ∈ rest.head?, c.isDigit = false) :
    readFraction ('.' :: (places ++ rest)) = some (some places, rest) := by
  rw [readFraction, readDigits_append digits stops]
  rfl

/-- Digits on both sides of a point are a decimal with the places behind the point. -/
theorem readUnsigned_places (digits : Whole whole) (digits' : Digits places) (stops : Stops rest) :
    readUnsigned negative (whole ++ '.' :: (places ++ rest)) =
      some (.decimal ⟨negative, Decimal.ofDigits (whole ++ places), -places.length⟩, rest) := by
  have point : ∀ c ∈ ('.' :: (places ++ rest)).head?, c.isDigit = false := by simp
  rw [readUnsigned_parts (readWhole_append digits point)
    (readFraction_places digits' stops.no_digit) (readExponent_of_stops stops)]
  simp [ofNumberParts]

/-- The exponent as it is written behind the digits. -/
def exponentChars (exponent : ℤ) : List Char :=
  'e' :: (if exponent < 0 then '-' else '+') :: Decimal.digits exponent.natAbs

theorem readExponent_exponentChars (exponent : ℤ) (stops : Stops rest) :
    readExponent (exponentChars exponent ++ rest) = some (some exponent, rest) := by
  have digits := readDigits_append (digits_digits exponent.natAbs) stops.no_digit
  rw [exponentChars, List.cons_append, List.cons_append, readExponent]
  split
  · simp only [readExponentDigits, digits, Option.map_some, Decimal.ofDigits_digits,
      Option.some.injEq, Prod.mk.injEq, and_true]
    omega
  · simp only [readExponentDigits, digits, Option.map_some, Decimal.ofDigits_digits,
      Option.some.injEq, Prod.mk.injEq, and_true]
    omega

/-- The form with an exponent is a decimal of the same digits. -/
theorem readUnsigned_exponent (digits : Whole ds) (exponent : ℤ) (stops : Stops rest) :
    readUnsigned negative (Decimal.exponentText ds exponent ++ rest) =
      some (.decimal ⟨negative, Decimal.ofDigits ds, exponent - (ds.length - 1)⟩, rest) := by
  obtain ⟨first, others, rfl⟩ := List.exists_cons_of_ne_nil digits.digits.1
  obtain ⟨first_digit, other_digits⟩ := List.forall_mem_cons.mp digits.digits.2
  have alone : Whole [first] := by
    refine ⟨⟨by simp, by simpa using first_digit⟩, fun zero => ?_⟩
    rw [List.head?_cons, Option.some.injEq] at zero
    rw [zero]
  have exponent_read := readExponent_exponentChars exponent stops
  have mark : ∀ c ∈ (exponentChars exponent ++ rest).head?, c.isDigit = false := by
    simp [exponentChars]
  cases others with
  | nil =>
      have no_fraction : readFraction (exponentChars exponent ++ rest) =
          some (none, exponentChars exponent ++ rest) := by
        rw [exponentChars, List.cons_append, readFraction]
        intro later same
        exact absurd (List.cons.inj same).1 (by decide)
      have parts := @readUnsigned_parts _ negative _ _ _ _ _ _
        (readWhole_append alone mark) no_fraction exponent_read
      have text : Decimal.exponentText [first] exponent ++ rest =
          [first] ++ (exponentChars exponent ++ rest) := by
        simp [Decimal.exponentText, exponentChars]
      rw [text, parts]
      simp [ofNumberParts]
  | cons second more =>
      have point : ∀ c ∈ ('.' :: (second :: more ++ (exponentChars exponent ++ rest))).head?,
          c.isDigit = false := by simp
      have places : Digits (second :: more) := ⟨by simp, other_digits⟩
      have fraction_read := readFraction_places places mark
      have parts := @readUnsigned_parts _ negative _ _ _ _ _ _
        (readWhole_append alone point) fraction_read exponent_read
      have text : Decimal.exponentText (first :: second :: more) exponent ++ rest =
          [first] ++ '.' :: (second :: more ++ (exponentChars exponent ++ rest)) := by
        simp [Decimal.exponentText, exponentChars]
      rw [text, parts]
      simp [ofNumberParts]

end parts

/-! ### Numbers as they are written -/

theorem isDigit_of_mem_zeros {zeros : ℕ} {c : Char} (mem : c ∈ List.replicate zeros '0') :
    c.isDigit = true := by
  rw [List.eq_of_mem_replicate mem]
  rfl

/-- Digits before a point with zeros behind them. -/
theorem whole_zeros {n : ℕ} {zeros : ℕ} (shown : n = 0 → zeros = 0) :
    Whole (Decimal.digits n ++ List.replicate zeros '0') where
  digits := by
    refine ⟨by simp [Decimal.digits_ne_nil], ?_⟩
    exact List.forall_mem_append.mpr ⟨(digits_digits n).2, fun _ => isDigit_of_mem_zeros⟩
  leading zero := by
    rw [List.head?_append_of_ne_nil _ (Decimal.digits_ne_nil n)] at zero
    have nothing := Decimal.eq_zero_of_head?_digits zero
    rw [nothing, shown nothing]
    rfl

/-- The digits before the point of a number that has some. -/
theorem whole_take {n count : ℕ} (some_digit : 0 < count)
    (others : count < (Decimal.digits n).length) : Whole ((Decimal.digits n).take count) where
  digits := by
    refine ⟨?_, fun c mem => (digits_digits n).2 c (List.mem_of_mem_take mem)⟩
    rw [ne_eq, List.take_eq_nil_iff, not_or]
    exact ⟨some_digit.ne', Decimal.digits_ne_nil n⟩
  leading zero := by
    rw [List.head?_take, if_neg some_digit.ne'] at zero
    have single : (Decimal.digits 0).length = 1 := rfl
    rw [Decimal.eq_zero_of_head?_digits zero, single] at others
    omega

section positional

variable {negative : Bool} {n : ℕ}

/-- The zero behind the point of a whole number is one more digit. -/
theorem readUnsigned_zeros {zeros : ℕ} (shown : n = 0 → zeros = 0) (stops : Stops rest) :
    readUnsigned negative
        (Decimal.digits n ++ List.replicate zeros '0' ++ '.' :: (['0'] ++ rest)) =
      some (.decimal ⟨negative, n * 10 ^ (zeros + 1), -1⟩, rest) := by
  have zero : Digits ['0'] := ⟨by simp, by simp⟩
  have value : Decimal.ofDigits (Decimal.digits n ++ List.replicate zeros '0' ++ ['0']) =
      n * 10 ^ (zeros + 1) := by
    rw [Decimal.ofDigits_append, Decimal.ofDigits_append, Decimal.ofDigits_replicate_zero,
      Decimal.ofDigits_digits, List.length_replicate, pow_succ, ← mul_assoc]
    rfl
  rw [readUnsigned_places (whole_zeros shown) zero stops, value]
  rfl

/-- A point among the digits. -/
theorem readUnsigned_split {count : ℕ} (some_digit : 0 < count)
    (others : count < (Decimal.digits n).length) (stops : Stops rest) :
    readUnsigned negative
        ((Decimal.digits n).take count ++ '.' :: ((Decimal.digits n).drop count ++ rest)) =
      some (.decimal ⟨negative, n, -((Decimal.digits n).length - count : ℕ)⟩, rest) := by
  have places : Digits ((Decimal.digits n).drop count) := by
    refine ⟨?_, fun c mem => (digits_digits n).2 c (List.mem_of_mem_drop mem)⟩
    rw [ne_eq, List.drop_eq_nil_iff]
    omega
  rw [readUnsigned_places (whole_take some_digit others) places stops, List.take_append_drop,
    Decimal.ofDigits_digits, List.length_drop]

/-- A zero before the point and further ones behind it. -/
theorem readUnsigned_below_one (zeros : ℕ) (stops : Stops rest) :
    readUnsigned negative
        (['0'] ++ '.' :: (List.replicate zeros '0' ++ Decimal.digits n ++ rest)) =
      some (.decimal ⟨negative, n, -(zeros + (Decimal.digits n).length : ℕ)⟩, rest) := by
  have places : Digits (List.replicate zeros '0' ++ Decimal.digits n) := by
    refine ⟨by simp [Decimal.digits_ne_nil], ?_⟩
    exact List.forall_mem_append.mpr ⟨fun _ => isDigit_of_mem_zeros, (digits_digits n).2⟩
  have alone : Whole ['0'] := whole_digits 0
  have zero : Decimal.ofDigits ['0'] = 0 := rfl
  rw [readUnsigned_places alone places stops, Decimal.ofDigits_append,
    Decimal.ofDigits_append, Decimal.ofDigits_replicate_zero, Decimal.ofDigits_digits, zero,
    zero_mul, zero_mul, zero_add, zero_add, List.length_append, List.length_replicate]

end positional

/-- With all its places a decimal is read back, with the zero behind its point if it is whole. -/
theorem readUnsigned_positional {d : Decimal} (shown : d.coefficient = 0 → d.exponent ≤ 0)
    (stops : Stops rest) :
    readUnsigned d.negative
        (Decimal.positionalText true (Decimal.digits d.coefficient) d.exponent ++ rest) =
      some (.decimal d.pointed, rest) := by
  obtain ⟨negative, n, exponent⟩ := d
  dsimp only at shown ⊢
  rw [Decimal.positionalText, Decimal.pointed]
  split
  · next whole =>
    have no_zeros : n = 0 → exponent.toNat = 0 := fun nothing => by
      have := shown nothing
      omega
    rw [if_pos rfl, List.append_assoc]
    exact readUnsigned_zeros no_zeros stops
  · next fractional =>
    dsimp only
    split
    · next some_before =>
      have power : -(((Decimal.digits n).length - ((Decimal.digits n).length -
          (-exponent).toNat) : ℕ) : ℤ) = exponent := by omega
      rw [List.append_assoc, List.cons_append,
        readUnsigned_split (by omega) (by omega) stops, power]
    · next none_before =>
      have read := @readUnsigned_below_one rest negative n
        ((-exponent).toNat - (Decimal.digits n).length) stops
      have power : -(((-exponent).toNat - (Decimal.digits n).length +
          (Decimal.digits n).length : ℕ) : ℤ) = exponent := by omega
      rw [power] at read
      exact read

/-! ### Numbers as values -/

/-- A number starts with a digit behind its sign. -/
theorem exists_digit_of_readUnsigned {negative : Bool} {cs : List Char} {v : Json × List Char}
    (read : readUnsigned negative cs = some v) : ∃ c more, cs = c :: more ∧ c.isDigit = true := by
  obtain ⟨whole, whole_read, -⟩ := Option.bind_eq_some_iff.mp read
  rw [readWhole.eq_def] at whole_read
  split at whole_read
  · exact ⟨_, _, rfl, rfl⟩
  · rw [readDigits] at whole_read
    split at whole_read
    · cases whole_read
    · next nonempty =>
      cases cs with
      | nil => exact absurd rfl nonempty
      | cons c more =>
          refine ⟨c, more, rfl, ?_⟩
          by_contra other
          exact nonempty (List.takeWhile_cons_of_neg other)

theorem ne_of_isDigit {c mark : Char} (digit : c.isDigit = true) (other : mark.isDigit = false) :
    c ≠ mark := by
  rintro rfl
  exact absurd (digit.symm.trans other) (by decide)

/-- What starts with a digit can only be a number. -/
theorem readValue_of_isDigit {c : Char} (digit : c.isDigit = true) (depth : ℕ) (more : List Char) :
    readValue (depth + 1) (c :: more) = readUnsigned false (c :: more) := by
  rw [readValue, readNumber]
  all_goals
    intro rest same
    exact ne_of_isDigit digit (by decide) (List.cons.inj same).1

theorem readValue_unsigned {cs : List Char} {v : Json}
    (read : readUnsigned false cs = some (v, rest)) (depth : ℕ) :
    readValue (depth + 1) cs = some (v, rest) := by
  obtain ⟨c, more, rfl, digit⟩ := exists_digit_of_readUnsigned read
  rw [readValue_of_isDigit digit, read]

theorem readValue_minus {cs : List Char} {v : Json} (read : readUnsigned true cs = some (v, rest))
    (depth : ℕ) : readValue (depth + 1) ('-' :: cs) = some (v, rest) := by
  rw [← read]
  rfl

theorem readValue_integer (n : ℤ) (depth : ℕ) (stops : Stops rest) :
    readValue (depth + 1) (integerChars n ++ rest) = some (.integer n, rest) := by
  have parts (negative : Bool) := @readUnsigned_whole rest negative _ (whole_digits n.natAbs) stops
  rw [integerChars]
  split
  · next below =>
    refine readValue_minus ((parts true).trans ?_) depth
    simp only [ofNumberParts, Decimal.ofDigits_digits, if_true, Int.natAbs_eq_zero, below.ne,
      if_false, Option.some.injEq, Prod.mk.injEq, Json.integer.injEq, and_true]
    omega
  · next above =>
    refine readValue_unsigned ((parts false).trans ?_) depth
    simp only [ofNumberParts, Decimal.ofDigits_digits, Bool.false_eq_true, if_false,
      Option.some.injEq, Prod.mk.injEq, Json.integer.injEq, and_true]
    omega

/-- A decimal in configuration is read back with its sign and its size. Zeros are only in the way
of a zero. -/
theorem readValue_decimal {d : Decimal} (shown : d.coefficient = 0 → d.exponent ≤ 0) (depth : ℕ)
    (stops : Stops rest) :
    readValue (depth + 1) (d.textChars .tagged ++ rest) = some (.decimal d.retold, rest) := by
  have body : readUnsigned d.negative ((if Decimal.Layout.tagged.isPositional d.magnitude then
      Decimal.positionalText true (Decimal.digits d.coefficient) d.exponent
      else Decimal.exponentText (Decimal.digits d.coefficient) d.magnitude) ++ rest) =
        some (.decimal d.retold, rest) := by
    rw [Decimal.retold]
    split
    · exact readUnsigned_positional shown stops
    · have power : d.magnitude - ((Decimal.digits d.coefficient).length - 1) = d.exponent := by
        rw [Decimal.magnitude]
        omega
      rw [readUnsigned_exponent (whole_digits _) _ stops, Decimal.ofDigits_digits, power]
  rw [Decimal.textChars]
  obtain ⟨negative, coefficient, exponent⟩ := d
  cases negative with
  | true => exact readValue_minus body depth
  | false => exact readValue_unsigned body depth

end Json

end Schematron
