/-
**Seventeen digits are enough: `strtod` reads back what `%.17g` prints.**

* `roundHalfEven_error`, `roundHalfEven_near` — a rounding is off by a half at most, and a quotient
  closer than that to an integer is rounded to it.
* `ofQuot_near` — a quotient off a normal double by one part in `2 * 10 ^ 16` at most is rounded to
  it: `2 ^ 53 < 10 ^ 16`, and at a power of two, below which the doubles lie closer together,
  `2 ^ 52 < 10 ^ 16 / 2`.
* `digits17_near` — the digits printed are as near as that to the number.
* `strtod_printed` — the digits of a print, less the zeros that were cut, and its exponent are read.
* `strtod_formatG17` — the text of a double that is not NaN is read as that double, with the range
  error exactly if it is subnormal: seventeen digits are never enough there.
-/

import Miniredis.Lib.Binary64

namespace Double

/-! ### Rounding to integers -/

section Rounding

variable {num den n : Nat}

theorem roundHalfEven_bounds (num : Nat) (positive : 0 < den) :
    2 * num ≤ 2 * (roundHalfEven num den * den) + den ∧
      2 * (roundHalfEven num den * den) ≤ 2 * num + den := by
  have split : den * (num / den) + num % den = num := Nat.div_add_mod num den
  have below : num % den < den := Nat.mod_lt num positive
  have down : num / den * den = den * (num / den) := mul_comm _ _
  have up : (num / den + 1) * den = den * (num / den) + den := by ring
  unfold roundHalfEven
  dsimp only
  split_ifs with low high
  · omega
  · omega
  · rcases Nat.mod_two_eq_zero_or_one (num / den) with even | odd
    · rw [even, add_zero]
      omega
    · rw [odd]
      omega

/-- **A rounding is off by a half at most.** -/
theorem roundHalfEven_error (num : Nat) (positive : 0 < den) :
    |(roundHalfEven num den : ℚ) - num / den| ≤ 1 / 2 := by
  have place : (0 : ℚ) < den := by exact_mod_cast positive
  obtain ⟨low, high⟩ := roundHalfEven_bounds num positive
  have low' : 2 * (num : ℚ) ≤ 2 * (roundHalfEven num den * den) + den := by exact_mod_cast low
  have high' : 2 * ((roundHalfEven num den : ℚ) * den) ≤ 2 * num + den := by exact_mod_cast high
  rw [abs_le]
  constructor
  · rw [neg_le_sub_iff_le_add, div_le_iff₀ place]
    linarith
  · rw [sub_le_iff_le_add, ← sub_le_iff_le_add', le_div_iff₀ place]
    linarith

/-- A quotient that is close to an integer is rounded to it. -/
theorem roundHalfEven_near (positive : 0 < den) (near : |(num : ℚ) / den - n| < 1 / 2) :
    roundHalfEven num den = n := by
  have error := abs_le.mp (roundHalfEven_error num positive)
  have close := abs_lt.mp near
  have below : (roundHalfEven num den : ℚ) < n + 1 := by linarith
  have above : (n : ℚ) < roundHalfEven num den + 1 := by linarith
  have below' : roundHalfEven num den < n + 1 := by exact_mod_cast below
  have above' : n < roundHalfEven num den + 1 := by exact_mod_cast above
  omega

end Rounding

/-! ### Rounding to doubles -/

section Nearest

variable {num den n shift : Nat}

/-- A quotient between two powers of two has its last place there. -/
theorem log2_quotient {place : Nat} (positive : 0 < den)
    (low : ((2 ^ place : Nat) : ℚ) ≤ num / den) (high : (num / den : ℚ) < (2 ^ (place + 1) : Nat)) :
    Nat.log2 (num / den) = place := by
  have unit : (0 : ℚ) < den := by exact_mod_cast positive
  rw [le_div_iff₀ unit] at low
  rw [div_lt_iff₀ unit] at high
  have low' : 2 ^ place ≤ num / den := by
    rw [Nat.le_div_iff_mul_le positive]
    exact_mod_cast low
  have high' : num / den < 2 ^ (place + 1) := by
    rw [Nat.div_lt_iff_lt_mul positive]
    exact_mod_cast high
  exact (Nat.log2_eq_iff (by have := Nat.two_pow_pos place; omega)).mpr ⟨low', high'⟩

/-- A quotient near a multiple of its last place. -/
theorem ofQuot_shift (positive : 0 < den) (place : Nat.log2 (num / den) - 52 = shift)
    (near : |(num / den : ℚ) - n * 2 ^ shift| < 2 ^ shift / 2) :
    ofQuot num den = min (n + shift * 2 ^ 52) infMagnitude := by
  have unit : (0 : ℚ) < 2 ^ shift := by positivity
  have scaled : |(num : ℚ) / (den * 2 ^ shift : Nat) - n| < 1 / 2 := by
    have split : (num : ℚ) / (den * 2 ^ shift : Nat) - n =
        (num / den - n * 2 ^ shift) / 2 ^ shift := by
      push_cast
      rw [← div_div, sub_div, mul_div_cancel_right₀ _ unit.ne']
    rw [split, abs_div, abs_of_pos unit, div_lt_iff₀ unit]
    linarith
  unfold ofQuot
  dsimp only
  rw [place, roundHalfEven_near (by positivity) scaled]

/-- A quotient below the normal range is rounded to a whole number of units. -/
theorem ofQuot_unit (positive : 0 < den) (short : (num / den : ℚ) < (2 ^ 53 : Nat))
    (near : |(num / den : ℚ) - n| < 1 / 2) : ofQuot num den = min n infMagnitude := by
  have unit : (0 : ℚ) < den := by exact_mod_cast positive
  rw [div_lt_iff₀ unit] at short
  have below : num / den < 2 ^ 53 := by
    rw [Nat.div_lt_iff_lt_mul positive]
    exact_mod_cast short
  have place : Nat.log2 (num / den) - 52 = 0 := by
    by_cases zero : num / den = 0
    · rw [zero]
      rfl
    · have := (Nat.log2_lt zero).mpr below
      omega
  have whole := ofQuot_shift (n := n) positive place (by simpa using near)
  rwa [zero_mul, add_zero] at whole

/-- **A quotient as near to a normal double as its seventeen digits is rounded to it.** -/
theorem ofQuot_near {f s : Nat} (positive : 0 < den) (small : f < 2 ^ 52)
    (near : |(num / den : ℚ) - (2 ^ 52 + f) * 2 ^ s| ≤ ((2 ^ 52 + f) * 2 ^ s : ℚ) / (2 * 10 ^ 16)) :
    ofQuot num den = min (2 ^ 52 + f + s * 2 ^ 52) infMagnitude := by
  have unit : (0 : ℚ) < 2 ^ s := by positivity
  have most : (f : ℚ) + 1 ≤ 2 ^ 52 := by exact_mod_cast small
  have least : (0 : ℚ) ≤ f := by positivity
  obtain ⟨low, high⟩ := abs_le.mp near
  by_cases above : (2 ^ 52 * 2 ^ s : ℚ) ≤ num / den
  · have place : Nat.log2 (num / den) = 52 + s := by
      refine log2_quotient positive ?_ ?_
      · push_cast
        rw [pow_add]
        exact above
      · push_cast
        rw [show 52 + s + 1 = 53 + s by omega, pow_add]
        nlinarith
    have whole := ofQuot_shift (n := 2 ^ 52 + f) positive
      (show Nat.log2 (num / den) - 52 = s by omega)
      (by
        push_cast
        rw [abs_lt]
        constructor <;> nlinarith)
    exact whole
  · -- just below a power of two the doubles lie closer together
    rw [not_le] at above
    have power : f = 0 := by
      by_contra other
      have one : (1 : ℚ) ≤ f := by exact_mod_cast Nat.one_le_iff_ne_zero.mpr other
      nlinarith
    subst power
    simp only [Nat.cast_zero, add_zero] at low high ⊢
    cases s with
    | zero =>
      have whole := @ofQuot_unit num den (2 ^ 52) positive
        (by push_cast; linarith) (by push_cast; rw [abs_lt]; constructor <;> linarith)
      rw [whole]
      rfl
    | succ r =>
      have half : (2 : ℚ) ^ (r + 1) = 2 * 2 ^ r := by ring
      have place : Nat.log2 (num / den) = 52 + r := by
        refine log2_quotient positive ?_ ?_
        · push_cast
          rw [pow_add]
          nlinarith
        · push_cast
          rw [show 52 + r + 1 = 52 + (r + 1) by omega, pow_add]
          exact above
      have whole := ofQuot_shift (n := 2 ^ 53) positive
        (show Nat.log2 (num / den) - 52 = r by omega)
        (by
          push_cast
          rw [abs_lt]
          constructor <;> nlinarith)
      rw [whole]
      congr 1
      ring

end Nearest

/-! ### The digits of a number -/

section Digits

variable {units : Nat}

/-- The value of a number of units. -/
def value (units : Nat) : ℚ := units / (2 ^ 1074 : Nat)

/-- **The decimal exponent.** -/
theorem decimalExponent_bounds (positive : 0 < units) :
    (10 : ℚ) ^ decimalExponent units ≤ value units ∧
      value units < 10 ^ (decimalExponent units + 1) := by
  unfold decimalExponent value
  generalize power : 2 ^ 1074 = one
  have unit : 0 < one := by rw [← power]; positivity
  have place : (0 : ℚ) < one := by exact_mod_cast unit
  split_ifs with big
  · have whole : units / one ≠ 0 := (Nat.div_pos big unit).ne'
    have low := Nat.pow_log_le_self 10 whole
    have high := Nat.lt_pow_succ_log_self (show 1 < 10 by norm_num) (units / one)
    generalize Nat.log 10 (units / one) = x at low high ⊢
    rw [Nat.le_div_iff_mul_le unit] at low
    rw [Nat.div_lt_iff_lt_mul unit] at high
    rw [le_div_iff₀ place, div_lt_iff₀ place, zpow_natCast,
      show ((x : Int) + 1) = ((x + 1 : Nat) : Int) by push_cast; rfl, zpow_natCast]
    exact ⟨by exact_mod_cast low, by exact_mod_cast high⟩
  · have whole : (one - 1) / units ≠ 0 := (Nat.div_pos (by omega) positive).ne'
    have low := Nat.pow_log_le_self 10 whole
    have high := Nat.lt_pow_succ_log_self (show 1 < 10 by norm_num) ((one - 1) / units)
    generalize Nat.log 10 ((one - 1) / units) = x at low high ⊢
    rw [Nat.le_div_iff_mul_le positive] at low
    rw [Nat.div_lt_iff_lt_mul positive] at high
    have low' : (10 : ℚ) ^ x * units < one := by
      have : 10 ^ x * units < one := by omega
      exact_mod_cast this
    have high' : (one : ℚ) ≤ 10 ^ (x + 1) * units := by
      have : one ≤ 10 ^ x.succ * units := by omega
      exact_mod_cast this
    have ten (k : Nat) : (0 : ℚ) < 10 ^ k := by positivity
    rw [le_div_iff₀ place, div_lt_iff₀ place, show -((x : Int) + 1) + 1 = -x by ring, zpow_neg,
      zpow_neg,
      show ((x : Int) + 1) = ((x + 1 : Nat) : Int) by push_cast; rfl, zpow_natCast, zpow_natCast,
      inv_mul_le_iff₀ (ten _), inv_mul_eq_div, lt_div_iff₀ (ten _), mul_comm (units : ℚ)]
    exact ⟨high', low'⟩

/-- The digits before a carry, from one rounding. -/
theorem digits_near (units : Nat) (x : Int) :
    |((if x ≤ 16 then roundHalfEven (units * 10 ^ (16 - x).toNat) (2 ^ 1074)
        else roundHalfEven units (2 ^ 1074 * 10 ^ (x - 16).toNat) : Nat) : ℚ) -
      value units * 10 ^ (16 - x)| ≤ 1 / 2 := by
  unfold value
  generalize power : 2 ^ 1074 = one
  have unit : 0 < one := by rw [← power]; positivity
  split_ifs with small
  · have error := roundHalfEven_error (units * 10 ^ (16 - x).toNat) unit
    obtain ⟨k, gap⟩ := Int.eq_ofNat_of_zero_le (show 0 ≤ 16 - x by omega)
    rw [gap, Int.toNat_natCast] at error ⊢
    have same : ((units * 10 ^ k : Nat) : ℚ) / one = units / one * 10 ^ k := by
      push_cast
      ring
    rwa [same] at error
  · have error := roundHalfEven_error units (show 0 < one * 10 ^ (x - 16).toNat by positivity)
    obtain ⟨k, gap⟩ := Int.eq_ofNat_of_zero_le (show 0 ≤ x - 16 by omega)
    rw [show 16 - x = -(k : Int) by omega, zpow_neg, zpow_natCast]
    rw [gap, Int.toNat_natCast] at error ⊢
    have same : (units : ℚ) / (one * 10 ^ k : Nat) = units / one * (10 ^ k)⁻¹ := by
      push_cast
      rw [← div_div, div_eq_mul_inv (_ / _)]
    rwa [same] at error

/-- **Seventeen digits of a number.** -/
theorem digits17_near (positive : 0 < units) :
    10 ^ 16 ≤ (digits17 units).1 ∧ (digits17 units).1 < 10 ^ 17 ∧
      |(digits17 units).1 * (10 : ℚ) ^ ((digits17 units).2 - 16) - value units| ≤
        value units / (2 * 10 ^ 16) := by
  obtain ⟨low, high⟩ := decimalExponent_bounds positive
  have near := digits_near units (decimalExponent units)
  unfold digits17
  dsimp only
  generalize decimalExponent units = x at low high near ⊢
  generalize (if x ≤ 16 then roundHalfEven (units * 10 ^ (16 - x).toNat) (2 ^ 1074)
    else roundHalfEven units (2 ^ 1074 * 10 ^ (x - 16).toNat)) = digits at near ⊢
  have ten : (10 : ℚ) ≠ 0 := by norm_num
  have scale : (0 : ℚ) < 10 ^ (16 - x) := by positivity
  have back : (10 : ℚ) ^ (x - 16) * 10 ^ (16 - x) = 1 := by
    rw [← zpow_add₀ ten, show x - 16 + (16 - x) = 0 by ring, zpow_zero]
  have least : (10 : ℚ) ^ 16 ≤ value units * 10 ^ (16 - x) := by
    calc (10 : ℚ) ^ 16 = 10 ^ x * 10 ^ (16 - x) := by
          rw [← zpow_add₀ ten, show x + (16 - x) = (16 : Nat) by push_cast; ring, zpow_natCast]
      _ ≤ value units * 10 ^ (16 - x) := by gcongr
  have most : value units * 10 ^ (16 - x) < (10 : ℚ) ^ 17 := by
    calc value units * 10 ^ (16 - x) < 10 ^ (x + 1) * 10 ^ (16 - x) := by gcongr
      _ = (10 : ℚ) ^ 17 := by
          rw [← zpow_add₀ ten, show x + 1 + (16 - x) = (17 : Nat) by push_cast; ring, zpow_natCast]
  obtain ⟨above, below⟩ := abs_le.mp near
  have lower : 10 ^ 16 ≤ digits := by
    have : (10 : ℚ) ^ 16 < digits + 1 := by linarith
    have : 10 ^ 16 < digits + 1 := by exact_mod_cast this
    omega
  have upper : digits ≤ 10 ^ 17 := by
    have : (digits : ℚ) < 10 ^ 17 + 1 := by linarith
    have : digits < 10 ^ 17 + 1 := by exact_mod_cast this
    omega
  have close : |digits * (10 : ℚ) ^ (x - 16) - value units| ≤ value units / (2 * 10 ^ 16) := by
    have unit : (0 : ℚ) < 10 ^ (x - 16) := by positivity
    have split : digits * (10 : ℚ) ^ (x - 16) - value units =
        (digits - value units * 10 ^ (16 - x)) * 10 ^ (x - 16) := by
      rw [sub_mul, mul_assoc, mul_comm ((10 : ℚ) ^ (16 - x)), back, mul_one]
    rw [split, abs_mul, abs_of_pos unit]
    calc |(digits : ℚ) - value units * 10 ^ (16 - x)| * 10 ^ (x - 16)
        ≤ 1 / 2 * 10 ^ (x - 16) := by gcongr
      _ = 10 ^ x / (2 * 10 ^ 16) := by
          rw [zpow_sub₀ ten]
          norm_num
          ring
      _ ≤ value units / (2 * 10 ^ 16) := by gcongr
  split_ifs with carry
  · refine ⟨le_refl _, by norm_num, ?_⟩
    have same : ((10 ^ 16 : Nat) : ℚ) * 10 ^ (x + 1 - 16) = digits * 10 ^ (x - 16) := by
      rw [carry, show x + 1 - 16 = x - 16 + 1 by ring, zpow_add₀ ten]
      push_cast
      ring
    rw [same]
    exact close
  · exact ⟨lower, lt_of_le_of_ne upper carry, close⟩

end Digits

/-! ### Reading a decimal number -/

section Scaled

variable {S num den : Nat} {E : Int}

/-- The quotient that a decimal number is rounded from. -/
theorem scaled_quotient (S : Nat) (E : Int) :
    ∃ num den, 0 < den ∧ scaled S 10 E = rounded num den ∧
      (num / den : ℚ) = S * 10 ^ E * (2 ^ 1074 : Nat) ∧
      (E < 0 → num = S * 2 ^ 1074 ∧ den = 10 ^ E.natAbs) := by
  unfold scaled
  generalize 2 ^ 1074 = one
  split_ifs with whole
  · obtain ⟨k, rfl⟩ := Int.eq_ofNat_of_zero_le whole
    refine ⟨_, _, one_pos, rfl, ?_, fun negative => by omega⟩
    rw [Int.toNat_natCast, zpow_natCast]
    push_cast
    ring
  · refine ⟨_, _, by positivity, rfl, ?_, fun _ => ⟨rfl, rfl⟩⟩
    obtain ⟨k, size⟩ : ∃ k : Nat, E = -(k : Int) := ⟨E.natAbs, by omega⟩
    rw [size, Int.natAbs_neg, Int.natAbs_natCast, zpow_neg, zpow_natCast]
    push_cast
    ring

/-- The bound in units. -/
theorem near_units {units : Nat} {q : ℚ}
    (near : |q - value units| ≤ value units / (2 * 10 ^ 16)) :
    |q * (2 ^ 1074 : Nat) - units| ≤ units / (2 * 10 ^ 16) := by
  unfold value at near
  generalize power : 2 ^ 1074 = one at near ⊢
  have unit : 0 < one := by rw [← power]; positivity
  have place : (0 : ℚ) < one := by exact_mod_cast unit
  have split : q * one - units = (q - units / one) * one := by
    rw [sub_mul, div_mul_cancel₀ _ place.ne']
  rw [split, abs_mul, abs_of_pos place]
  calc |q - units / one| * one ≤ units / one / (2 * 10 ^ 16) * one := by gcongr
    _ = units / (2 * 10 ^ 16) := by field_simp

/-- **A decimal number near a normal double is read as that double.** -/
theorem scaled_normal {f s : Nat} (small : f < 2 ^ 52)
    (finite : 2 ^ 52 + f + s * 2 ^ 52 < infMagnitude)
    (near : |S * (10 : ℚ) ^ E - value ((2 ^ 52 + f) * 2 ^ s)| ≤
      value ((2 ^ 52 + f) * 2 ^ s) / (2 * 10 ^ 16)) :
    scaled S 10 E = (2 ^ 52 + f + s * 2 ^ 52, false) := by
  obtain ⟨num, den, positive, same, quotient, _⟩ := scaled_quotient S E
  have close := near_units near
  rw [← quotient] at close
  push_cast at close
  have magnitude := ofQuot_near positive small close
  rw [min_eq_left finite.le] at magnitude
  rw [same]
  unfold rounded
  dsimp only
  rw [magnitude]
  have above : ¬ 2 ^ 52 + f + s * 2 ^ 52 < 2 ^ 52 := by omega
  -- the least normal double is not taken for a subnormal
  have edge : 2 ^ 52 + f + s * 2 ^ 52 = 2 ^ 52 → roundHalfEven (2 * num) den = 2 ^ 53 := by
    intro least
    obtain ⟨rfl, rfl⟩ : f = 0 ∧ s = 0 := by omega
    refine roundHalfEven_near positive ?_
    obtain ⟨low, high⟩ := abs_le.mp close
    push_cast
    rw [mul_div_assoc, abs_lt]
    simp only [Nat.cast_zero, add_zero, pow_zero, mul_one] at low high
    constructor <;> linarith
  have tiny : (decide (2 ^ 52 + f + s * 2 ^ 52 < 2 ^ 52) ||
      (decide (2 ^ 52 + f + s * 2 ^ 52 = 2 ^ 52) &&
        decide (roundHalfEven (2 * num) den < 2 ^ 53))) = false := by
    rw [decide_eq_false above, Bool.false_or, Bool.and_eq_false_iff, decide_eq_false_iff_not,
      decide_eq_false_iff_not]
    by_cases least : 2 ^ 52 + f + s * 2 ^ 52 = 2 ^ 52
    · exact .inr (by rw [edge least]; omega)
    · exact .inl least
  rw [tiny, decide_eq_false finite.ne]
  rfl

/-- A number with seventeen digits or fewer that lies deep below one is no binary fraction. -/
theorem inexact {k : Nat} (some : 0 < S) (short : S < 10 ^ 17) (deep : 25 ≤ k) (j : Nat) :
    S * 2 ^ j % 10 ^ k ≠ 0 := by
  intro divides
  have power : 5 ^ k ∣ S * 2 ^ j :=
    (pow_dvd_pow_of_dvd (by norm_num) _).trans (Nat.dvd_of_mod_eq_zero divides)
  have prime : Nat.Coprime (5 ^ k) (2 ^ j) := Nat.Coprime.pow _ _ (by norm_num)
  have fits := Nat.le_of_dvd some (prime.dvd_of_dvd_mul_right power)
  have large : 5 ^ 25 ≤ 5 ^ k := Nat.pow_le_pow_right (by norm_num) deep
  have : (10 : Nat) ^ 17 < 5 ^ 25 := by norm_num
  omega

/-- **A decimal number near a subnormal is read as it, with the range error.** -/
theorem scaled_subnormal {units : Nat} (positive : 0 < units) (small : units < 2 ^ 52)
    (some : 0 < S) (short : S < 10 ^ 17)
    (near : |S * (10 : ℚ) ^ E - value units| ≤ value units / (2 * 10 ^ 16)) :
    scaled S 10 E = (units, true) := by
  obtain ⟨num, den, unit, same, quotient, shape⟩ := scaled_quotient S E
  have close := near_units near
  rw [← quotient] at close
  obtain ⟨low, high⟩ := abs_le.mp close
  have least : (1 : ℚ) ≤ units := by exact_mod_cast positive
  have most : (units : ℚ) < 2 ^ 52 := by exact_mod_cast small
  have magnitude : ofQuot num den = units := by
    rw [@ofQuot_unit num den units unit (by push_cast; linarith)
      (by rw [abs_lt]; constructor <;> linarith), min_eq_left]
    have : 2 ^ 52 ≤ infMagnitude := by decide
    omega
  have deep : E < -25 := by
    by_contra shallow
    have one : (1 : ℚ) ≤ S := by exact_mod_cast some
    have power : (10 : ℚ) ^ (-25 : Int) ≤ 10 ^ E := zpow_le_zpow_right₀ (by norm_num) (by omega)
    have scale : (2 : ℚ) ^ 256 ≤ (2 ^ 1074 : Nat) := by
      rw [Nat.cast_pow, Nat.cast_ofNat]
      exact pow_le_pow_right₀ (by norm_num) (by norm_num)
    have product : (10 : ℚ) ^ (-25 : Int) * 2 ^ 256 ≤ num / den := by
      rw [quotient]
      calc (10 : ℚ) ^ (-25 : Int) * 2 ^ 256 ≤ 10 ^ E * (2 ^ 1074 : Nat) := by gcongr
        _ ≤ S * 10 ^ E * (2 ^ 1074 : Nat) := by
          rw [mul_assoc]
          exact le_mul_of_one_le_left (by positivity) one
    norm_num at product
    linarith
  have rest : num % den ≠ 0 := by
    obtain ⟨top, bottom⟩ := shape (by omega)
    rw [top, bottom]
    exact inexact some short (by omega) _
  rw [same]
  unfold rounded
  dsimp only
  rw [magnitude, decide_eq_true small]
  simp [rest]

end Scaled

/-! ### Texts of digits -/

section Texts

open Decimal (digitsValue render IsDigit)

variable {sign : Bool} {whole raw tail : List UInt8} {start : Nat}

theorem isDecimal_iff {c : UInt8} : isDecimal c = true ↔ IsDigit c := by
  unfold isDecimal IsDigit
  rw [Bool.and_eq_true, decide_eq_true_eq, decide_eq_true_eq, UInt8.le_iff_toNat_le,
    UInt8.le_iff_toNat_le]
  rfl

theorem stripZeros_split (digits : List UInt8) :
    ∃ k, digits = stripZeros digits ++ List.replicate k 48 := by
  have parts := congrArg List.reverse
    (List.takeWhile_append_dropWhile (p := (· == 48)) (l := digits.reverse))
  have zeros : (digits.reverse.takeWhile (· == 48)).all (· == 48) = true := List.all_takeWhile
  rw [List.reverse_append, List.reverse_reverse] at parts
  unfold stripZeros
  generalize digits.reverse.takeWhile (· == 48) = cut at parts zeros
  refine ⟨cut.length, parts.symm.trans ?_⟩
  congr 1
  rw [← List.length_reverse]
  exact List.eq_replicate_of_mem fun byte member => by
    simpa using List.all_eq_true.mp zeros byte (List.mem_reverse.mp member)

theorem digitsValue_append (first second : List UInt8) :
    digitsValue start (first ++ second) = digitsValue (digitsValue start first) second :=
  List.foldl_append

theorem digitsValue_zeros (start k : Nat) :
    digitsValue start (List.replicate k 48) = start * 10 ^ k := by
  induction k generalizing start with
  | zero => simp [digitsValue]
  | succ k ih =>
    rw [List.replicate_succ]
    show digitsValue (start * 10 + (48 - 48)) _ = _
    rw [ih]
    ring

/-- Leading zeros do not count. -/
theorem digitsValue_leading (k : Nat) (digits : List UInt8) :
    digitsValue 0 (List.replicate k 48 ++ digits) = digitsValue 0 digits := by
  rw [digitsValue_append, digitsValue_zeros, zero_mul]

/-- Digits up to a byte that is none. -/
theorem spanBytes_digits (digits : ∀ c ∈ whole, IsDigit c)
    (stops : ∀ c ∈ tail.head?, isDecimal c = false) :
    spanBytes isDecimal (whole ++ tail) = (whole, tail) := by
  have all : ∀ c ∈ whole, isDecimal c = true := fun c member => isDecimal_iff.mpr (digits c member)
  have ends : tail.takeWhile isDecimal = [] ∧ tail.dropWhile isDecimal = tail := by
    cases tail with
    | nil => exact ⟨rfl, rfl⟩
    | cons c rest =>
      have plain := stops c rfl
      simp [plain]
  unfold spanBytes
  rw [List.takeWhile_append_of_pos all, List.dropWhile_append_of_pos all, ends.1, ends.2,
    List.append_nil]

/-- Where the digits of a printed number end: at its end or at its exponent. -/
def Ends (tail : List UInt8) : Prop := tail = [] ∨ ∃ rest, tail = 101 :: rest

theorem Ends.stops (ends : Ends tail) : ∀ c ∈ tail.head?, isDecimal c = false := by
  rcases ends with rfl | ⟨rest, rfl⟩
  · rintro c ⟨⟩
  · rintro c ⟨⟩
    rfl

theorem pointedDigits_text (digits : ∀ c ∈ whole, IsDigit c) (digits' : ∀ c ∈ raw, IsDigit c)
    (filled : whole ≠ []) (ends : Ends tail) :
    pointedDigits isDecimal (whole ++ pointed raw ++ tail) = (whole, stripZeros raw, tail) := by
  have kept : ∀ c ∈ stripZeros raw, IsDigit c := by
    obtain ⟨k, split⟩ := stripZeros_split raw
    intro c member
    exact digits' c (split ▸ List.mem_append_left _ member)
  unfold pointedDigits pointed
  dsimp only
  split_ifs with empty
  · rw [List.append_nil, spanBytes_digits digits ends.stops, empty]
    dsimp only
    rcases ends with rfl | ⟨rest, rfl⟩ <;> rfl
  · rw [List.append_assoc, spanBytes_digits digits (by rintro c ⟨⟩; rfl)]
    change (if whole = [] ∧ (spanBytes isDecimal (stripZeros raw ++ tail)).1 = [] then _ else
      (whole, (spanBytes isDecimal (stripZeros raw ++ tail)).1,
        (spanBytes isDecimal (stripZeros raw ++ tail)).2)) = _
    rw [spanBytes_digits kept ends.stops, if_neg fun both => filled both.1]

/-- The exponent that a print ends with. -/
theorem exponentPart_text {digits : List UInt8} (x : Int) (filled : digits ≠ [])
    (plain : ∀ c ∈ digits, IsDigit c) (size : digitsValue 0 digits = x.natAbs) :
    exponentPart 101 (101 :: (if x < 0 then 45 else 43) :: digits) = (x, []) := by
  have span := @spanBytes_digits digits [] plain (by rintro c ⟨⟩)
  rw [List.append_nil] at span
  by_cases below : x < 0
  · rw [if_pos below]
    change (if (spanBytes isDecimal digits).1 = [] then _ else
      (-(digitsValue 0 (spanBytes isDecimal digits).1 : Int), (spanBytes isDecimal digits).2)) = _
    rw [span, if_neg filled, size]
    congr 1
    omega
  · rw [if_neg below]
    change (if (spanBytes isDecimal digits).1 = [] then _ else
      ((digitsValue 0 (spanBytes isDecimal digits).1 : Int), (spanBytes isDecimal digits).2)) = _
    rw [span, if_neg filled, size]
    congr 1
    omega

/-- An exponent is printed with two digits at least. -/
theorem exponentPart_printed (x : Int) :
    exponentPart 101 (101 :: (if x < 0 then 45 else 43) ::
      if (render x.natAbs).length < 2 then 48 :: render x.natAbs else render x.natAbs) =
        (x, []) := by
  have plain : ∀ c ∈ render x.natAbs, IsDigit c := fun c member => Decimal.render_digit member
  by_cases short : (render x.natAbs).length < 2
  · rw [if_pos short]
    refine exponentPart_text x (List.cons_ne_nil _ _) ?_ ?_
    · exact List.forall_mem_cons.mpr ⟨by decide, plain⟩
    · exact (digitsValue_leading 1 _).trans (Decimal.digitsValue_render _)
  · rw [if_neg short]
    exact exponentPart_text x (Decimal.render_ne_nil _) plain (Decimal.digitsValue_render _)

theorem decimalForm_text {e : Int} (digits : ∀ c ∈ whole, IsDigit c)
    (digits' : ∀ c ∈ raw, IsDigit c) (filled : whole ≠ []) (ends : Ends tail)
    (exponent : exponentPart 101 tail = (e, [])) :
    decimalForm sign (whole ++ pointed raw ++ tail) =
      some ⟨ofMagnitude sign
          (scaled (digitsValue 0 (whole ++ stripZeros raw)) 10 (e - (stripZeros raw).length)).1,
        (scaled (digitsValue 0 (whole ++ stripZeros raw)) 10 (e - (stripZeros raw).length)).2,
        []⟩ := by
  unfold decimalForm
  rw [pointedDigits_text digits digits' filled ends]
  dsimp only
  rw [if_neg fun both => filled both.1, exponent]

theorem dropWord_other {c w : UInt8} {rest word : List UInt8}
    (other : (if 65 ≤ c ∧ c ≤ 90 then c + 32 else c) ≠ w) :
    dropWord (w :: word) (c :: rest) = none := by
  unfold dropWord
  rw [if_neg]
  exact fun same => other (List.cons.inj same).1

/-- A text that starts with a digit, and not with `0x`, is read as a decimal number. -/
theorem unsignedForm_text {c : UInt8} {rest : List UInt8} (digit : IsDigit c)
    (plain : ∀ b ∈ rest.head?, b ≠ 120 ∧ b ≠ 88) :
    unsignedForm sign (c :: rest) = decimalForm sign (c :: rest) := by
  have fold : (if 65 ≤ c ∧ c ≤ 90 then c + 32 else c) = c := by
    unfold IsDigit at digit
    refine if_neg fun upper => ?_
    have low : 65 ≤ c.toNat := UInt8.le_iff_toNat_le.mp upper.1
    omega
  have letter (w : UInt8) (high : 57 < w.toNat) :
      (if 65 ≤ c ∧ c ≤ 90 then c + 32 else c) ≠ w := by
    rw [fold]
    rintro rfl
    exact absurd digit.2 (by omega)
  have hex : dropWord [48, 120] (c :: rest) = none := by
    unfold dropWord
    rw [if_neg]
    intro same
    have second := (List.cons.inj same).2
    cases rest with
    | nil => cases second
    | cons b more =>
      obtain ⟨lower, upper⟩ := plain b rfl
      have folded : (if 65 ≤ b ∧ b ≤ 90 then b + 32 else b) = 120 := (List.cons.inj second).1
      split_ifs at folded
      · exact upper (by grind)
      · exact lower folded
  unfold unsignedForm
  rw [dropWord_other (letter 105 (by decide)), dropWord_other (letter 105 (by decide)),
    dropWord_other (letter 110 (by decide)), hex]
  rfl

/-- The sign in front. -/
theorem strtod_signed {c : UInt8} {rest : List UInt8} (negative : Bool) (digit : IsDigit c) :
    strtod ((if negative then [45] else []) ++ c :: rest) = unsignedForm negative (c :: rest) := by
  have low : 48 ≤ c := UInt8.le_iff_toNat_le.mpr digit.1
  cases negative with
  | true => rfl
  | false =>
    have blank : isSpace c = false := by
      unfold isSpace
      grind
    have plus : c ≠ 43 := by grind
    have minus : c ≠ 45 := by grind
    unfold strtod
    rw [if_neg Bool.false_ne_true, List.nil_append, List.dropWhile_cons, blank]
    grind

/-- A text is read as the number with the digits `D` and the exponent `x`. -/
def ReadsAs (negative : Bool) (D : Nat) (x : Int) (s : List UInt8) : Prop :=
  ∃ (S k : Nat) (E : Int), S * 10 ^ k = D ∧ E = x - 16 + k ∧
    strtod s = some ⟨ofMagnitude negative (scaled S 10 E).1, (scaled S 10 E).2, []⟩

/-- **A printed number is read digit by digit**: its digits, less the zeros that were cut, and its
exponent. -/
theorem strtod_printed {D : Nat} {x e : Int} (negative : Bool) (digits : ∀ c ∈ whole, IsDigit c)
    (digits' : ∀ c ∈ raw, IsDigit c) (filled : whole ≠ []) (ends : Ends tail)
    (exponent : exponentPart 101 tail = (e, []))
    (number : digitsValue 0 (whole ++ raw) = D) (place : e - raw.length = x - 16) :
    ReadsAs negative D x ((if negative then [45] else []) ++ (whole ++ pointed raw ++ tail)) := by
  obtain ⟨k, split⟩ := stripZeros_split raw
  refine ⟨digitsValue 0 (whole ++ stripZeros raw), k, e - (stripZeros raw).length, ?_, ?_, ?_⟩
  · rw [← number]
    conv_rhs => rw [split, ← List.append_assoc, digitsValue_append, digitsValue_zeros]
  · have length := congrArg List.length split
    rw [List.length_append, List.length_replicate] at length
    omega
  · rw [← decimalForm_text digits digits' filled ends exponent]
    cases whole with
    | nil => exact absurd rfl filled
    | cons c more =>
      have first := digits c List.mem_cons_self
      rw [List.cons_append, List.cons_append, strtod_signed negative first]
      refine unsignedForm_text first ?_
      -- the second byte is a digit, the point or the letter of the exponent
      cases more with
      | cons b more =>
        rintro _ ⟨⟩
        obtain ⟨low, high⟩ := digits b (List.mem_cons_of_mem _ List.mem_cons_self)
        constructor <;> (rintro rfl; exact absurd high (by decide))
      | nil =>
        unfold pointed
        dsimp only
        split_ifs
        · rcases ends with rfl | ⟨rest, rfl⟩
          · rintro _ ⟨⟩
          · rintro _ ⟨⟩
            decide
        · rintro _ ⟨⟩
          decide

theorem render_length {n k : Nat} (low : 10 ^ k ≤ n) (high : n < 10 ^ (k + 1)) :
    (render n).length = k + 1 := by
  have short := Decimal.render_length_le (Nat.succ_pos k) high
  have long : ¬ (render n).length ≤ k := by
    have positive : n ≠ 0 := by
      have := Nat.pow_pos (n := k) (show 0 < 10 by norm_num)
      omega
    unfold render
    rw [if_neg positive, List.length_map, List.length_reverse,
      Nat.digits_length_le_iff (by norm_num)]
    omega
  omega

/-- **What `%.17g` prints of a finite number** is read as its seventeen digits. -/
theorem strtod_digits {d : Double} (number : d.isNaN = false) (bounded : d.isInf = false)
    (positive : 0 < d.units) :
    ReadsAs d.negative (digits17 d.units).1 (digits17 d.units).2 d.formatG17 := by
  obtain ⟨low, high, -⟩ := digits17_near positive
  unfold formatG17
  dsimp only
  rw [number, bounded, if_neg Bool.false_ne_true, if_neg Bool.false_ne_true, if_neg positive.ne']
  generalize (digits17 d.units).1 = D at low high ⊢
  generalize (digits17 d.units).2 = x
  have length := render_length low high
  have value := Decimal.digitsValue_render D
  have plain : ∀ c ∈ render D, IsDigit c := fun c member => Decimal.render_digit member
  have front (n : Nat) : ∀ c ∈ (render D).take n, IsDigit c := fun c member =>
    plain c (List.mem_of_mem_take member)
  have back (n : Nat) : ∀ c ∈ (render D).drop n, IsDigit c := fun c member =>
    plain c (List.mem_of_mem_drop member)
  have nonempty (n : Nat) (some : 0 < n) : (render D).take n ≠ [] := by
    intro empty
    have := congrArg List.length empty
    rw [List.length_take, List.length_nil] at this
    omega
  by_cases far : x < -4 ∨ 17 ≤ x
  · -- one digit before the point, and an exponent
    rw [if_pos far]
    have printed := strtod_printed d.negative (front 1) (back 1) (nonempty 1 one_pos)
      (.inr ⟨_, rfl⟩) (D := D) (x := x) (exponentPart_printed x)
      (by rw [List.take_append_drop, value]) (by rw [List.length_drop, length]; push_cast; ring)
    simpa only [List.append_assoc, List.cons_append, List.nil_append] using printed
  rw [if_neg far]
  by_cases whole : 0 ≤ x
  · rw [if_pos whole]
    have printed := strtod_printed d.negative (front (x.toNat + 1)) (back (x.toNat + 1))
      (nonempty _ (Nat.succ_pos _)) (.inl rfl) (D := D) (x := x) (e := 0) rfl
      (by rw [List.take_append_drop, value]) (by rw [List.length_drop, length]; omega)
    simpa only [List.append_assoc, List.append_nil] using printed
  · rw [if_neg whole]
    have printed := @strtod_printed [48] (List.replicate (x.natAbs - 1) 48 ++ render D) [] D x 0
      d.negative (by simp; decide)
      (fun c member => (List.mem_append.mp member).elim
        (fun zero => List.eq_of_mem_replicate zero ▸ by decide) (plain c))
      (List.cons_ne_nil _ _) (.inl rfl) rfl
      (by
        rw [← List.append_assoc, show [48] ++ List.replicate (x.natAbs - 1) 48 =
          List.replicate (x.natAbs - 1 + 1) (48 : UInt8) from rfl, digitsValue_leading, value])
      (by rw [List.length_append, List.length_replicate, length]; omega)
    simpa only [List.append_assoc, List.append_nil] using printed

end Texts

/-! ### The round trip -/

section RoundTrip

variable {d : Double}

/-- Below the normal range, and not zero. -/
def isSubnormal (d : Double) : Bool := 0 < d.magnitude && d.magnitude < 2 ^ 52

theorem ofMagnitude_self (d : Double) : ofMagnitude d.negative d.magnitude = d := by
  obtain ⟨bits⟩ := d
  have wide := bits.toNat_lt
  have same : (if 2 ^ 63 ≤ bits.toNat then 2 ^ 63 + bits.toNat % 2 ^ 63 else
      bits.toNat % 2 ^ 63) = bits.toNat := by
    split_ifs <;> omega
  unfold ofMagnitude negative magnitude
  simp only [decide_eq_true_eq, same, UInt64.ofNat_toNat]

theorem units_eq_zero_iff : d.units = 0 ↔ d.magnitude = 0 := by
  unfold units
  dsimp only
  split_ifs with subnormal
  · omega
  · refine iff_of_false (by positivity) ?_
    rintro zero
    rw [zero] at subnormal
    exact subnormal rfl

theorem strtod_zero (negative : Bool) :
    strtod ((if negative then [45] else []) ++ [48]) =
      some ⟨ofMagnitude negative 0, false, []⟩ := by
  have none : scaled 0 10 0 = (0, false) := by
    unfold scaled
    rw [if_pos (le_refl _), zero_mul, zero_mul]
    decide
  have read := @decimalForm_text negative [48] [] [] 0 (by simp; decide) (by simp)
    (List.cons_ne_nil _ _) (.inl rfl) rfl
  rw [strtod_signed negative (by decide), unsignedForm_text (by decide) (by rintro _ ⟨⟩)]
  refine read.trans ?_
  show some (Conversion.mk (ofMagnitude negative (scaled 0 10 0).1) (scaled 0 10 0).2 []) = _
  rw [none]

/-- The digits that are read, as near to the number as those printed. -/
theorem ReadsAs.near (positive : 0 < d.units)
    (reads : ReadsAs d.negative (digits17 d.units).1 (digits17 d.units).2 d.formatG17) :
    ∃ (S : Nat) (E : Int), 0 < S ∧ S < 10 ^ 17 ∧
      |S * (10 : ℚ) ^ E - value d.units| ≤ value d.units / (2 * 10 ^ 16) ∧
      strtod d.formatG17 =
        some ⟨ofMagnitude d.negative (scaled S 10 E).1, (scaled S 10 E).2, []⟩ := by
  obtain ⟨low, high, near⟩ := digits17_near positive
  obtain ⟨S, k, E, digits, exponent, read⟩ := reads
  have one : 0 < 10 ^ k := by positivity
  refine ⟨S, E, ?_, ?_, ?_, read⟩
  · refine Nat.pos_of_ne_zero fun zero => ?_
    rw [zero, zero_mul] at digits
    omega
  · exact lt_of_le_of_lt (Nat.le_mul_of_pos_right S one) (digits ▸ high)
  · have same : (S : ℚ) * 10 ^ E = (digits17 d.units).1 * 10 ^ ((digits17 d.units).2 - 16) := by
      rw [← digits, exponent, zpow_add₀ (by norm_num), zpow_natCast]
      push_cast
      ring
    rw [same]
    exact near

/-- The infinities. -/
theorem strtod_infinite (infinite : d.isInf = true) :
    strtod d.formatG17 = some ⟨d, d.isSubnormal, []⟩ := by
  have magnitude : d.magnitude = infMagnitude := of_decide_eq_true infinite
  have number : d.isNaN = false := by
    unfold isNaN
    rw [magnitude]
    exact decide_eq_false (lt_irrefl _)
  have normal : d.isSubnormal = false := by
    unfold isSubnormal
    rw [magnitude]
    rfl
  have self := ofMagnitude_self d
  rw [magnitude] at self
  unfold formatG17
  rw [number, infinite, if_neg Bool.false_ne_true, if_pos rfl, normal]
  generalize d.negative = sign at self
  subst self
  cases sign <;> rfl

theorem strtod_finite (finite : d.magnitude < infMagnitude) :
    strtod d.formatG17 = some ⟨d, d.isSubnormal, []⟩ := by
  obtain ⟨number, bounded⟩ := finite_iff.mp finite
  have self := ofMagnitude_self d
  by_cases zero : d.units = 0
  · have magnitude := units_eq_zero_iff.mp zero
    have normal : d.isSubnormal = false := by
      unfold isSubnormal
      rw [magnitude]
      rfl
    unfold formatG17
    rw [number, bounded, if_neg Bool.false_ne_true, if_neg Bool.false_ne_true, if_pos zero, normal,
      strtod_zero, ← magnitude, self]
  · have positive := Nat.pos_of_ne_zero zero
    obtain ⟨S, E, least, most, near, read⟩ :=
      ReadsAs.near positive (strtod_digits number bounded positive)
    have whole := Nat.div_add_mod d.magnitude (2 ^ 52)
    have small := Nat.mod_lt d.magnitude (show 0 < 2 ^ 52 by norm_num)
    by_cases low : d.magnitude / 2 ^ 52 = 0
    · have units : d.units = d.magnitude := by
        unfold Double.units
        dsimp only
        rw [if_pos low]
        omega
      rw [units] at near positive
      have subnormal : d.isSubnormal = true := by
        unfold isSubnormal
        rw [Bool.and_eq_true, decide_eq_true_eq, decide_eq_true_eq]
        omega
      rw [read, scaled_subnormal positive (by omega) least most near, subnormal, self]
    · have units : d.units =
          (2 ^ 52 + d.magnitude % 2 ^ 52) * 2 ^ (d.magnitude / 2 ^ 52 - 1) := by
        unfold Double.units
        dsimp only
        rw [if_neg low]
      have magnitude : 2 ^ 52 + d.magnitude % 2 ^ 52 + (d.magnitude / 2 ^ 52 - 1) * 2 ^ 52 =
          d.magnitude := by
        rw [Nat.sub_mul]
        omega
      have normal : d.isSubnormal = false := by
        unfold isSubnormal
        rw [Bool.and_eq_false_iff, decide_eq_false_iff_not, decide_eq_false_iff_not]
        omega
      rw [units] at near
      rw [read, scaled_normal small (by rw [magnitude]; exact finite) near, magnitude, normal, self]

/-- **`strtod` reads back what `%.17g` prints**, with a range error for the subnormals alone. -/
theorem strtod_formatG17 (number : d.isNaN = false) :
    strtod d.formatG17 = some ⟨d, d.isSubnormal, []⟩ := by
  cases bounded : d.isInf with
  | true => exact strtod_infinite bounded
  | false => exact strtod_finite (finite_iff.mpr ⟨number, bounded⟩)

/-- A NaN is printed as one. -/
theorem strtod_nan (nan : d.isNaN = true) :
    strtod d.formatG17 = some ⟨Double.nan, false, []⟩ := by
  unfold formatG17
  rw [nan, if_pos rfl]
  cases d.negative <;> rfl

end RoundTrip

end Double
