import Mathlib.Algebra.Order.Field.Power
import Mathlib.Tactic.Linarith
import Mathlib.Tactic.Positivity
import Mathlib.Tactic.Ring
import RecordExpr.Number.Decimal

set_option autoImplicit false

namespace RecordExpr

/-- The value of a decimal. -/
def Decimal.value (d : Decimal) : ℚ := d.digits * 10 ^ d.exponent

namespace Number

/-- The absolute value of a finite number. -/
def size (x : Number) : ℚ := x.mantissa * 2 ^ x.exponent

theorem isNegative_iff (x : Number) : x.isNegative = true ↔ signUnit ≤ x.bits.toNat :=
  decide_eq_true_iff

theorem isFinite_iff (x : Number) : x.isFinite = true ↔ x.magnitude < infinityMagnitude :=
  decide_eq_true_iff

theorem isNaN_iff (x : Number) : x.isNaN = true ↔ infinityMagnitude < x.magnitude :=
  decide_eq_true_iff

theorem isZero_iff (x : Number) : x.isZero = true ↔ x.magnitude = 0 := beq_iff_eq

theorem magnitude_lt (x : Number) : x.magnitude < signUnit := Nat.mod_lt _ (by decide)

theorem magnitude_ofMagnitude (negative : Bool) {m : Nat} (small : m < signUnit) :
    (ofMagnitude negative m).magnitude = m := by
  simp only [signUnit] at small
  cases negative <;>
    simp only [magnitude, ofMagnitude, signUnit, UInt64.toNat_ofNat', Bool.false_eq_true, if_true,
      if_false] <;> omega

theorem isNegative_ofMagnitude (negative : Bool) {m : Nat} (small : m < signUnit) :
    (ofMagnitude negative m).isNegative = negative := by
  simp only [signUnit] at small
  rw [Bool.eq_iff_iff, isNegative_iff]
  cases negative <;>
    simp only [ofMagnitude, signUnit, UInt64.toNat_ofNat', Bool.false_eq_true, if_true, if_false,
      iff_true, iff_false] <;> omega

/-- A number is given by its sign and its magnitude. -/
theorem ofMagnitude_magnitude (x : Number) : ofMagnitude x.isNegative x.magnitude = x := by
  have bounded := x.bits.toNat_lt
  have bits : x.magnitude + (if x.isNegative then signUnit else 0) = x.bits.toNat := by
    simp only [isNegative_iff, magnitude]
    unfold signUnit
    split <;> omega
  rw [ofMagnitude, bits, UInt64.ofNat_toNat]

/-- What is neither finite nor a NaN is an infinity. -/
theorem magnitude_of_infinite {x : Number} (number : x.isNaN = false)
    (infinite : x.isFinite = false) : x.magnitude = infinityMagnitude := by
  rw [← Bool.not_eq_true, isNaN_iff] at number
  rw [← Bool.not_eq_true, isFinite_iff] at infinite
  omega

theorem rank_of_number {x : Number} (number : x.isNaN = false) :
    x.rank = if x.isNegative then -(x.magnitude : ℤ) else x.magnitude := by
  rw [rank, number]
  rfl

theorem rank_of_isNaN {x : Number} (nan : x.isNaN = true) : x.rank = signUnit := by
  rw [rank, nan]
  rfl

theorem rank_lt_of_number {x : Number} (number : x.isNaN = false) : x.rank < signUnit := by
  have bounded := magnitude_lt x
  rw [rank_of_number number]
  split <;> omega

theorem mantissa_lt (x : Number) : x.mantissa < 2 * normalMantissa := by
  unfold mantissa normalMantissa
  split <;> omega

theorem exponent_ge (x : Number) : -1074 ≤ x.exponent := by
  unfold exponent normalMantissa
  split <;> omega

/-- Above the smallest exponent the leading bit of the mantissa is set. -/
theorem normal_or_bottom (x : Number) : normalMantissa ≤ x.mantissa ∨ x.exponent = -1074 := by
  unfold mantissa exponent
  split
  · exact .inr rfl
  · exact .inl (Nat.le_add_right _ _)

theorem magnitude_eq (x : Number) :
    x.magnitude = (x.exponent + 1074).toNat * normalMantissa + x.mantissa := by
  unfold mantissa exponent
  split
  · rw [show (-1074 + 1074 : Int).toNat = 0 from rfl, Nat.zero_mul, Nat.zero_add]
  · unfold normalMantissa at *
    omega

theorem exponent_le_of_isFinite {x : Number} (finite : x.isFinite = true) : x.exponent ≤ 971 := by
  rw [isFinite_iff] at finite
  unfold infinityMagnitude normalMantissa at finite
  unfold exponent normalMantissa
  split <;> omega

theorem mantissa_pos {x : Number} (nonzero : x.isZero = false) : 0 < x.mantissa := by
  have positive : x.magnitude ≠ 0 := beq_eq_false_iff_ne.mp nonzero
  unfold mantissa normalMantissa
  split <;> omega

theorem divHalfEven_scale {k : Nat} (pos : 0 < k) (num den : Nat) :
    divHalfEven (k * num) (k * den) = divHalfEven num den := by
  have rest : 2 * (k * num % (k * den)) = k * (2 * (num % den)) := by
    rw [Nat.mul_mod_mul_left, Nat.mul_left_comm]
  simp only [divHalfEven, Nat.mul_div_mul_left num den pos, rest, Nat.mul_lt_mul_left pos]

/-- Only the ratio counts. -/
theorem divHalfEven_congr {num den num' den' : Nat} (pos : 0 < den) (pos' : 0 < den')
    (same : num * den' = num' * den) : divHalfEven num den = divHalfEven num' den' := by
  calc divHalfEven num den
      = divHalfEven (den' * num) (den' * den) := (divHalfEven_scale pos' num den).symm
    _ = divHalfEven (den * num') (den * den') := by
        rw [Nat.mul_comm den' num, same, Nat.mul_comm num' den, Nat.mul_comm den' den]
    _ = divHalfEven num' den' := divHalfEven_scale pos num' den'

/-- What is less than a half away from a whole number is rounded to it. -/
theorem divHalfEven_eq {num den m : Nat} (pos : 0 < den)
    (near : |(num / den : ℚ) - m| < 1 / 2) : divHalfEven num den = m := by
  obtain ⟨above, below⟩ := abs_sub_lt_iff.mp near
  have posQ : (0 : ℚ) < den := by exact_mod_cast pos
  have upper : 2 * num < (2 * m + 1) * den := by
    have scaled : (num : ℚ) < (1 / 2 + m) * den := (div_lt_iff₀ posQ).mp (by linarith)
    have : (2 * num : ℚ) < (2 * m + 1) * den := by linarith
    exact_mod_cast this
  have lower : 2 * m * den < 2 * num + den := by
    have scaled : ((m : ℚ) - 1 / 2) * den < num := (lt_div_iff₀ posQ).mp (by linarith)
    have : (2 * m * den : ℚ) < 2 * num + den := by linarith
    exact_mod_cast this
  have parts : den * (num / den) + num % den = num := Nat.div_add_mod num den
  have rest := Nat.mod_lt num pos
  simp only [divHalfEven]
  generalize num / den = q at parts ⊢
  generalize num % den = r at parts rest ⊢
  -- the quotient is `m`, or one less where the rest is more than a half
  have atMost : q < m + 1 := by
    by_contra more
    have : (m + 1) * den ≤ q * den := Nat.mul_le_mul_right den (by omega)
    nlinarith
  have atLeast : m < q + 2 := by
    by_contra less
    have : (q + 2) * den ≤ m * den := Nat.mul_le_mul_right den (by omega)
    nlinarith
  rcases Nat.lt_or_ge q m with less | more
  · obtain rfl : m = q + 1 := by omega
    have large : den < 2 * r := by nlinarith
    rw [if_neg (by omega), if_pos large]
  · obtain rfl : q = m := by omega
    have small : 2 * r < den := by nlinarith
    rw [if_pos small]

/-- Numbers next to `q` are multiples of `2 ^ unit`: `q` has 53 bits before the point when counted
in it, or less if the unit is the smallest one. -/
structure UnitFor (q : ℚ) (unit : ℤ) : Prop where
  bottom : -1074 ≤ unit
  below : q < 2 * normalMantissa * 2 ^ unit
  above : unit = -1074 ∨ normalMantissa * 2 ^ unit ≤ q

private theorem two_zpow_succ (n : ℤ) : (2 : ℚ) ^ (n + 1) = 2 * 2 ^ n := by
  rw [zpow_add_one₀ two_ne_zero, mul_comm]

/-- There is only one. -/
theorem UnitFor.unique {q : ℚ} {u v : ℤ} (first : UnitFor q u) (second : UnitFor q v) : u = v := by
  -- a larger unit would have its 53 bits above all that the smaller one reaches
  have notBelow : ∀ {u v : ℤ}, UnitFor q u → UnitFor q v → v ≤ u := by
    intro u v first second
    by_contra less
    have reached : (normalMantissa : ℚ) * 2 ^ v ≤ q :=
      second.above.resolve_left (by have := first.bottom; omega)
    have powers : (2 : ℚ) ^ (u + 1) ≤ 2 ^ v := zpow_le_zpow_right₀ (by norm_num) (by omega)
    rw [two_zpow_succ] at powers
    have := mul_le_mul_of_nonneg_left powers (Nat.cast_nonneg (α := ℚ) normalMantissa)
    linarith [first.below]
  exact le_antisymm (notBelow second first) (notBelow first second)

theorem inUnits_pos {den : Nat} (pos : 0 < den) (num : Nat) (unit : ℤ) :
    0 < (inUnits num den unit).2 := by
  unfold inUnits
  split
  · exact Nat.mul_pos pos (Nat.pow_pos (by decide))
  · exact pos

theorem inUnits_ratio (num den : Nat) (unit : ℤ) :
    ((inUnits num den unit).1 / (inUnits num den unit).2 : ℚ) = num / den / 2 ^ unit := by
  unfold inUnits
  split
  · rename_i up
    lift unit to ℕ using up
    simp [div_div]
  · rename_i down
    obtain ⟨n, rfl⟩ : ∃ n : ℕ, unit = -n := ⟨(-unit).toNat, by omega⟩
    simp [div_eq_mul_inv]
    ring

/-- `num / den` lies within a factor of two of the power of two that the bit lengths give. -/
private theorem ratio_bounds {num den : Nat} (numPos : 0 < num) (denPos : 0 < den) :
    normalMantissa * (2 : ℚ) ^ ((num.log2 : ℤ) - den.log2 - 53) < num / den ∧
      (num / den : ℚ) < 4 * normalMantissa * 2 ^ ((num.log2 : ℤ) - den.log2 - 53) := by
  have numLower : ((2 : ℚ) ^ (num.log2 : ℤ)) ≤ num := by
    exact_mod_cast Nat.log2_self_le numPos.ne'
  have numUpper : (num : ℚ) < 2 ^ (num.log2 + 1 : ℤ) := by
    exact_mod_cast Nat.lt_log2_self (n := num)
  have denLower : ((2 : ℚ) ^ (den.log2 : ℤ)) ≤ den := by
    exact_mod_cast Nat.log2_self_le denPos.ne'
  have denUpper : (den : ℚ) < 2 ^ (den.log2 + 1 : ℤ) := by
    exact_mod_cast Nat.lt_log2_self (n := den)
  have mantissa : (normalMantissa : ℚ) = 2 ^ (52 : ℤ) := by norm_num [normalMantissa]
  have denPosQ : (0 : ℚ) < den := by exact_mod_cast denPos
  set n : ℤ := (num.log2 : ℤ)
  set d : ℤ := (den.log2 : ℤ)
  rw [mantissa, lt_div_iff₀ denPosQ, div_lt_iff₀ denPosQ]
  constructor
  · calc (2 : ℚ) ^ (52 : ℤ) * 2 ^ (n - d - 53) * den
        < 2 ^ (52 : ℤ) * 2 ^ (n - d - 53) * 2 ^ (d + 1) :=
          mul_lt_mul_of_pos_left denUpper (by positivity)
      _ = 2 ^ n := by
          rw [← zpow_add₀ two_ne_zero, ← zpow_add₀ two_ne_zero]
          congr 1
          ring
      _ ≤ num := numLower
  · calc (num : ℚ) < 2 ^ (n + 1) := numUpper
      _ = 2 ^ (2 : ℤ) * 2 ^ (52 : ℤ) * 2 ^ (n - d - 53) * 2 ^ d := by
          rw [← zpow_add₀ two_ne_zero, ← zpow_add₀ two_ne_zero, ← zpow_add₀ two_ne_zero]
          congr 1
          ring
      _ ≤ 4 * 2 ^ (52 : ℤ) * 2 ^ (n - d - 53) * den := by
          rw [show (2 : ℚ) ^ (2 : ℤ) = 4 by norm_num]
          exact mul_le_mul_of_nonneg_left denLower (by positivity)

theorem unitFor_unitOf {num den : Nat} (numPos : 0 < num) (denPos : 0 < den) :
    UnitFor (num / den) (unitOf num den) := by
  obtain ⟨lower, upper⟩ := ratio_bounds numPos denPos
  set rough : ℤ := (num.log2 : ℤ) - den.log2 - 53
  -- the coarse unit is right or one too small
  have coarse : -1074 ≤ max rough (-1074) ∧
      (num / den : ℚ) < 4 * normalMantissa * 2 ^ max rough (-1074) ∧
      (max rough (-1074) = -1074 ∨ normalMantissa * (2 : ℚ) ^ max rough (-1074) ≤ num / den) := by
    rcases le_total rough (-1074) with low | high
    · rw [max_eq_right low]
      have grown : (2 : ℚ) ^ rough ≤ 2 ^ (-1074 : ℤ) := zpow_le_zpow_right₀ (by norm_num) low
      refine ⟨le_rfl, ?_, .inl rfl⟩
      have := mul_le_mul_of_nonneg_left grown (by positivity : (0 : ℚ) ≤ 4 * normalMantissa)
      linarith
    · rw [max_eq_left high]
      exact ⟨high, upper, .inr lower.le⟩
  show UnitFor (num / den) (if _ then max rough (-1074) + 1 else max rough (-1074))
  generalize max rough (-1074) = unit at coarse ⊢
  obtain ⟨bottom, below, above⟩ := coarse
  have pos := inUnits_pos denPos num unit
  have posQ : (0 : ℚ) < (inUnits num den unit).2 := by exact_mod_cast pos
  have unitPos : (0 : ℚ) < 2 ^ unit := by positivity
  have tested : 2 * normalMantissa ≤ (inUnits num den unit).1 /
        (inUnits num den unit).2 ↔
      2 * normalMantissa * (2 : ℚ) ^ unit ≤ num / den := by
    rw [Nat.le_div_iff_mul_le pos, ← le_div_iff₀ unitPos, ← inUnits_ratio, le_div_iff₀ posQ]
    norm_cast
  split
  · rename_i large
    rw [tested] at large
    refine ⟨by linarith, ?_, .inr ?_⟩
    · rw [two_zpow_succ]
      linarith
    · rw [two_zpow_succ]
      linarith
  · rename_i small
    rw [tested, not_le] at small
    exact ⟨bottom, small, above⟩

/-- The number nearest to `± q`, for a `q` that is not negative. -/
def nearest (negative : Bool) (q : ℚ) : Number := ofRatio negative q.num.natAbs q.den

/-- The bits of a rounded ratio that is not zero. -/
theorem ofRatio_of_unitFor {num den : Nat} (numPos : 0 < num) (denPos : 0 < den) {unit : ℤ}
    (fits : UnitFor (num / den) unit) (negative : Bool) :
    ofRatio negative num den = ofMagnitude negative (min
      ((unit + 1074).toNat * normalMantissa +
        divHalfEven (inUnits num den unit).1 (inUnits num den unit).2) infinityMagnitude) := by
  rw [fits.unique (unitFor_unitOf numPos denPos), ofRatio, if_neg (by omega)]

/-- Only the ratio counts. -/
theorem ofRatio_congr {num den num' den' : Nat} (pos : 0 < den) (pos' : 0 < den')
    (same : num * den' = num' * den) (negative : Bool) :
    ofRatio negative num den = ofRatio negative num' den' := by
  rcases Nat.eq_zero_or_pos num with rfl | numPos
  · obtain rfl : num' = 0 := by
      rw [Nat.zero_mul, eq_comm, Nat.mul_eq_zero] at same
      omega
    rw [ofRatio, if_pos rfl, ofRatio, if_pos rfl]
  have numPos' : 0 < num' := by
    by_contra zero
    obtain rfl : num' = 0 := by omega
    rw [Nat.zero_mul, Nat.mul_eq_zero] at same
    omega
  have ratios : (num / den : ℚ) = num' / den' := by
    rw [div_eq_div_iff (by positivity) (by positivity)]
    exact_mod_cast same
  have fits := unitFor_unitOf numPos pos
  have fits' : UnitFor (num' / den') (unitOf num den) := ratios ▸ fits
  have scaled := inUnits_pos pos num (unitOf num den)
  have scaled' := inUnits_pos pos' num' (unitOf num den)
  have rounded : divHalfEven (inUnits num den (unitOf num den)).1
        (inUnits num den (unitOf num den)).2 =
      divHalfEven (inUnits num' den' (unitOf num den)).1
        (inUnits num' den' (unitOf num den)).2 := by
    apply divHalfEven_congr scaled scaled'
    have counted := inUnits_ratio num den (unitOf num den)
    rw [ratios, ← inUnits_ratio, div_eq_div_iff (by positivity) (by positivity)] at counted
    exact_mod_cast counted
  rw [ofRatio_of_unitFor numPos pos fits, ofRatio_of_unitFor numPos' pos' fits', rounded]

private theorem num_div_den_of_nonneg {q : ℚ} (notNegative : 0 ≤ q) :
    (q.num.natAbs / q.den : ℚ) = q := by
  rw [Nat.cast_natAbs, abs_of_nonneg (Rat.num_nonneg.mpr notNegative), Rat.num_div_den]

/-- Rounding a ratio is rounding its value. -/
theorem ofRatio_eq_nearest (negative : Bool) (num : Nat) {den : Nat} (pos : 0 < den) :
    ofRatio negative num den = nearest negative (num / den) := by
  have notNegative : (0 : ℚ) ≤ num / den := by positivity
  have same := (num_div_den_of_nonneg notNegative).symm
  rw [div_eq_div_iff (by positivity) (Nat.cast_ne_zero.mpr (Rat.den_nz _))] at same
  apply ofRatio_congr pos (Rat.den_pos _)
  exact_mod_cast same

/-- The bits of a rounded value, from its unit and the whole number next to it. -/
theorem nearest_of_unitFor {q : ℚ} (pos : 0 < q) {unit : ℤ} (fits : UnitFor q unit) {m : Nat}
    (near : |q / 2 ^ unit - m| < 1 / 2) (negative : Bool) :
    nearest negative q =
      ofMagnitude negative (min ((unit + 1074).toNat * normalMantissa + m) infinityMagnitude) := by
  have numPos : 0 < q.num.natAbs := Int.natAbs_pos.mpr (Rat.num_pos.mpr pos).ne'
  have rounded : divHalfEven (inUnits q.num.natAbs q.den unit).1
      (inUnits q.num.natAbs q.den unit).2 = m := by
    apply divHalfEven_eq (inUnits_pos q.den_pos _ _)
    rwa [inUnits_ratio, num_div_den_of_nonneg pos.le]
  have fits : UnitFor (q.num.natAbs / q.den) unit := by rwa [num_div_den_of_nonneg pos.le]
  rw [nearest, ofRatio_of_unitFor numPos q.den_pos fits, rounded]

/-- A value that is less than half a unit away from `m` units. -/
private theorem abs_div_sub_lt_half {q u m : ℚ} (pos : 0 < u) (close : |q - m * u| < u / 2) :
    |q / u - m| < 1 / 2 := by
  rw [div_sub' pos.ne', abs_div, abs_of_pos pos, div_lt_iff₀ pos, mul_comm u]
  linarith

/-- A value with the unit of a number, less than half of it away, rounds to that number. -/
theorem nearest_of_same_unit {x : Number} (finite : x.isFinite = true) {q : ℚ} (pos : 0 < q)
    (fits : UnitFor q x.exponent) (close : |q - x.size| < 2 ^ x.exponent / 2) (negative : Bool) :
    nearest negative q = ofMagnitude negative x.magnitude := by
  have small : x.magnitude ≤ infinityMagnitude := ((isFinite_iff x).mp finite).le
  have near : |q / 2 ^ x.exponent - x.mantissa| < 1 / 2 :=
    abs_div_sub_lt_half (by positivity) close
  rw [nearest_of_unitFor pos fits near, ← magnitude_eq, min_eq_left small]

/-- Below a power of two the unit is half of that above it, and a value less than a quarter of the
unit above away rounds up to the power, with a carry into the exponent. -/
theorem nearest_below_power {x : Number} (finite : x.isFinite = true)
    (power : x.mantissa = normalMantissa) (notBottom : x.exponent ≠ -1074) {q : ℚ}
    (less : q < normalMantissa * 2 ^ x.exponent)
    (close : normalMantissa * 2 ^ x.exponent - q < 2 ^ x.exponent / 4) (negative : Bool) :
    nearest negative q = ofMagnitude negative x.magnitude := by
  have small : x.magnitude ≤ infinityMagnitude := ((isFinite_iff x).mp finite).le
  have above : -1074 ≤ x.exponent - 1 := by
    have := exponent_ge x
    omega
  have half : (2 : ℚ) ^ (x.exponent - 1) = 2 ^ x.exponent / 2 := by
    rw [zpow_sub₀ two_ne_zero, zpow_one]
  have unitPos : (0 : ℚ) < 2 ^ x.exponent := by positivity
  have large : (1 : ℚ) ≤ normalMantissa := by norm_num [normalMantissa]
  have scaled := mul_le_mul_of_nonneg_right large unitPos.le
  have fits : UnitFor q (x.exponent - 1) := by
    refine ⟨above, ?_, .inr ?_⟩
    · rw [half]
      linarith
    · rw [half]
      linarith
  have near : |q / 2 ^ (x.exponent - 1) - (2 * normalMantissa : Nat)| < 1 / 2 := by
    apply abs_div_sub_lt_half (by positivity)
    rw [half, abs_lt]
    push_cast
    constructor <;> linarith
  have carried : (x.exponent - 1 + 1074).toNat * normalMantissa + 2 * normalMantissa =
      x.magnitude := by
    have next : (x.exponent + 1074).toNat = (x.exponent - 1 + 1074).toNat + 1 := by omega
    rw [magnitude_eq x, power, next]
    ring
  rw [nearest_of_unitFor (by linarith) fits near, carried, min_eq_left small]

/-- Within a quarter of the last mantissa bit of a number everything rounds to it. Half of that bit
would do, except below a power of two, where the numbers are twice as dense. -/
theorem nearest_of_close {x : Number} (finite : x.isFinite = true) (nonzero : x.isZero = false)
    {q : ℚ} (close : |q - x.size| < 2 ^ (x.exponent - 2)) (negative : Bool) :
    nearest negative q = ofMagnitude negative x.magnitude := by
  have quarter : (2 : ℚ) ^ (x.exponent - 2) = 2 ^ x.exponent / 4 := by
    rw [zpow_sub₀ two_ne_zero]
    norm_num
  have unitPos : (0 : ℚ) < 2 ^ x.exponent := by positivity
  have bounded : (x.mantissa : ℚ) + 1 ≤ 2 * normalMantissa := by exact_mod_cast mantissa_lt x
  have positive : (1 : ℚ) ≤ x.mantissa := by exact_mod_cast mantissa_pos nonzero
  have scaledPositive := mul_le_mul_of_nonneg_right positive unitPos.le
  have scaledBounded := mul_le_mul_of_nonneg_right bounded unitPos.le
  rw [quarter] at close
  obtain ⟨above, below⟩ := abs_sub_lt_iff.mp close
  have size : x.size = x.mantissa * 2 ^ x.exponent := rfl
  by_cases same : x.exponent = -1074 ∨ normalMantissa * (2 : ℚ) ^ x.exponent ≤ q
  · have fits : UnitFor q x.exponent := ⟨exponent_ge x, by linarith, same⟩
    exact nearest_of_same_unit finite (by linarith) fits (by linarith) negative
  · obtain ⟨notBottom, notAbove⟩ := not_or.mp same
    have less := not_le.mp notAbove
    have normal : normalMantissa ≤ x.mantissa := (normal_or_bottom x).resolve_right notBottom
    -- the mantissa is that of a power of two, since `q` is too close to be below a larger one
    have power : x.mantissa = normalMantissa := by
      by_contra other
      have more : (normalMantissa : ℚ) + 1 ≤ x.mantissa := by
        have : normalMantissa + 1 ≤ x.mantissa := by omega
        exact_mod_cast this
      have := mul_le_mul_of_nonneg_right more unitPos.le
      linarith
    rw [size, power] at below
    exact nearest_below_power finite power notBottom less below negative

/-- The sign is only attached to what the value rounds to. -/
theorem nearest_eq_ofMagnitude (negative : Bool) (q : ℚ) :
    nearest negative q = ofMagnitude negative (nearest false q).magnitude := by
  unfold nearest ofRatio
  split
  · rw [magnitude_ofMagnitude false (by decide)]
  · have small : ∀ m, min m infinityMagnitude < signUnit := fun m =>
      (Nat.min_le_right m _).trans_lt (by decide)
    rw [magnitude_ofMagnitude false (small _)]

/-- Values far beyond the largest number are infinite. -/
theorem nearest_of_large {q : ℚ} (large : 2 ^ (1100 : ℤ) ≤ q) (negative : Bool) :
    nearest negative q = infinity negative := by
  have pos : 0 < q := lt_of_lt_of_le (by positivity) large
  have numPos : 0 < q.num.natAbs := Int.natAbs_pos.mpr (Rat.num_pos.mpr pos).ne'
  have fits := unitFor_unitOf numPos q.den_pos
  rw [nearest, ofRatio_of_unitFor numPos q.den_pos fits]
  have high : 1047 < unitOf q.num.natAbs q.den := by
    have mantissa : (2 * normalMantissa : ℚ) = 2 ^ (53 : ℤ) := by norm_num [normalMantissa]
    have below := fits.below
    rw [num_div_den_of_nonneg pos.le, mantissa, ← zpow_add₀ two_ne_zero] at below
    have := (zpow_lt_zpow_iff_right₀ (by norm_num : (1 : ℚ) < 2)).mp (large.trans_lt below)
    omega
  have beyond : infinityMagnitude ≤ (unitOf q.num.natAbs q.den + 1074).toNat * normalMantissa :=
    Nat.mul_le_mul_right _ (by omega)
  rw [min_eq_right (le_add_right beyond)]
  rfl

theorem nearest_zero (negative : Bool) : nearest negative 0 = ofMagnitude negative 0 := rfl

/-- Values below half of the smallest number are zero. -/
theorem nearest_of_tiny {q : ℚ} (notNegative : 0 ≤ q) (tiny : q < 2 ^ (-1075 : ℤ))
    (negative : Bool) : nearest negative q = ofMagnitude negative 0 := by
  rcases notNegative.eq_or_lt with rfl | pos
  · exact nearest_zero negative
  have unitPos : (0 : ℚ) < 2 ^ (-1074 : ℤ) := by positivity
  have half : (2 : ℚ) ^ (-1075 : ℤ) = 2 ^ (-1074 : ℤ) / 2 := by
    rw [show (-1075 : ℤ) = -1074 - 1 by norm_num, zpow_sub₀ two_ne_zero, zpow_one]
  rw [half] at tiny
  have fits : UnitFor q (-1074) := by
    have : (1 : ℚ) ≤ 2 * normalMantissa := by norm_num [normalMantissa]
    have := mul_le_mul_of_nonneg_right this unitPos.le
    exact ⟨le_rfl, by linarith, .inl rfl⟩
  have near : |q / 2 ^ (-1074 : ℤ) - (0 : Nat)| < 1 / 2 := by
    apply abs_div_sub_lt_half unitPos
    rw [Nat.cast_zero, zero_mul, sub_zero, abs_of_pos pos]
    exact tiny
  rw [nearest_of_unitFor pos fits near]
  rfl

end Number

namespace Decimal

open Number

theorem value_nonneg (d : Decimal) : 0 ≤ d.value := by
  unfold value
  positivity

theorem ratio_pos (d : Decimal) : 0 < d.ratio.2 := by
  unfold ratio
  split
  · exact Nat.one_pos
  · exact Nat.pow_pos (by decide)

theorem ratio_eq_value (d : Decimal) : (d.ratio.1 / d.ratio.2 : ℚ) = d.value := by
  obtain ⟨digits, exponent⟩ := d
  unfold ratio value
  split
  · rename_i up
    lift exponent to ℕ using up
    simp
  · rename_i down
    obtain ⟨n, rfl⟩ : ∃ n : ℕ, exponent = -n := ⟨(-exponent).toNat, by simp only at down; omega⟩
    simp [div_eq_mul_inv]

private theorem two_zpow_le_ten {n : ℤ} (up : 0 ≤ n) : (2 : ℚ) ^ (3 * n) ≤ 10 ^ n := by
  lift n to ℕ using up
  rw [zpow_mul, zpow_natCast, zpow_natCast]
  exact pow_le_pow_left₀ (by norm_num) (by norm_num) n

theorem toNumber_eq_nearest (negative : Bool) (d : Decimal) :
    d.toNumber negative = nearest negative d.value := by
  unfold toNumber
  split_ifs with zero large tiny
  · rw [value, zero, Nat.cast_zero, zero_mul, nearest_zero]
  · have ten : (2 : ℚ) ^ (1100 : ℤ) ≤ 10 ^ d.exponent :=
      (zpow_le_zpow_right₀ (by norm_num) (by omega)).trans (two_zpow_le_ten (by omega))
    have digits : (1 : ℚ) ≤ d.digits := by exact_mod_cast Nat.pos_of_ne_zero zero
    have value : (10 : ℚ) ^ d.exponent ≤ d.value := le_mul_of_one_le_left (by positivity) digits
    rw [nearest_of_large (ten.trans value)]
  · have digits : (d.digits : ℚ) < 2 ^ (d.digits.log2 + 1 : ℤ) := by
      exact_mod_cast Nat.lt_log2_self (n := d.digits)
    have ten : (10 : ℚ) ^ d.exponent ≤ 2 ^ (3 * d.exponent) := by
      have := two_zpow_le_ten (n := -d.exponent) (by omega)
      rw [mul_neg, zpow_neg, zpow_neg, inv_le_inv₀ (by positivity) (by positivity)] at this
      exact this
    have below : d.value < 2 ^ (-1075 : ℤ) := by
      calc d.value
          < 2 ^ (d.digits.log2 + 1 : ℤ) * 2 ^ (3 * d.exponent) :=
            mul_lt_mul digits ten (by positivity) (by positivity)
        _ = 2 ^ (d.digits.log2 + 1 + 3 * d.exponent : ℤ) := (zpow_add₀ two_ne_zero _ _).symm
        _ ≤ 2 ^ (-1075 : ℤ) := zpow_le_zpow_right₀ (by norm_num) (by omega)
    rw [nearest_of_tiny d.value_nonneg below]
  · rw [ofRatio_eq_nearest negative d.ratio.1 d.ratio_pos, ratio_eq_value]

theorem isNegative_toNumber (d : Decimal) : (d.toNumber false).isNegative = false := by
  rw [toNumber_eq_nearest, nearest_eq_ofMagnitude]
  exact isNegative_ofMagnitude false (magnitude_lt _)

end Decimal

end RecordExpr
