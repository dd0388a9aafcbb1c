import Mathlib.Data.List.TakeWhile
import Mathlib.Tactic.FieldSimp
import RecordExpr.Number.Text
import RecordExpr.Proofs.NearestNumber

set_option autoImplicit false

namespace RecordExpr

namespace Decimal

open Number

theorem value_trimZeros (digits : Nat) (exponent : ℤ) :
    (trimZeros digits exponent).value = (Decimal.mk digits exponent).value := by
  induction digits, exponent using trimZeros.induct with
  | case1 digits exponent zeros ih =>
      rw [trimZeros, dif_pos zeros, ih]
      have whole : digits = digits / 10 * 10 := by omega
      have wholeQ : (digits : ℚ) = (digits / 10 : Nat) * 10 := by exact_mod_cast whole
      simp only [value]
      rw [wholeQ, zpow_add_one₀ (by norm_num)]
      ring
  | case2 digits exponent bare => rw [trimZeros, dif_neg bare]

end Decimal

namespace Number

variable {x : Number}

/-- An integer power as a quotient of natural ones. -/
private theorem pow_toNat_div (b : ℚ) (n : ℤ) :
    b ^ n.toNat / b ^ (-n).toNat = b ^ n := by
  rcases le_total 0 n with up | down
  · lift n to ℕ using up
    simp
  · obtain ⟨k, rfl⟩ : ∃ k : ℕ, n = -k := ⟨(-n).toNat, by omega⟩
    simp

theorem inPlaces_pos (x : Number) (place : ℤ) : 0 < (x.inPlaces place).2 :=
  Nat.mul_pos (Nat.pow_pos (by decide)) (Nat.pow_pos (by decide))

theorem inPlaces_ratio (x : Number) (place : ℤ) :
    ((x.inPlaces place).1 / (x.inPlaces place).2 : ℚ) = x.size / 10 ^ place := by
  have two := pow_toNat_div 2 x.exponent
  have ten := pow_toNat_div 10 place
  simp only [inPlaces, size, ← two, ← ten, Nat.pow_eq]
  push_cast
  field_simp

/-- The multiple of `10 ^ place` below a number is less than `10 ^ place` away from it. -/
theorem below_close (x : Number) (place : ℤ) :
    |(Decimal.mk ((x.inPlaces place).1 / (x.inPlaces place).2) place).value - x.size| <
      10 ^ place := by
  have unitPos : (0 : ℚ) < 10 ^ place := by positivity
  have counted := inPlaces_ratio x place
  have pos : (0 : ℚ) < (x.inPlaces place).2 := by exact_mod_cast inPlaces_pos x place
  set num := (x.inPlaces place).1
  set den := (x.inPlaces place).2
  have parts : (den * (num / den : Nat) + (num % den : Nat) : ℚ) = num := by
    exact_mod_cast Nat.div_add_mod num den
  have rest : ((num % den : Nat) : ℚ) < den := by
    exact_mod_cast Nat.mod_lt num (inPlaces_pos x place)
  have size : x.size = num / den * 10 ^ place := by
    rw [counted, div_mul_cancel₀ _ unitPos.ne']
  have distance : (Decimal.mk (num / den) place).value - x.size =
      -((num % den : Nat) / den * 10 ^ place) := by
    rw [size, Decimal.value, ← parts]
    field_simp
    ring
  rw [distance, abs_neg, abs_of_nonneg (by positivity)]
  exact mul_lt_of_lt_one_left unitPos ((div_lt_one pos).mpr rest)

theorem readsBack_of_close (finite : x.isFinite = true) (nonzero : x.isZero = false) {d : Decimal}
    (close : |d.value - x.size| < 2 ^ (x.exponent - 2)) : x.readsBack d = true := by
  rw [readsBack, Decimal.toNumber_eq_nearest, nearest_of_close finite nonzero close,
    magnitude_ofMagnitude false x.magnitude_lt, beq_self_eq_true]

/-- At a place that is fine enough for the last mantissa bit something is found. -/
theorem shortestAt_ne_none (finite : x.isFinite = true) (nonzero : x.isZero = false) {place : ℤ}
    (fine : (10 : ℚ) ^ place ≤ 2 ^ (x.exponent - 2)) (tie : DecimalTie) :
    x.shortestAt tie place ≠ none := by
  have reads := readsBack_of_close finite nonzero ((below_close x place).trans_le fine)
  unfold shortestAt
  grind

theorem readsBack_of_shortestAt {tie : DecimalTie} {place : ℤ} {d : Decimal}
    (found : x.shortestAt tie place = some d) : x.readsBack d = true := by
  unfold shortestAt at found
  grind

private theorem log2_mantissa_le (nonzero : x.isZero = false) : x.mantissa.log2 ≤ 52 := by
  have bounded : x.mantissa < 2 ^ 53 := x.mantissa_lt
  have := (Nat.log2_lt (mantissa_pos nonzero).ne').mpr bounded
  omega

/-- `10 ^ 3` is less than `2 ^ 10`, and `10 ^ 25` more than `2 ^ 83`. -/
private theorem ten_zpow_le {p n : ℤ} (up : 0 ≤ p → 10 * p ≤ 3 * n)
    (down : p ≤ 0 → 83 * p ≤ 25 * n) : (10 : ℚ) ^ p ≤ 2 ^ n := by
  rcases le_total 0 p with positive | negative
  · refine (pow_le_pow_iff_left₀ (by positivity) (by positivity) (three_ne_zero)).mp ?_
    calc ((10 : ℚ) ^ p) ^ 3 = (10 ^ 3) ^ p := by rw [← zpow_natCast, zpow_comm]; rfl
      _ ≤ (2 ^ 10) ^ p := zpow_le_zpow_left₀ positive (by norm_num) (by norm_num)
      _ = 2 ^ (10 * p) := by rw [zpow_mul]; rfl
      _ ≤ 2 ^ (n * 3) := zpow_le_zpow_right₀ (by norm_num) (by have := up positive; omega)
      _ = (2 ^ n) ^ 3 := by rw [zpow_mul]; rfl
  · have base : ((10 : ℚ) ^ 25) ^ p ≤ (2 ^ 83) ^ p := by
      have := inv_anti₀ (by positivity) (zpow_le_zpow_left₀ (neg_nonneg.mpr negative)
        (by norm_num : (0 : ℚ) ≤ 2 ^ 83) (by norm_num : (2 : ℚ) ^ 83 ≤ 10 ^ 25))
      simpa only [zpow_neg, inv_inv] using this
    refine (pow_le_pow_iff_left₀ (by positivity) (by positivity) (by norm_num : 25 ≠ 0)).mp ?_
    calc ((10 : ℚ) ^ p) ^ 25 = (10 ^ 25) ^ p := by rw [← zpow_natCast, zpow_comm]; rfl
      _ ≤ (2 ^ 83) ^ p := base
      _ = 2 ^ (83 * p) := by rw [zpow_mul]; rfl
      _ ≤ 2 ^ (n * 25) := zpow_le_zpow_right₀ (by norm_num) (by have := down negative; omega)
      _ = (2 ^ n) ^ 25 := by rw [zpow_mul]; rfl

/-- The power of ten of the last place that is tried is fine enough. -/
theorem last_place_fine (finite : x.isFinite = true) (nonzero : x.isZero = false) :
    (10 : ℚ) ^ (x.placeAbove - 23) ≤ 2 ^ (x.exponent - 2) := by
  have top := exponent_le_of_isFinite finite
  have bottom := x.exponent_ge
  have bits := log2_mantissa_le nonzero
  unfold placeAbove
  apply ten_zpow_le
  · intro _
    omega
  · intro _
    omega

/-- The search for the shortest decimal succeeds: its last place is so fine that the multiple next
to the number rounds to it. -/
theorem exists_readsBack (finite : x.isFinite = true) (nonzero : x.isZero = false)
    (tie : DecimalTie) :
    ∃ d, x.readsBack d = true ∧ x.shortest tie = Decimal.trimZeros d.digits d.exponent := by
  let places := (List.range 24).map fun (i : Nat) => x.placeAbove - i
  cases found : places.findSome? (x.shortestAt tie) with
  | none =>
      have last : x.placeAbove - 23 ∈ places :=
        List.mem_map.mpr ⟨23, List.mem_range.mpr (by decide), rfl⟩
      exact absurd (List.findSome?_eq_none_iff.mp found _ last)
        (shortestAt_ne_none finite nonzero (last_place_fine finite nonzero) tie)
  | some d =>
      obtain ⟨place, -, here⟩ := List.exists_of_findSome?_eq_some found
      refine ⟨d, readsBack_of_shortestAt here, ?_⟩
      simp only [shortest, places] at found ⊢
      rw [found, Option.getD_some]

/-- Every decimal with the value of the shortest one of a number reads back as that number. -/
theorem toNumber_of_value (finite : x.isFinite = true) (nonzero : x.isZero = false)
    {tie : DecimalTie} {d : Decimal} (same : d.value = (x.shortest tie).value) :
    d.toNumber x.isNegative = x := by
  obtain ⟨found, reads, shortest⟩ := exists_readsBack finite nonzero tie
  have value : d.value = found.value := by rw [same, shortest, Decimal.value_trimZeros]
  have magnitude : (nearest false found.value).magnitude = x.magnitude := by
    rw [← Decimal.toNumber_eq_nearest]
    exact beq_iff_eq.mp reads
  rw [Decimal.toNumber_eq_nearest, value, nearest_eq_ofMagnitude, magnitude, ofMagnitude_magnitude]

/-- The digits of a text are those that core reads. -/
theorem digitsValue_eq (cs : List Char) : digitsValue cs = Nat.ofDigitChars 10 cs 0 := rfl

theorem digitsValue_digitChars (d : Decimal) : digitsValue d.digitChars = d.digits :=
  Nat.ofDigitChars_ten_toDigits

theorem digitsValue_zeros_append (n : Nat) (cs : List Char) :
    digitsValue (List.replicate n '0' ++ cs) = digitsValue cs := by
  rw [digitsValue_eq, Nat.ofDigitChars_append, Nat.ofDigitChars_replicate_zero, Nat.mul_zero]
  rfl

theorem digitsValue_append_zeros (cs : List Char) (n : Nat) :
    digitsValue (cs ++ List.replicate n '0') = 10 ^ n * digitsValue cs := by
  rw [digitsValue_eq, Nat.ofDigitChars_append, Nat.ofDigitChars_replicate_zero, ← digitsValue_eq]

theorem isDigit_of_mem_digitChars (d : Decimal) : ∀ c ∈ d.digitChars, c.isDigit = true :=
  fun _ member => Nat.isDigit_of_mem_toDigits (by decide) (by decide) member

private theorem isDigit_of_mem_zeros (n : Nat) : ∀ c ∈ List.replicate n '0', c.isDigit = true := by
  intro c member
  rw [List.eq_of_mem_replicate member]
  rfl

theorem readDecimal?_whole {whole : List Char} (digits : ∀ c ∈ whole, c.isDigit = true)
    (nonempty : whole ≠ []) : readDecimal? whole = some ⟨digitsValue whole, 0⟩ := by
  have taken : whole.takeWhile Char.isDigit = whole := List.takeWhile_eq_self_iff.mpr digits
  have rest : whole.dropWhile Char.isDigit = [] := List.dropWhile_eq_nil_iff.mpr digits
  have filled : whole.isEmpty = false := List.isEmpty_eq_false_iff.mpr nonempty
  simp [readDecimal?, taken, rest, filled, readExponent?]

theorem readDecimal?_point {whole fraction : List Char}
    (digits : ∀ c ∈ whole ++ fraction, c.isDigit = true) (nonempty : whole ≠ []) :
    readDecimal? (whole ++ '.' :: fraction) =
      some ⟨digitsValue (whole ++ fraction), -fraction.length⟩ := by
  have left : ∀ c ∈ whole, c.isDigit = true := fun c member =>
    digits c (List.mem_append_left _ member)
  have right : ∀ c ∈ fraction, c.isDigit = true := fun c member =>
    digits c (List.mem_append_right _ member)
  have taken : (whole ++ '.' :: fraction).takeWhile Char.isDigit = whole := by
    rw [List.takeWhile_append_of_pos left, List.takeWhile_cons_of_neg (by decide), List.append_nil]
  have rest : (whole ++ '.' :: fraction).dropWhile Char.isDigit = '.' :: fraction := by
    rw [List.dropWhile_append_of_pos left, List.dropWhile_cons_of_neg (by decide)]
  have takenRight : fraction.takeWhile Char.isDigit = fraction :=
    List.takeWhile_eq_self_iff.mpr right
  have restRight : fraction.dropWhile Char.isDigit = [] := List.dropWhile_eq_nil_iff.mpr right
  have filled : whole.isEmpty = false := List.isEmpty_eq_false_iff.mpr nonempty
  simp [readDecimal?, taken, rest, takenRight, restRight, filled, readExponent?]

/-- The digits behind the point, with the point. -/
def fractionPart : List Char → List Char
  | [] => []
  | c :: rest => '.' :: c :: rest

theorem fractionPart_of_ne_nil {digits : List Char} (nonempty : digits ≠ []) :
    fractionPart digits = '.' :: digits := by
  cases digits with
  | nil => exact absurd rfl nonempty
  | cons c rest => rfl

/-- What is written without an exponent: digits, and a point with more digits if some are left, of
the value of the decimal. -/
theorem plain_shape (d : Decimal) :
    ∃ whole fraction, whole ≠ [] ∧ (∀ c ∈ whole ++ fraction, c.isDigit = true) ∧
      d.plain = whole ++ fractionPart fraction ∧
      (Decimal.mk (digitsValue (whole ++ fraction)) (-fraction.length)).value = d.value := by
  have digits := isDigit_of_mem_digitChars d
  have length : 0 < d.digitChars.length := Nat.length_toDigits_pos
  have point : d.point = d.digitChars.length + d.exponent := rfl
  unfold Decimal.plain
  simp only
  split
  · rename_i small
    -- a zero, the point, and zeros before the digits
    have shape : ['0'] ++ (List.replicate (-d.point).toNat '0' ++ d.digitChars) =
        List.replicate ((-d.point).toNat + 1) '0' ++ d.digitChars := rfl
    refine ⟨['0'], List.replicate (-d.point).toNat '0' ++ d.digitChars, List.cons_ne_nil _ _,
      ?_, ?_, ?_⟩
    · rw [shape]
      intro c member
      rcases List.mem_append.mp member with first | last
      · exact isDigit_of_mem_zeros _ c first
      · exact digits c last
    · rw [fractionPart_of_ne_nil
        (List.append_ne_nil_of_right_ne_nil _ (List.ne_nil_of_length_pos length))]
      rfl
    · have exponent : (-((List.replicate (-d.point).toNat '0' ++ d.digitChars).length : ℤ)) =
          d.exponent := by
        rw [List.length_append, List.length_replicate]
        omega
      rw [shape, digitsValue_zeros_append, digitsValue_digitChars, exponent]
  · split
    · rename_i whole
      -- the digits, and zeros behind them
      refine ⟨d.digitChars ++ List.replicate d.exponent.toNat '0', [],
        List.append_ne_nil_of_left_ne_nil (List.ne_nil_of_length_pos length) _, ?_,
        (List.append_nil _).symm, ?_⟩
      · rw [List.append_nil]
        intro c member
        rcases List.mem_append.mp member with first | last
        · exact digits c first
        · exact isDigit_of_mem_zeros _ c last
      · have power : (10 : ℚ) ^ d.exponent.toNat = 10 ^ d.exponent := by
          rw [← zpow_natCast, Int.toNat_of_nonneg whole]
        rw [List.append_nil, Decimal.value, Decimal.value, digitsValue_append_zeros,
          digitsValue_digitChars, Nat.cast_mul, Nat.cast_pow, Nat.cast_ofNat, power,
          List.length_nil, Nat.cast_zero, neg_zero, zpow_zero, mul_one, mul_comm]
    · rename_i inside broken
      -- the point among the digits
      have left : (d.digitChars.drop d.point.toNat).length = (-d.exponent).toNat := by
        rw [List.length_drop]
        omega
      refine ⟨d.digitChars.take d.point.toNat, d.digitChars.drop d.point.toNat, ?_, ?_, ?_, ?_⟩
      · apply List.ne_nil_of_length_pos
        rw [List.length_take]
        omega
      · rwa [List.take_append_drop]
      · rw [fractionPart_of_ne_nil (List.ne_nil_of_length_pos (by omega))]
      · rw [List.take_append_drop, digitsValue_digitChars, left,
          show -((-d.exponent).toNat : ℤ) = d.exponent by omega]

/-- A decimal that is written without an exponent is read as a decimal of the same value. -/
theorem readDecimal?_plain (d : Decimal) :
    ∃ read, readDecimal? d.plain = some read ∧ read.value = d.value := by
  obtain ⟨whole, fraction, nonempty, digits, shape, value⟩ := plain_shape d
  rw [shape]
  cases fraction with
  | nil =>
      rw [List.append_nil] at digits value
      refine ⟨_, ?_, value⟩
      rw [fractionPart, List.append_nil]
      exact readDecimal?_whole digits nonempty
  | cons c rest => exact ⟨_, readDecimal?_point digits nonempty, value⟩

/-- The text of a finite number that is not negative: digits, and a point with more digits if there
are some, of a decimal that rounds to the number. -/
theorem text_shape {x : Number} (finite : x.isFinite = true) (positive : x.isNegative = false) :
    ∃ whole fraction, whole ≠ [] ∧ (∀ c ∈ whole ++ fraction, c.isDigit = true) ∧
      x.text.toList = whole ++ fractionPart fraction ∧
      Decimal.toNumber false ⟨digitsValue (whole ++ fraction), -fraction.length⟩ = x := by
  have isNumber : x.isNaN = false := by
    rw [← Bool.not_eq_true, isNaN_iff]
    rw [isFinite_iff] at finite
    omega
  by_cases zero : x.isZero = true
  · refine ⟨['0'], [], List.cons_ne_nil _ _, List.forall_mem_singleton.mpr rfl, ?_, ?_⟩
    · rw [text, isNumber, if_neg Bool.false_ne_true, if_pos zero]
      rfl
    · rw [← ofMagnitude_magnitude x, positive, (isZero_iff x).mp zero]
      rfl
  · rw [Bool.not_eq_true] at zero
    obtain ⟨whole, fraction, nonempty, digits, shape, value⟩ := plain_shape (x.shortest .upward)
    refine ⟨whole, fraction, nonempty, digits, ?_, ?_⟩
    · rw [toList_text finite isNumber zero, positive, if_neg Bool.false_ne_true, List.nil_append,
        shape]
    · exact positive ▸ toNumber_of_value finite zero value

theorem rank_ofMagnitude (negative : Bool) {m : Nat} (small : m ≤ infinityMagnitude) :
    (ofMagnitude negative m).rank = if negative then -(m : ℤ) else m := by
  have fits : m < signUnit := small.trans_lt (by decide)
  have number : (ofMagnitude negative m).isNaN = false := by
    rw [← Bool.not_eq_true, isNaN_iff, magnitude_ofMagnitude negative fits]
    omega
  rw [rank_of_number number, isNegative_ofMagnitude negative fits,
    magnitude_ofMagnitude negative fits]

/-- A decimal begins with a digit or a point. -/
theorem head_of_readDecimal? {cs : List Char} {d : Decimal} (read : readDecimal? cs = some d) :
    ∃ c rest, cs = c :: rest ∧ (c.isDigit = true ∨ c = '.') := by
  cases cs with
  | nil => cases read
  | cons c rest =>
      refine ⟨c, rest, rfl, ?_⟩
      by_contra other
      obtain ⟨notDigit, notPoint⟩ := not_or.mp other
      have taken : (c :: rest).takeWhile Char.isDigit = [] := List.takeWhile_cons_of_neg notDigit
      have left : (c :: rest).dropWhile Char.isDigit = c :: rest :=
        List.dropWhile_cons_of_neg notDigit
      unfold readDecimal? at read
      simp only [taken, left, List.isEmpty_nil, Bool.true_and] at read
      split at read
      · rename_i point
        cases point
        exact absurd rfl notPoint
      · cases read

/-- What begins like a decimal is not the name of a number. -/
private theorem toLower_head {c : Char} (head : c.isDigit = true ∨ c = '.') :
    c.toLower ≠ 'n' ∧ c.toLower ≠ 'i' := by
  rcases head with digit | rfl
  · have same : c.toLower = c := by
      unfold Char.toLower
      rw [dif_neg]
      simp only [Char.isDigit, Bool.and_eq_true, decide_eq_true_eq] at digit
      rintro ⟨upper, -⟩
      exact absurd (UInt32.le_trans upper digit.2) (by decide)
    rw [same]
    constructor
    · rintro rfl
      cases digit
    · rintro rfl
      cases digit
  · decide

theorem read?_of_readDecimal? {cs : List Char} {d : Decimal} (read : readDecimal? cs = some d)
    (negative : Bool) :
    read? (String.ofList ((if negative then ['-'] else []) ++ cs)) =
      some (d.toNumber negative) := by
  obtain ⟨c, rest, rfl, head⟩ := head_of_readDecimal? read
  have split : splitSign ((if negative then ['-'] else []) ++ c :: rest) =
      (negative, c :: rest) := by
    cases negative with
    | true => rfl
    | false =>
        unfold splitSign
        split
        · rename_i minus
          cases minus
          rcases head with digit | point
          · cases digit
          · cases point
        · rename_i plus
          cases plus
          rcases head with digit | point
          · cases digit
          · cases point
        · rfl
  obtain ⟨notN, notI⟩ := toLower_head head
  have notNamed : ∀ d ds, c.toLower ≠ d →
      String.ofList ((c :: rest).map Char.toLower) ≠ String.ofList (d :: ds) := by
    intro d ds differs same
    rw [String.ofList_inj, List.map_cons, List.cons.injEq] at same
    exact differs same.1
  simp only [read?, String.toList_ofList, split]
  rw [if_neg (notNamed 'n' ['a', 'n'] notN), if_neg, read]
  · rfl
  · exact not_or.mpr ⟨notNamed 'i' ['n', 'f'] notI,
      notNamed 'i' ['n', 'f', 'i', 'n', 'i', 't', 'y'] notI⟩

/-- Reading the text of a number gives an equal number. -/
theorem read?_text (x : Number) : ∃ y, read? x.text = some y ∧ y.rank = x.rank := by
  by_cases nan : x.isNaN = true
  · refine ⟨Number.nan, ?_, ?_⟩
    · rw [text, if_pos nan]
      rfl
    · rw [rank_of_isNaN (by decide), rank_of_isNaN nan]
  rw [Bool.not_eq_true] at nan
  by_cases zero : x.isZero = true
  · refine ⟨ofMagnitude false 0, ?_, ?_⟩
    · rw [text, nan, if_neg Bool.false_ne_true, if_pos zero]
      rfl
    · rw [← ofMagnitude_magnitude x, (isZero_iff x).mp zero, rank_ofMagnitude _ (Nat.zero_le _),
        rank_ofMagnitude _ (Nat.zero_le _)]
      cases x.isNegative <;> rfl
  rw [Bool.not_eq_true] at zero
  by_cases finite : x.isFinite = true
  · obtain ⟨d, read, value⟩ := readDecimal?_plain (x.shortest .upward)
    refine ⟨x, ?_, rfl⟩
    rw [← String.ofList_toList (s := x.text), toList_text finite nan zero,
      read?_of_readDecimal? read, toNumber_of_value finite zero value]
  · rw [Bool.not_eq_true] at finite
    refine ⟨infinity x.isNegative, ?_, ?_⟩
    · rw [text_infinite finite nan zero]
      cases x.isNegative <;> rfl
    · rw [infinity, ← magnitude_of_infinite nan finite, ofMagnitude_magnitude]

/-- Equal texts are texts of equal numbers. -/
theorem beq_of_text_eq {x y : Number} (same : x.text = y.text) : (x == y) = true := by
  obtain ⟨read, fromX, rankX⟩ := read?_text x
  obtain ⟨read', fromY, rankY⟩ := read?_text y
  rw [same, fromY, Option.some.injEq] at fromX
  rw [beq_iff_rank_eq, ← rankX, ← rankY, fromX]

end Number

end RecordExpr
