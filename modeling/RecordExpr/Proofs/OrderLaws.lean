import RecordExpr.Proofs.EqualValues
import RecordExpr.Proofs.NearestNumber
import RecordExpr.Value.Order

set_option autoImplicit false

namespace RecordExpr

namespace Number

variable {x y : Number} {v w : WithBot (WithTop ℚ)}

theorem size_of_isZero (zero : x.isZero = true) : x.size = 0 := by
  have none : x.mantissa = 0 := by
    rw [mantissa, (isZero_iff x).mp zero]
    rfl
  rw [size, none, Nat.cast_zero, zero_mul]

theorem size_nonneg (x : Number) : 0 ≤ x.size := by
  unfold size
  positivity

theorem size_pos (nonzero : x.isZero = false) : 0 < x.size := by
  have := mantissa_pos nonzero
  unfold size
  positivity

/-- The size grows with the magnitude: a larger exponent outweighs every mantissa. -/
theorem size_lt_of_magnitude_lt (less : x.magnitude < y.magnitude) : x.size < y.size := by
  have order : x.exponent < y.exponent ∨ x.exponent = y.exponent ∧ x.mantissa < y.mantissa := by
    rw [magnitude_eq, magnitude_eq] at less
    have smaller := mantissa_lt y
    have leading := normal_or_bottom x
    have bottom := exponent_ge x
    have bottom' := exponent_ge y
    unfold normalMantissa at *
    omega
  rcases order with lower | ⟨same, smaller⟩
  · have leading : normalMantissa ≤ y.mantissa :=
      y.normal_or_bottom.resolve_right (by have := exponent_ge x; omega)
    have mantissa : (x.mantissa : ℚ) < 2 * normalMantissa := by exact_mod_cast mantissa_lt x
    calc x.size
        < 2 * normalMantissa * 2 ^ x.exponent := mul_lt_mul_of_pos_right mantissa (by positivity)
      _ = normalMantissa * 2 ^ (x.exponent + 1) := by
          rw [zpow_add_one₀ two_ne_zero]
          ring
      _ ≤ normalMantissa * 2 ^ y.exponent := by
          gcongr
          · norm_num
          · omega
      _ ≤ y.size := by
          unfold size
          gcongr
  · unfold size
    rw [same]
    gcongr

/-- The value of a finite number. -/
def toRat (x : Number) : ℚ := if x.isNegative then -x.size else x.size

/-- What a number stands for, the infinities being below and above all others. A NaN stands for
nothing. -/
def value? (x : Number) : Option (WithBot (WithTop ℚ)) :=
  if x.isNaN then none
  else if x.isFinite then some (x.toRat : WithTop ℚ)
  else some (if x.isNegative then ⊥ else ⊤)

/-- The usual order of what two numbers stand for, in which NaNs have no place. -/
def usualOrder? (x y : Number) : Option Ordering := Option.map₂ cmp x.value? y.value?

theorem rank_of_isZero (zero : x.isZero = true) : x.rank = 0 := by
  rw [rank_of_number (isNaN_of_isZero zero), (isZero_iff x).mp zero, Nat.cast_zero, neg_zero,
    ite_self]

theorem toRat_lt_of_rank_lt (number : x.isNaN = false) (number' : y.isNaN = false)
    (less : x.rank < y.rank) : x.toRat < y.toRat := by
  rw [rank_of_number number, rank_of_number number'] at less
  unfold toRat
  cases sign : x.isNegative <;> cases sign' : y.isNegative <;>
    simp only [sign, sign', Bool.false_eq_true, if_false, if_true] at less ⊢
  · exact size_lt_of_magnitude_lt (by omega)
  · omega
  · -- not both of them are zero
    cases zero : y.isZero with
    | false => linarith [size_nonneg x, size_pos zero]
    | true =>
        have nonzero : x.isZero = false := by
          rw [isZero_iff] at zero
          exact beq_eq_false_iff_ne.mpr (by omega)
        linarith [size_nonneg y, size_pos nonzero]
  · exact neg_lt_neg (size_lt_of_magnitude_lt (by omega))

/-- What stands for something is a finite number or an infinity, and these are at the ends. -/
theorem value?_cases (stands : x.value? = some v) :
    x.isNaN = false ∧
      (-(infinityMagnitude : ℤ) < x.rank ∧ x.rank < infinityMagnitude ∧
          v = (x.toRat : WithTop ℚ) ∨
        x.rank = infinityMagnitude ∧ v = ⊤ ∨
        x.rank = -(infinityMagnitude : ℤ) ∧ v = ⊥) := by
  unfold value? at stands
  cases number : x.isNaN with
  | true =>
      rw [number] at stands
      cases stands
  | false =>
      refine ⟨rfl, ?_⟩
      rw [rank_of_number number]
      cases finite : x.isFinite with
      | true =>
          rw [number, finite] at stands
          have bounded := (isFinite_iff x).mp finite
          refine .inl ⟨?_, ?_, (Option.some.inj stands).symm⟩
          · split <;> omega
          · split <;> omega
      | false =>
          rw [number, finite] at stands
          rw [magnitude_of_infinite number finite]
          cases sign : x.isNegative with
          | false =>
              rw [sign] at stands
              exact .inr (.inl ⟨rfl, (Option.some.inj stands).symm⟩)
          | true =>
              rw [sign] at stands
              exact .inr (.inr ⟨rfl, (Option.some.inj stands).symm⟩)

/-- The ranks of infinities are outside of those of finite numbers. -/
theorem value_lt_of_rank_lt (stands : x.value? = some v) (stands' : y.value? = some w)
    (less : x.rank < y.rank) : v < w := by
  obtain ⟨number, kind⟩ := value?_cases stands
  obtain ⟨number', kind'⟩ := value?_cases stands'
  rcases kind with ⟨lower, upper, rfl⟩ | ⟨top, rfl⟩ | ⟨bottom, rfl⟩
  · rcases kind' with ⟨-, -, rfl⟩ | ⟨-, rfl⟩ | ⟨bottom, -⟩
    · have values := toRat_lt_of_rank_lt number number' less
      exact WithBot.coe_lt_coe.mpr (WithTop.coe_lt_coe.mpr values)
    · exact WithBot.coe_lt_coe.mpr (WithTop.coe_lt_top _)
    · omega
  · rcases kind' with ⟨-, upper, -⟩ | ⟨top', -⟩ | ⟨bottom, -⟩
    · omega
    · omega
    · omega
  · rcases kind' with ⟨-, -, rfl⟩ | ⟨-, rfl⟩ | ⟨bottom', -⟩
    · exact WithBot.bot_lt_coe _
    · exact WithBot.bot_lt_coe _
    · omega

theorem exists_value (number : x.isNaN = false) : ∃ v, x.value? = some v := by
  rw [value?, number, if_neg Bool.false_ne_true]
  split
  · exact ⟨_, rfl⟩
  · exact ⟨_, rfl⟩

theorem value?_of_isNaN (nan : x.isNaN = true) : x.value? = none := by
  rw [value?, nan]
  rfl

theorem value?_of_isZero (zero : x.isZero = true) : x.value? = some ((0 : ℚ) : WithTop ℚ) := by
  have finite : x.isFinite = true := by
    rw [isFinite_iff, (isZero_iff x).mp zero]
    decide
  have value : x.toRat = 0 := by
    rw [toRat, size_of_isZero zero, neg_zero, ite_self]
  rw [value?, isNaN_of_isZero zero, finite, value]
  rfl

/-- Equal numbers stand for the same. -/
theorem value?_eq_of_beq (equal : (x == y) = true) : x.value? = y.value? := by
  rcases cases_of_beq equal with rfl | ⟨zero, zero'⟩ | ⟨nan, nan'⟩
  · rfl
  · rw [value?_of_isZero zero, value?_of_isZero zero']
  · rw [value?_of_isNaN nan, value?_of_isNaN nan']

/-- Numbers that stand for something are in the order of what they stand for. -/
theorem compare_eq_cmp (stands : x.value? = some v) (stands' : y.value? = some w) :
    compare x y = cmp v w := by
  rw [compare_eq]
  rcases Int.lt_trichotomy x.rank y.rank with less | same | more
  · have values : v < w := value_lt_of_rank_lt stands stands' less
    rw [compare_lt_iff_lt.mpr less, (cmp_eq_lt_iff v w).mpr values]
  · have values := value?_eq_of_beq ((beq_iff_rank_eq x y).mpr same)
    have equal : v = w := Option.some.inj (stands.symm.trans (values.trans stands'))
    rw [compare_eq_iff_eq.mpr same, (cmp_eq_eq_iff v w).mpr equal]
  · have values : w < v := value_lt_of_rank_lt stands' stands more
    rw [compare_gt_iff_gt.mpr more, (cmp_eq_gt_iff v w).mpr values]

theorem compare_swap (x y : Number) : compare y x = (compare x y).swap :=
  (Int.compare_swap x.rank y.rank).symm

theorem compare_of_isNaN (nan : y.isNaN = true) :
    compare x y = if x.isNaN then .eq else .lt := by
  rw [compare_eq, rank_of_isNaN nan]
  cases number : x.isNaN with
  | true => exact compare_eq_iff_eq.mpr (rank_of_isNaN number)
  | false => exact compare_lt_iff_lt.mpr (rank_lt_of_number number)

/-- The order is the usual one. Where this has no place for a number, only NaNs count: they come
last. -/
theorem compare_eq_usual (x y : Number) :
    compare x y = (x.usualOrder? y).getD (compare x.isNaN y.isNaN) := by
  cases nan' : y.isNaN with
  | true =>
      rw [usualOrder?, value?_of_isNaN nan', Option.map₂_none_right, compare_of_isNaN nan']
      cases x.isNaN <;> rfl
  | false =>
      cases nan : x.isNaN with
      | true =>
          rw [usualOrder?, value?_of_isNaN nan, Option.map₂_none_left, compare_swap y x,
            compare_of_isNaN nan, nan']
          rfl
      | false =>
          obtain ⟨v, stands⟩ := exists_value nan
          obtain ⟨w, stands'⟩ := exists_value nan'
          rw [usualOrder?, stands, stands', compare_eq_cmp stands stands']
          rfl

theorem compare_ne_gt_iff : compare x y ≠ .gt ↔ x.rank ≤ y.rank := by
  rw [compare_eq]
  exact compare_le_iff_le

/-- The order takes zeros for one number, and NaNs, and no others. -/
theorem beq_iff_cases : (x == y) = true ↔
    x = y ∨ (x.isZero = true ∧ y.isZero = true) ∨ (x.isNaN = true ∧ y.isNaN = true) := by
  refine ⟨cases_of_beq, ?_⟩
  rw [beq_iff_rank_eq]
  rintro (rfl | ⟨zero, zero'⟩ | ⟨nan, nan'⟩)
  · rfl
  · rw [rank_of_isZero zero, rank_of_isZero zero']
  · rw [rank_of_isNaN nan, rank_of_isNaN nan']

/-- What the order says of three numbers. -/
structure Ordered (x y z : Number) : Prop where
  usual : compare x y = (x.usualOrder? y).getD (compare x.isNaN y.isNaN)
  refl : compare x x = .eq
  antisymm : compare x y ≠ .gt → compare y x ≠ .gt → (x == y) = true
  trans : compare x y ≠ .gt → compare y z ≠ .gt → compare x z ≠ .gt
  total : compare x y ≠ .gt ∨ compare y x ≠ .gt
  swap : compare y x = (compare x y).swap
  equal : (x == y) = true ↔ compare x y = .eq
  identified : compare x y = .eq ↔
    x = y ∨ (x.isZero = true ∧ y.isZero = true) ∨ (x.isNaN = true ∧ y.isNaN = true)
  nanLast : y.isNaN = true → compare x y = if x.isNaN then .eq else .lt

theorem ordered (x y z : Number) : Ordered x y z := by
  have equal : (x == y) = true ↔ compare x y = .eq := by
    rw [beq_iff_rank_eq, compare_eq, compare_eq_iff_eq]
  refine ⟨compare_eq_usual x y, ?_, ?_, ?_, ?_, compare_swap x y, equal,
    equal.symm.trans beq_iff_cases, compare_of_isNaN⟩
  · rw [compare_eq, compare_eq_iff_eq]
  · rw [compare_ne_gt_iff, compare_ne_gt_iff, beq_iff_rank_eq]
    exact Int.le_antisymm
  · rw [compare_ne_gt_iff, compare_ne_gt_iff, compare_ne_gt_iff]
    exact Int.le_trans
  · rw [compare_ne_gt_iff, compare_ne_gt_iff]
    exact Int.le_total x.rank y.rank

end Number

namespace Value

theorem map_eq_map_swap {f g : Number → Ordering} (reversed : ∀ x, g x = (f x).swap)
    (number : Option Number) : number.map g = (number.map f).map Ordering.swap := by
  cases number with
  | none => rfl
  | some x => exact congrArg some (reversed x)

/-- Values compare from either side, and in reverse. -/
theorem compare?_swap (a b : Value) : b.compare? a = (a.compare? b).map Ordering.swap := by
  cases a with
  | number x =>
      cases b with
      | number y => exact congrArg some (Number.compare_swap x y)
      | string s => exact map_eq_map_swap (Number.compare_swap x) (Number.parse? s)
      | _ => rfl
  | string s =>
      cases b with
      | string t => exact congrArg some Std.OrientedOrd.eq_swap
      | number y => exact map_eq_map_swap (fun x => Number.compare_swap x y) (Number.parse? s)
      | _ => rfl
  | bool p =>
      cases b with
      | bool q => exact congrArg some Std.OrientedOrd.eq_swap
      | _ => rfl
  | _ => cases b <;> rfl

end Value

namespace Comparison

variable {a b : Value} {relation other : Comparison} {o : Ordering}

/-- The comparison that says the same of the two values exchanged. -/
def mirrored : Comparison → Comparison
  | less => greater
  | lessEqual => greaterEqual
  | greater => less
  | greaterEqual => lessEqual
  | relation => relation

/-- The comparisons that ask for one order of the values and no other. -/
def basic : List Comparison := [less, equal, greater]

/-- The comparison that asks for this order. -/
def ofOrdering : Ordering → Comparison
  | .lt => less
  | .eq => equal
  | .gt => greater

theorem basic_and_holdsOf_iff :
    relation ∈ basic ∧ relation.holdsOf o = true ↔ relation = ofOrdering o := by
  cases relation <;> cases o <;> decide

theorem holdsOf_mirrored (relation : Comparison) (o : Ordering) :
    relation.mirrored.holdsOf o.swap = relation.holdsOf o := by
  cases relation <;> cases o <;> rfl

theorem mirrored_ne_like : relation ≠ like → relation.mirrored ≠ like := by
  cases relation <;> decide

theorem ne_like_of_basic : relation ∈ basic → relation ≠ like := by
  cases relation <;> decide

/-- Every comparison but the one with a pattern looks at nothing but the order of the values. -/
theorem holds_of_ne_like (ordering : relation ≠ like) (a b : Value) :
    relation.holds a b = ((a.compare? b).map relation.holdsOf).getD false := by
  cases relation with
  | like => exact absurd rfl ordering
  | _ => rfl

theorem holds_mirrored (ordering : relation ≠ like) (a b : Value) :
    relation.holds a b = relation.mirrored.holds b a := by
  rw [holds_of_ne_like ordering, holds_of_ne_like (mirrored_ne_like ordering), a.compare?_swap b,
    Option.map_map]
  congr 2
  funext o
  exact (relation.holdsOf_mirrored o).symm

/-- One of these holds if the values are in the order that it asks for. -/
theorem basic_and_holds_iff :
    relation ∈ basic ∧ relation.holds a b = true ↔
      ∃ o, a.compare? b = some o ∧ relation = ofOrdering o := by
  constructor
  · rintro ⟨among, holds⟩
    rw [holds_of_ne_like (ne_like_of_basic among)] at holds
    cases compared : a.compare? b with
    | none =>
        rw [compared] at holds
        cases holds
    | some o =>
        rw [compared] at holds
        exact ⟨o, rfl, basic_and_holdsOf_iff.mp ⟨among, holds⟩⟩
  · rintro ⟨o, compared, asks⟩
    obtain ⟨among, holds⟩ := basic_and_holdsOf_iff.mpr asks
    rw [holds_of_ne_like (ne_like_of_basic among), compared]
    exact ⟨among, holds⟩

/-- No two of these hold of the same values. -/
theorem eq_of_basic (among : relation ∈ basic) (among' : other ∈ basic)
    (holds : relation.holds a b = true) (holds' : other.holds a b = true) : relation = other := by
  obtain ⟨o, compared, rfl⟩ := basic_and_holds_iff.mp ⟨among, holds⟩
  obtain ⟨p, compared', rfl⟩ := basic_and_holds_iff.mp ⟨among', holds'⟩
  rw [Option.some.inj (compared.symm.trans compared')]

/-- What the comparisons say of two values, and of the same exchanged. -/
structure Consistent (a b : Value) : Prop where
  swap : b.compare? a = (a.compare? b).map Ordering.swap
  /-- No two of `<`, `=` and `>` hold. -/
  exclusive : ∀ relation ∈ basic, ∀ other ∈ basic,
    relation.holds a b = true → other.holds a b = true → relation = other
  /-- One of them holds if the values have an order. -/
  decided : (a.compare? b).isSome = true →
    ∃! relation, relation ∈ basic ∧ relation.holds a b = true
  undecided : a.compare? b = none → ∀ relation, relation ≠ like → relation.holds a b = false
  mirrored : ∀ relation, relation ≠ like → relation.holds a b = relation.mirrored.holds b a

theorem consistent (a b : Value) : Consistent a b := by
  refine ⟨a.compare?_swap b, ?_, ?_, ?_, ?_⟩
  · intro relation among other among' holds holds'
    exact eq_of_basic among among' holds holds'
  · intro comparable
    obtain ⟨o, compared⟩ := Option.isSome_iff_exists.mp comparable
    obtain ⟨among, holds⟩ := basic_and_holds_iff.mpr ⟨o, compared, rfl⟩
    refine ⟨ofOrdering o, ⟨among, holds⟩, ?_⟩
    rintro other ⟨among', holds'⟩
    exact eq_of_basic among' among holds' holds
  · intro unordered relation ordering
    rw [holds_of_ne_like ordering, unordered]
    rfl
  · intro relation ordering
    exact holds_mirrored ordering a b

end Comparison

/-- Numbers are in the order of what they stand for, which is total up to equality and has NaNs at
its end; and comparisons of values are consistent, from whichever side the values are compared. -/
theorem orders_lawful :
    (∀ x y z : Number, Number.Ordered x y z) ∧ ∀ a b : Value, Comparison.Consistent a b :=
  ⟨Number.ordered, Comparison.consistent⟩

/-- A string that reads as 42 is above 7 from either side, and one that reads as no number is not
even unequal to it. A NaN is above 7, and zero, which is not above 7, is not above it either. -/
theorem texts_and_seven_ordered :
    Comparison.less.holds (.number (.ofNat 7)) (.string " 42 ") = true ∧
      Comparison.greater.holds (.string " 42 ") (.number (.ofNat 7)) = true ∧
      Comparison.equal.holds (.string " 42 ") (.number (.ofNat 7)) = false ∧
      Comparison.notEqual.holds (.string "lot") (.number (.ofNat 7)) = false ∧
      compare (Number.ofNat 7) .nan = .lt ∧ compare Number.zero .nan ≠ .gt := by
  obtain ⟨numbers, values⟩ := orders_lawful
  have below : Comparison.less.holds (.number (.ofNat 7)) (.string " 42 ") = true := by
    decide +kernel
  have above : Comparison.greater.holds (.string " 42 ") (.number (.ofNat 7)) = true := by
    rw [← below]
    exact ((values _ _).mirrored .less nofun).symm
  have last : compare (Number.ofNat 7) .nan = .lt :=
    (numbers (.ofNat 7) .nan .zero).nanLast (by decide)
  refine ⟨below, above, ?_, ?_, last, ?_⟩
  · rw [← Bool.not_eq_true]
    intro equal
    have same := (values _ _).exclusive .equal (by decide) .greater (by decide) equal above
    cases same
  · exact (values _ _).undecided (by decide +kernel) .notEqual nofun
  · exact (numbers .zero (.ofNat 7) .nan).trans (by decide) (by rw [last]; nofun)

end RecordExpr
