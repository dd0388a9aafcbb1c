set_option autoImplicit false

namespace RecordExpr

/-- An IEEE double by its bits: a sign, and below it a magnitude that orders the absolute values. -/
structure Number where
  bits : UInt64
deriving DecidableEq, Inhabited

namespace Number

/-- What the sign bit adds to the bits: two to the power of 63. -/
def signUnit : Nat := 0x8000000000000000

/-- The mantissas of normal numbers start here, at two to the power of 52. -/
def normalMantissa : Nat := 0x10000000000000

/-- The magnitude of the infinities; every larger magnitude is a NaN. -/
def infinityMagnitude : Nat := 2047 * normalMantissa

/-- The number with this sign and this magnitude, which has to fit 63 bits. -/
def ofMagnitude (negative : Bool) (magnitude : Nat) : Number :=
  ⟨UInt64.ofNat (magnitude + if negative then signUnit else 0)⟩

def zero : Number := ⟨0⟩

def one : Number := ⟨0x3FF0000000000000⟩

def nan : Number := ⟨0x7FF8000000000000⟩

def infinity (negative : Bool) : Number := ofMagnitude negative infinityMagnitude

/-- The sign bit is set, which is also so for the negative zero and for some NaNs. -/
def isNegative (x : Number) : Bool := decide (signUnit ≤ x.bits.toNat)

def magnitude (x : Number) : Nat := x.bits.toNat % signUnit

def isNaN (x : Number) : Bool := decide (infinityMagnitude < x.magnitude)

def isFinite (x : Number) : Bool := decide (x.magnitude < infinityMagnitude)

/-- Either of the two zeros. -/
def isZero (x : Number) : Bool := x.magnitude == 0

/-- Zeros and NaNs do not count as true. -/
def isTruthy (x : Number) : Bool := !x.isZero && !x.isNaN

/-- The magnitude of a number below the normal ones is its mantissa; of the others it holds the
lower 52 bits of it. -/
def mantissa (x : Number) : Nat :=
  if x.magnitude < normalMantissa then x.magnitude
  else normalMantissa + x.magnitude % normalMantissa

/-- A finite number is `± mantissa * 2 ^ exponent`. -/
def exponent (x : Number) : Int :=
  if x.magnitude < normalMantissa then -1074 else (x.magnitude / normalMantissa : Nat) - 1075

def abs (x : Number) : Number := ofMagnitude false x.magnitude

def neg (x : Number) : Number := ofMagnitude (!x.isNegative) x.magnitude

def toFloat (x : Number) : Float := Float.ofBits x.bits

def ofFloat (f : Float) : Number := ⟨f.toBits⟩

instance : Neg Number := ⟨neg⟩
instance : Add Number := ⟨fun x y => ofFloat (x.toFloat + y.toFloat)⟩
instance : Sub Number := ⟨fun x y => ofFloat (x.toFloat - y.toFloat)⟩
instance : Mul Number := ⟨fun x y => ofFloat (x.toFloat * y.toFloat)⟩
instance : Div Number := ⟨fun x y => ofFloat (x.toFloat / y.toFloat)⟩

/-- The place of a number in the order that all comparisons go by: both zeros at 0, and all NaNs
above infinity. -/
def rank (x : Number) : Int :=
  if x.isNaN then signUnit
  else if x.isNegative then -(x.magnitude : Int)
  else x.magnitude

instance : BEq Number := ⟨fun x y => x.rank == y.rank⟩

instance : Ord Number := ⟨fun x y => compare x.rank y.rank⟩

theorem beq_iff_rank_eq (x y : Number) : (x == y) = true ↔ x.rank = y.rank := by
  change (x.rank == y.rank) = true ↔ _
  exact beq_iff_eq

theorem compare_eq (x y : Number) : compare x y = compare x.rank y.rank := rfl

/-- The absolute value without its fraction, for a finite number. -/
def wholePart (x : Number) : Nat :=
  if 0 ≤ x.exponent then x.mantissa * Nat.pow 2 x.exponent.toNat
  else x.mantissa / Nat.pow 2 (-x.exponent).toNat

/-- A finite number without fraction. -/
def isIntegral (x : Number) : Bool :=
  x.isFinite && (decide (0 ≤ x.exponent) || x.mantissa % Nat.pow 2 (-x.exponent).toNat == 0)

/-- The integer that a finite number becomes when its fraction is cut off. -/
def truncate (x : Number) : Int :=
  if x.isNegative then -(x.wholePart : Int) else x.wholePart

/-- The number as a signed 64-bit integer, if it is one. -/
def integer? (x : Number) : Option Int :=
  if x.isIntegral && decide (-(signUnit : Int) ≤ x.truncate) && decide (x.truncate < signUnit) then
    some x.truncate
  else none

/-- Cut off to a signed 32-bit integer: values beyond its ends go to the nearer end, NaN to 0. -/
def toInt32Clamped (x : Number) : Int :=
  if x.isNaN then 0
  else if x.isFinite then max (-0x80000000) (min 0x7FFFFFFF x.truncate)
  else if x.isNegative then -0x80000000
  else 0x7FFFFFFF

end Number

end RecordExpr
