import RecordExpr.Number.Basic

set_option autoImplicit false

namespace RecordExpr.Number

/-- The whole number nearest to `num / den`; a half goes to the even neighbour. -/
def divHalfEven (num den : Nat) : Nat :=
  let quotient := num / den
  let rest := 2 * (num % den)
  if rest < den then quotient
  else if den < rest then quotient + 1
  else if quotient % 2 = 0 then quotient
  else quotient + 1

/-- The whole number nearest to `num / den`; a half goes up. -/
def divHalfUp (num den : Nat) : Nat := (2 * num + den) / (2 * den)

/-- `num / den` counted in units of `2 ^ unit`, as a ratio. -/
def inUnits (num den : Nat) (unit : Int) : Nat × Nat :=
  if 0 ≤ unit then (num, den * Nat.pow 2 unit.toNat) else (num * Nat.pow 2 (-unit).toNat, den)

/-- The exponent of the last mantissa bit of the number nearest to `num / den`. It is never below
-1074, and above that it leaves 53 bits before the point. -/
def unitOf (num den : Nat) : Int :=
  let coarse := max ((num.log2 : Int) - den.log2 - 53) (-1074)
  let scaled := inUnits num den coarse
  if 2 * normalMantissa ≤ scaled.1 / scaled.2 then coarse + 1 else coarse

/-- The number nearest to `± num / den`, infinite when that is too large. The bits of a mantissa
that rounds up to 54 digits carry into the exponent by themselves. -/
def ofRatio (negative : Bool) (num den : Nat) : Number :=
  if num = 0 then ofMagnitude negative 0
  else
    let unit := unitOf num den
    let scaled := inUnits num den unit
    let magnitude := (unit + 1074).toNat * normalMantissa + divHalfEven scaled.1 scaled.2
    ofMagnitude negative (min magnitude infinityMagnitude)

def ofNat (n : Nat) : Number := ofRatio false n 1

def ofInt (n : Int) : Number := ofRatio (decide (n < 0)) n.natAbs 1

/-- The number nearest to `± mantissa * 2 ^ exponent`. -/
def ofScaled (negative : Bool) (mantissa : Nat) (exponent : Int) : Number :=
  if 0 ≤ exponent then ofRatio negative (mantissa * Nat.pow 2 exponent.toNat) 1
  else ofRatio negative mantissa (Nat.pow 2 (-exponent).toNat)

/-- What is left of `x` after whole multiples of `y`, with the sign of `x`. It is exact: the two are
brought to one unit and divided as naturals. -/
def remainder (x y : Number) : Number :=
  if !x.isFinite || y.isNaN || y.isZero then nan
  else if !y.isFinite then x
  else
    let unit := min x.exponent y.exponent
    let whole (z : Number) := z.mantissa * Nat.pow 2 (z.exponent - unit).toNat
    ofScaled x.isNegative (whole x % whole y) unit

instance : Mod Number := ⟨remainder⟩

/-- The nearest whole number, a half going away from zero. -/
def roundWhole (x : Number) : Number :=
  if !x.isFinite || decide (0 ≤ x.exponent) then x
  else ofRatio x.isNegative (divHalfUp x.mantissa (Nat.pow 2 (-x.exponent).toNat)) 1

/-- `acc * base ^ n` by repeated squaring, each product rounded. -/
def powerStep (n : Nat) (base acc : Number) : Number :=
  let acc := if n % 2 = 1 then acc * base else acc
  if _h : n / 2 = 0 then acc else powerStep (n / 2) (base * base) acc
termination_by n
decreasing_by omega

/-- The power of ten by repeated squaring; a negative power is one divided by the positive one. -/
def powerOfTen (n : Int) : Number :=
  let power := powerStep n.natAbs (ofNat 10) one
  if n < 0 then one / power else power

/-- Rounds to this many decimal places, a half going away from zero: scale, round, scale back. -/
def roundTo (digits : Int) (x : Number) : Number :=
  let factor := powerOfTen digits
  (x * factor).roundWhole / factor

end RecordExpr.Number
