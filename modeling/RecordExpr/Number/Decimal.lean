import RecordExpr.Number.Rounding

set_option autoImplicit false

namespace RecordExpr

/-- `digits * 10 ^ exponent`. -/
structure Decimal where
  digits : Nat
  exponent : Int
deriving DecidableEq, Repr

/-- Which of two equally near and equally short decimals is taken. -/
inductive DecimalTie
  | upward
  | even
deriving DecidableEq

namespace Decimal

/-- `d` as a ratio of naturals. -/
def ratio (d : Decimal) : Nat × Nat :=
  if 0 ≤ d.exponent then (d.digits * Nat.pow 10 d.exponent.toNat, 1)
  else (d.digits, Nat.pow 10 (-d.exponent).toNat)

/-- The number nearest to `± d`. Beyond `10 ^ 400` it is infinite and below `10 ^ -400` zero, which
is decided without writing the power out. -/
def toNumber (negative : Bool) (d : Decimal) : Number :=
  if d.digits = 0 then Number.ofMagnitude negative 0
  else if 400 < d.exponent then Number.infinity negative
  else if d.exponent < -(400 + d.digits.log2 : Int) then Number.ofMagnitude negative 0
  else Number.ofRatio negative d.ratio.1 d.ratio.2

/-- The same decimal without zeros at the end of its digits. -/
def trimZeros (digits : Nat) (exponent : Int) : Decimal :=
  if h : digits ≠ 0 ∧ digits % 10 = 0 then trimZeros (digits / 10) (exponent + 1)
  else ⟨digits, exponent⟩
termination_by digits
decreasing_by omega

end Decimal

namespace Number

/-- `|x| / 10 ^ place` as a ratio of naturals. -/
def inPlaces (x : Number) (place : Int) : Nat × Nat :=
  (x.mantissa * Nat.pow 2 x.exponent.toNat * Nat.pow 10 (-place).toNat,
    Nat.pow 2 (-x.exponent).toNat * Nat.pow 10 place.toNat)

/-- The decimal reads back as the absolute value of `x`. -/
def readsBack (x : Number) (d : Decimal) : Bool :=
  (d.toNumber false).magnitude == x.magnitude

/-- The multiple of `10 ^ place` next to `|x|` that reads back as it, the nearer one of two. -/
def shortestAt (tie : DecimalTie) (x : Number) (place : Int) : Option Decimal :=
  let scaled := x.inPlaces place
  let lower := scaled.1 / scaled.2
  let rest := 2 * (scaled.1 % scaled.2)
  let below : Decimal := ⟨lower, place⟩
  let above : Decimal := ⟨lower + 1, place⟩
  match x.readsBack below, x.readsBack above with
  | false, false => none
  | true, false => some below
  | false, true => some above
  | true, true =>
    if rest < scaled.2 then some below
    else if scaled.2 < rest then some above
    else match tie with
      | .upward => some above
      | .even => if lower % 2 = 0 then some below else some above

/-- A power of ten above `|x|`, at most two places too high. -/
def placeAbove (x : Number) : Int :=
  ((x.mantissa.log2 : Int) + 1 + x.exponent) * 30103 / 100000 + 1

/-- The fewest digits that read back as `|x|`, for a finite number other than zero: places are tried
from the coarse end. Seventeen digits always suffice, so the last entry is never needed. -/
def shortest (tie : DecimalTie) (x : Number) : Decimal :=
  let places := (List.range 24).map fun (i : Nat) => x.placeAbove - i
  let found := (places.findSome? (x.shortestAt tie)).getD ⟨0, 0⟩
  Decimal.trimZeros found.digits found.exponent

end Number

namespace Decimal

/-- The digits as text. -/
def digitChars (d : Decimal) : List Char := Nat.toDigits 10 d.digits

/-- Where the point stands: `d` is `0.digits * 10 ^ point`. -/
def point (d : Decimal) : Int := (d.digitChars.length : Int) + d.exponent

/-- Digits with a point where it belongs, and none after a whole number. -/
def plain (d : Decimal) : List Char :=
  let cs := d.digitChars
  if d.point ≤ 0 then '0' :: '.' :: List.replicate (-d.point).toNat '0' ++ cs
  else if 0 ≤ d.exponent then cs ++ List.replicate d.exponent.toNat '0'
  else cs.take d.point.toNat ++ '.' :: cs.drop d.point.toNat

/-- One digit before the point and a signed exponent. -/
def scientific (d : Decimal) : List Char :=
  let power := d.point - 1
  let lead := match d.digitChars with
    | [] => []
    | [c] => [c]
    | c :: rest => c :: '.' :: rest
  lead ++ 'e' :: (if power < 0 then '-' else '+') :: Nat.toDigits 10 power.natAbs

/-- Plain, and always with a point, for points from -4 to 16; otherwise with an exponent. -/
def compact (d : Decimal) : List Char :=
  if -5 < d.point ∧ d.point ≤ 16 then
    if 0 ≤ d.exponent then d.plain ++ ['.', '0'] else d.plain
  else d.scientific

end Decimal

end RecordExpr
