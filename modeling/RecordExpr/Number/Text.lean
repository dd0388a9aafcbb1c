import RecordExpr.Number.Decimal
import RecordExpr.Text.Blank

set_option autoImplicit false

namespace RecordExpr.Number

private def signed (x : Number) (digits : List Char) : String :=
  String.ofList (if x.isNegative then '-' :: digits else digits)

/-- The shortest text that reads back, without an exponent. Both zeros are written alike, since they
are equal. -/
def text (x : Number) : String :=
  if x.isNaN then "NaN"
  else if x.isZero then "0"
  else if x.isFinite then x.signed (x.shortest .upward).plain
  else x.signed "inf".toList

/-- The text of a finite number other than zero: a sign if it is negative, and its digits. -/
theorem toList_text {x : Number} (finite : x.isFinite = true) (number : x.isNaN = false)
    (nonzero : x.isZero = false) :
    x.text.toList = (if x.isNegative then ['-'] else []) ++ (x.shortest .upward).plain := by
  simp only [text, number, nonzero, finite, signed, Bool.false_eq_true, if_false, if_true,
    String.toList_ofList]
  split <;> rfl

/-- The text of an infinity. -/
theorem text_infinite {x : Number} (infinite : x.isFinite = false) (number : x.isNaN = false)
    (nonzero : x.isZero = false) : x.text = if x.isNegative then "-inf" else "inf" := by
  simp only [text, number, nonzero, infinite, signed, Bool.false_eq_true, if_false]
  split <;> rfl

/-- The text of a finite number that has a fraction or is too large for a 64-bit integer. -/
def compactText (x : Number) : String :=
  x.signed (x.shortest .even).compact

/-- The value of a run of digits. -/
def digitsValue (cs : List Char) : Nat :=
  cs.foldl (fun n c => 10 * n + (c.toNat - '0'.toNat)) 0

/-- A sign before the rest of the text; none counts as positive. -/
def splitSign : List Char → Bool × List Char
  | '-' :: rest => (true, rest)
  | '+' :: rest => (false, rest)
  | cs => (false, cs)

/-- The exponent that ends a number: `e` or `E`, a sign if any, and at least one digit. -/
def readExponent? : List Char → Option Int
  | [] => some 0
  | c :: rest =>
    let (negative, digits) := splitSign rest
    if (c == 'e' || c == 'E') && !digits.isEmpty && digits.all Char.isDigit then
      some (if negative then -(digitsValue digits : Int) else digitsValue digits)
    else none

/-- Digits, with or without a point, of which there is at least one, and an exponent. -/
def readDecimal? (cs : List Char) : Option Decimal :=
  let whole := cs.takeWhile Char.isDigit
  let afterWhole := cs.dropWhile Char.isDigit
  let fraction := match afterWhole with
    | '.' :: rest => rest.takeWhile Char.isDigit
    | _ => []
  let tail := match afterWhole with
    | '.' :: rest => rest.dropWhile Char.isDigit
    | _ => afterWhole
  if whole.isEmpty && fraction.isEmpty then none
  else (readExponent? tail).map fun power =>
    ⟨digitsValue (whole ++ fraction), power - fraction.length⟩

/-- Reads a number, rounding to the nearest one. The names of the infinities and of NaN may be in
any letter case. -/
def read? (s : String) : Option Number :=
  let (negative, rest) := splitSign s.toList
  let name := String.ofList (rest.map Char.toLower)
  if name = "nan" then some nan
  else if name = "inf" ∨ name = "infinity" then some (infinity negative)
  else (readDecimal? rest).map (Decimal.toNumber negative)

/-- Reads attribute text such as `" 42 "`: a finite number, with or without blanks around it. -/
def parse? (s : String) : Option Number :=
  (read? (Text.trim s)).filter isFinite

end RecordExpr.Number
