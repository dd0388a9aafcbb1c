import RecordExpr.Value.Text
import RecordExpr.Text.Like

set_option autoImplicit false

namespace RecordExpr

namespace Value

/-- Numbers, strings that read as numbers, and truth values as 0 and 1. -/
def asNumber? : Value → Option Number
  | .number n => some n
  | .string s => Number.parse? s
  | .bool b => some (if b then Number.one else Number.zero)
  | _ => none

/-- The order of two scalars of one kind, or of a number and a string that reads as one. -/
def compare? : Value → Value → Option Ordering
  | .number a, .number b => some (compare a b)
  | .string a, .string b => some (compare a b)
  | .bool a, .bool b => some (compare a b)
  | .number a, .string s => (Number.parse? s).map fun b => compare a b
  | .string s, .number b => (Number.parse? s).map fun a => compare a b
  | _, _ => none

/-- The text of the first value matches the second one, a pattern. -/
def likeText : Value → Value → Bool
  | .null, _ => false
  | v, .string pattern => RecordExpr.like v.text pattern
  | _, _ => false

end Value

namespace Comparison

/-- What an order of two values says about this comparison. -/
def holdsOf : Comparison → Ordering → Bool
  | equal, o => o == .eq
  | notEqual, o => o != .eq
  | less, o => o == .lt
  | lessEqual, o => o != .gt
  | greater, o => o == .gt
  | greaterEqual, o => o != .lt
  | like, _ => false

/-- The comparison holds between two values; never if they are unordered. -/
def holds (relation : Comparison) (a b : Value) : Bool :=
  match relation with
  | like => a.likeText b
  | _ => ((a.compare? b).map relation.holdsOf).getD false

end Comparison

end RecordExpr
