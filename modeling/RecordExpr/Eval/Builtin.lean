import RecordExpr.Value.Order
import RecordExpr.Text.Casing

set_option autoImplicit false

namespace RecordExpr

/-- How many arguments a function takes. -/
inductive Arity where
  | exactly (n : Nat)
  | between (low high : Nat)
  | atLeast (n : Nat)
deriving DecidableEq, Repr

namespace Arity

def accepts : Arity → Nat → Bool
  | exactly n, given => given == n
  | between low high, given => decide (low ≤ given) && decide (given ≤ high)
  | atLeast n, given => decide (n ≤ given)

/-- The count that is named when a call has the wrong number of arguments. -/
def expected : Arity → Nat
  | exactly n => n
  | between _ high => high
  | atLeast n => n

end Arity

inductive Builtin where
  | coalesce
  | concat
  | upper
  | lower
  | length
  | abs
  | round
  | toNumber
  | toText
deriving DecidableEq, Repr

namespace Builtin

/-- The function of this name, which is in lower case. -/
def named? : String → Option Builtin
  | "coalesce" => some coalesce
  | "concat" => some concat
  | "upper" => some upper
  | "lower" => some lower
  | "length" => some length
  | "abs" => some abs
  | "round" => some round
  | "to_number" => some toNumber
  | "to_string" => some toText
  | _ => none

def arity : Builtin → Arity
  | coalesce | concat => .atLeast 1
  | round => .between 1 2
  | upper | lower | length | abs | toNumber | toText => .exactly 1

/-- No function fails: for an argument of a kind that it is not made for it gives null. -/
def apply : Builtin → List Value → Value
  | coalesce, args => (args.find? fun v => !v.isNull).getD .null
  | concat, args =>
    .string (joinTexts "" ((args.filter fun v => !v.isNull).map Value.text))
  | upper, [.string s] => .string (Text.uppercase s)
  | lower, [.string s] => .string (Text.lowercase s)
  | length, [.string s] => .ofNat s.toList.length
  | length, [.array items] => .ofNat items.length
  | abs, [.number n] => .number n.abs
  | round, [.number n] => .number (n.roundTo 0)
  | round, [.number n, .number digits] => .number (n.roundTo digits.toInt32Clamped)
  | toNumber, [v] => ((v.asNumber?).map Value.number).getD .null
  | toText, [.null] => .null
  | toText, [v] => .string v.text
  | _, _ => .null

end Builtin

end RecordExpr
