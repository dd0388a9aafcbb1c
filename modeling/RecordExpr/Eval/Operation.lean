import RecordExpr.Syntax.Operator
import RecordExpr.Value.Filter

set_option autoImplicit false

namespace RecordExpr

/-- How an expression is read: as a value, or as a filter, in which comparisons with a field on
their left stand for themselves. -/
inductive Mode where
  | value
  | filter
deriving DecidableEq, Repr

namespace Value

def negate : Value → Value
  | .number n => .number (-n)
  | _ => .null

def not (mode : Mode) : Value → Value
  | .filter f => if mode = .filter then .filter (.negation f) else .bool false
  | .null => .null
  | v => .bool (!v.isTruthy)

/-- Two filters are combined; where only one operand is a filter, the other one decides. -/
def and : Value → Value → Value
  | .filter f, .filter g => .filter (f.and g)
  | .filter f, v => if v.isTruthy then .filter f else .bool false
  | v, .filter f => if v.isTruthy then .filter f else .bool false
  | v, w => .bool (v.isTruthy && w.isTruthy)

def or : Value → Value → Value
  | .filter f, .filter g => .filter (f.or g)
  | .filter f, v => if v.isTruthy then .bool true else .filter f
  | v, .filter f => if v.isTruthy then .bool true else .filter f
  | v, w => .bool (v.isTruthy || w.isTruthy)

/-- Adds numbers, and joins texts where one operand is a string. -/
def add : Value → Value → Value
  | .null, _ => .null
  | _, .null => .null
  | .number a, .number b => .number (a + b)
  | .string s, v => .string (s ++ v.text)
  | v, .string s => .string (v.text ++ s)
  | _, _ => .null

/-- Applies `op` to the operands as numbers; one that is no number gives null. -/
def arithmetic (op : Number → Number → Option Number) (v w : Value) : Value :=
  match v.asNumber?, w.asNumber? with
  | some a, some b => ((op a b).map Value.number).getD .null
  | _, _ => .null

/-- An operation with a divisor, which must not be zero. -/
def dividing (op : Number → Number → Number) (a b : Number) : Option Number :=
  if b.isZero then none else some (op a b)

def unary (mode : Mode) : UnaryOp → Value → Value
  | .negate, v => v.negate
  | .not, v => v.not mode

def binary : BinaryOp → Value → Value → Value
  | .or, v, w => v.or w
  | .and, v, w => v.and w
  | .compare relation, v, w => .bool (relation.holds v w)
  | .add, v, w => v.add w
  | .subtract, v, w => arithmetic (fun a b => some (a - b)) v w
  | .multiply, v, w => arithmetic (fun a b => some (a * b)) v w
  | .divide, v, w => arithmetic (dividing (· / ·)) v w
  | .modulo, v, w => arithmetic (dividing (· % ·)) v w

end Value

end RecordExpr
