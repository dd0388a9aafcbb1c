import RecordExpr.Value.Json

set_option autoImplicit false

namespace RecordExpr

inductive BinaryOp where
  | or
  | and
  | compare (relation : Comparison)
  | add
  | subtract
  | multiply
  | divide
  | modulo
deriving DecidableEq, Repr

namespace BinaryOp

/-- An operator takes its operands before one of lower strength does. -/
def strength : BinaryOp → Nat
  | or => 1
  | and => 2
  | compare _ => 3
  | add | subtract => 4
  | multiply | divide | modulo => 5

def symbol : BinaryOp → String
  | or => "or"
  | and => "and"
  | compare .like => "like"
  | compare relation => relation.symbol
  | add => "+"
  | subtract => "-"
  | multiply => "*"
  | divide => "/"
  | modulo => "%"

end BinaryOp

inductive UnaryOp where
  | negate
  | not
deriving DecidableEq, Repr

inductive Literal where
  | number (n : Number)
  | string (s : String)
  | bool (b : Bool)
  | null
deriving DecidableEq

namespace Literal

/-- A string literal in single quotes, with a backslash before every single quote in it. -/
def quote (s : String) : String :=
  String.ofList
    ('\'' :: s.toList.flatMap (fun c => if c = '\'' then ['\\', '\''] else [c]) ++ ['\''])

def text : Literal → String
  | number n => n.text
  | string s => quote s
  | bool b => if b then "true" else "false"
  | null => "null"

def value : Literal → Value
  | number n => .number n
  | string s => .string s
  | bool b => .bool b
  | null => .null

end Literal

end RecordExpr
