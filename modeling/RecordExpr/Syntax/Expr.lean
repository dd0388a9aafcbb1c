import RecordExpr.Syntax.Token
import RecordExpr.Value.Text

set_option autoImplicit false

namespace RecordExpr

/-- Every node keeps the token it comes from. That of an access to an attribute is the dot together
with the name. -/
inductive Expr where
  | literal (token : Token) (value : Literal)
  /-- An attribute of the subject record. -/
  | field (token : Token) (name : String)
  /-- An attribute of what another expression gives. -/
  | member (token : Token) (target : Expr) (name : String)
  | call (token : Token) (name : String) (args : List Expr)
  | unary (token : Token) (op : UnaryOp) (operand : Expr)
  | binary (token : Token) (op : BinaryOp) (lhs rhs : Expr)

instance : Inhabited Expr := ⟨.literal Token.missing .null⟩

namespace Expr

def token : Expr → Token
  | literal t _ => t
  | field t _ => t
  | member t _ _ => t
  | call t _ _ => t
  | unary t _ _ => t
  | binary t _ _ _ => t

/-- The trees right below this one, from left to right. -/
def children : Expr → List Expr
  | literal _ _ => []
  | field _ _ => []
  | member _ target _ => [target]
  | call _ _ args => args
  | unary _ _ operand => [operand]
  | binary _ _ lhs rhs => [lhs, rhs]

/-- Induction on trees, with what holds of all arguments of a call. -/
@[elab_as_elim]
theorem tree_induction {motive : Expr → Prop}
    (literal : ∀ token value, motive (literal token value))
    (field : ∀ token name, motive (field token name))
    (member : ∀ token target name, motive target → motive (member token target name))
    (call : ∀ token name args, (∀ arg ∈ args, motive arg) → motive (call token name args))
    (unary : ∀ token op operand, motive operand → motive (unary token op operand))
    (binary : ∀ token op lhs rhs, motive lhs → motive rhs → motive (binary token op lhs rhs))
    (e : Expr) : motive e :=
  @Expr.rec motive (fun args => ∀ arg ∈ args, motive arg) literal field member call unary binary
    nofun (fun _ _ first rest => List.forall_mem_cons.mpr ⟨first, rest⟩) e

mutual

/-- The part of the text that the tree covers. A call reaches up to its last argument, since
parentheses leave no trace in the tree. -/
def range : Expr → Range
  | literal t _ => t.range
  | field t _ => t.range
  | member t target _ => target.range.merge t.range
  | call t _ args => reach t.range args
  | unary t _ operand => t.range.merge operand.range
  | binary _ _ lhs rhs => lhs.range.merge rhs.range

/-- The range widened to the last of these trees. -/
def reach (r : Range) : List Expr → Range
  | [] => r
  | [last] => r.merge last.range
  | _ :: next :: rest => reach r (next :: rest)

end

mutual

/-- The tree as text, with parentheses around every binary operator and every `not`. -/
def text : Expr → String
  | literal _ l => l.text
  | field _ name => "\x7b" ++ name ++ "\x7d"
  | member _ target name => target.text ++ "." ++ name
  | call _ name args => name ++ "(" ++ joinTexts ", " (texts args) ++ ")"
  | unary _ .negate operand => "-" ++ operand.text
  | unary _ .not operand => "(not " ++ operand.text ++ ")"
  | binary _ op lhs rhs => "(" ++ lhs.text ++ " " ++ op.symbol ++ " " ++ rhs.text ++ ")"

def texts : List Expr → List String
  | [] => []
  | e :: rest => e.text :: texts rest

end

end Expr

end RecordExpr
