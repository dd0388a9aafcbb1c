import RecordExpr.Eval.Builtin
import RecordExpr.Eval.Dialogue
import RecordExpr.Eval.Operation
import RecordExpr.Syntax.Expr

set_option autoImplicit false

namespace RecordExpr

/-- Why an evaluation stops, with the token of the call that is at fault. -/
inductive EvalError where
  | notDefined (token : Token) (name : String)
  | wrongArgumentCount (token : Token) (name : String) (expected given : Nat)
deriving DecidableEq

namespace EvalError

def token : EvalError → Token
  | notDefined token _ => token
  | wrongArgumentCount token _ _ _ => token

def message : EvalError → String
  | notDefined _ name => "\"" ++ name ++ "\" is not defined"
  | wrongArgumentCount _ name expected given =>
    "Invalid number of arguments in \"" ++ name ++ "\", expected " ++ toString expected ++
      ", got " ++ toString given

end EvalError

/-- What a call can name: the lookup of a record, the conditional, or a builtin function. -/
inductive Callee where
  | getFeature
  | conditional
  | builtin (function : Builtin)
deriving DecidableEq, Repr

namespace Callee

/-- The names of functions are known in any letter case. -/
def named? (name : String) : Option Callee :=
  match String.ofList (name.toList.map Char.toLower) with
  | "getfeature" => some getFeature
  | "if" => some conditional
  | lower => (Builtin.named? lower).map builtin

def arity : Callee → Arity
  | getFeature => .exactly 3
  | conditional => .exactly 3
  | builtin function => function.arity

end Callee

/-- An evaluation in progress: questions for records, and an error or a result at its end. -/
abbrev Evaluation (α : Type) := ExceptT EvalError Dialogue α

namespace Evaluation

/-- The dialogue of two evaluations one after the other. -/
theorem run_bind {α β : Type} (x : Evaluation α) (f : α → Evaluation β) :
    (x >>= f).run = x.run.bind fun result =>
      match result with
      | .ok a => (f a).run
      | .error e => .done (.error e) := by
  change x.run.bind _ = _
  congr 1
  funext result
  cases result <;> rfl

/-- Asks for a record. -/
def ask (question : Reference) : Evaluation (Option Record) :=
  Dialogue.ask question fun answer => Dialogue.done (.ok answer)

/-- The lookup with these arguments. Without a value to look for, or with a dataset or attribute
that is no string, there is nothing to ask. -/
def getFeature : List Value → Evaluation Value
  | [.string dataset, .string attributeName, value] =>
    if value.isNull then return .null
    else return .ofRecord? (← ask ⟨dataset, attributeName, value⟩)
  | _ => return .null

end Evaluation

namespace Expr

mutual

/-- The value of a tree for this record. In filter mode a comparison with a field on its left
becomes a filter, for which only its right side is evaluated. -/
def evaluate (mode : Mode) (subject : Record) : Expr → Evaluation Value
  | literal _ l => return l.value
  | field _ name => return (subject.get? name).getD .null
  | member _ target name => return (← evaluate mode subject target).get name
  | call token name args =>
    match Callee.named? name with
    | none => throw (.notDefined token name)
    | some callee =>
      if callee.arity.accepts args.length then
        match callee with
        | .getFeature => do Evaluation.getFeature (← evaluateAll mode subject args)
        | .conditional => evaluateChoice mode subject args
        | .builtin function => return function.apply (← evaluateAll mode subject args)
      else throw (.wrongArgumentCount token name callee.arity.expected args.length)
  | unary _ op operand => return Value.unary mode op (← evaluate mode subject operand)
  | binary _ op lhs rhs => do
    match mode, op, lhs with
    | .filter, .compare relation, field _ name =>
      return .filter (.compare name relation (← evaluate mode subject rhs))
    | _, _, _ =>
      let v ← evaluate mode subject lhs
      let w ← evaluate mode subject rhs
      return Value.binary op v w

/-- The values of several trees, from left to right. -/
def evaluateAll (mode : Mode) (subject : Record) : List Expr → Evaluation (List Value)
  | [] => return []
  | e :: rest => do
    let v ← evaluate mode subject e
    let vs ← evaluateAll mode subject rest
    return v :: vs

/-- A condition and two branches, of which one is evaluated. -/
def evaluateChoice (mode : Mode) (subject : Record) : List Expr → Evaluation Value
  | [condition, thenBranch, elseBranch] => do
    if (← evaluate mode subject condition).isTruthy then evaluate mode subject thenBranch
    else evaluate mode subject elseBranch
  | _ => return .null

end

end Expr

end RecordExpr
