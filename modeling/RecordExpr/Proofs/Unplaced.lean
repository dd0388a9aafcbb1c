import RecordExpr.Proofs.PlainValues
import RecordExpr.Proofs.Reprinting

set_option autoImplicit false

namespace RecordExpr

/-- The token as it would stand anywhere else. -/
def Token.unplaced (t : Token) : Token := ⟨t.kind, {}⟩

def LexError.unplaced : LexError → LexError
  | unexpectedCharacter _ c => unexpectedCharacter {} c
  | unterminatedField _ => unterminatedField {}
  | unterminatedString _ => unterminatedString {}

def ParseError.unplaced : ParseError → ParseError
  | unexpectedToken token => unexpectedToken token.unplaced
  | unexpectedEnd token => unexpectedEnd token.unplaced
  | expectedClosingParen token => expectedClosingParen token.unplaced
  | expectedAttributeName token => expectedAttributeName token.unplaced

/-- Which call it was that failed is said by the name of the function. -/
def EvalError.unplaced : EvalError → EvalError
  | notDefined _ name => notDefined Token.missing name
  | wrongArgumentCount _ name expected given =>
    wrongArgumentCount Token.missing name expected given

namespace Fault

def unplaced : Fault → Fault
  | lex e => lex e.unplaced
  | parse e => parse e.unplaced
  | eval e => eval e.unplaced

end Fault

/-- What kind of error it is: everything but its place and the text it was found in. -/
def ExprError.kind (e : ExprError) : Fault := e.fault.unplaced

namespace Dialogue

variable {α β γ : Type}

theorem bind_bind (d : Dialogue α) (f : α → Dialogue β) (g : β → Dialogue γ) :
    (d.bind f).bind g = d.bind fun a => (f a).bind g := by
  induction d with
  | done result => rfl
  | ask question next ih =>
      rw [bind, bind, bind]
      exact congrArg (ask question) (funext ih)

end Dialogue

namespace Evaluation

variable {α β : Type}

/-- The evaluation with errors that name no place. -/
def unplaced (x : Evaluation α) : Evaluation α :=
  ExceptT.mk (x.run.bind fun result => .done (result.mapError EvalError.unplaced))

theorem unplaced_pure (a : α) : unplaced (pure a) = pure a := rfl

theorem unplaced_ask (question : Reference) : unplaced (ask question) = ask question := rfl

theorem unplaced_bind (x : Evaluation α) (f : α → Evaluation β) :
    unplaced (x >>= f) = unplaced x >>= fun a => unplaced (f a) := by
  apply ExceptT.ext
  rw [run_bind, unplaced, ExceptT.run_mk, run_bind, unplaced, ExceptT.run_mk, Dialogue.bind_bind,
    Dialogue.bind_bind]
  congr 1
  funext result
  cases result <;> rfl

theorem unplaced_getFeature (args : List Value) : unplaced (getFeature args) = getFeature args := by
  unfold getFeature
  split
  · split
    · rfl
    · rw [unplaced_bind, unplaced_ask]
      rfl
  · rfl

end Evaluation

namespace Expr

variable {mode : Mode} {subject : Record}

open Evaluation in
theorem evaluateAll_bares {args : List Expr}
    (each : ∀ arg ∈ args, arg.bare.evaluate mode subject = unplaced (arg.evaluate mode subject)) :
    evaluateAll mode subject (bares args) = unplaced (evaluateAll mode subject args) := by
  induction args with
  | nil => rw [bares, evaluateAll, unplaced_pure]
  | cons first rest ih =>
      obtain ⟨here, later⟩ := List.forall_mem_cons.mp each
      rw [bares, evaluateAll, evaluateAll, here, ih later]
      simp only [unplaced_bind, unplaced_pure]

open Evaluation in
theorem evaluateChoice_bares {args : List Expr}
    (each : ∀ arg ∈ args, arg.bare.evaluate mode subject = unplaced (arg.evaluate mode subject)) :
    evaluateChoice mode subject (bares args) = unplaced (evaluateChoice mode subject args) := by
  match args, each with
  | [condition, thenBranch, elseBranch], each =>
      have conditionSame := each condition (by simp)
      have thenSame := each thenBranch (by simp)
      have elseSame := each elseBranch (by simp)
      simp only [bares, evaluateChoice, conditionSame, thenSame, elseSame, unplaced_bind]
      congr 1
      funext v
      split <;> rfl
  | [], _ => rfl
  | [_], _ => rfl
  | [_, _], _ => rfl
  | _ :: _ :: _ :: _ :: _, _ => rfl

theorem length_bares (args : List Expr) : (bares args).length = args.length := by
  induction args with
  | nil => rfl
  | cons first rest ih => rw [bares, List.length_cons, List.length_cons, ih]

open Evaluation in
theorem evaluate_call_bare {args : List Expr}
    (each : ∀ arg ∈ args, arg.bare.evaluate mode subject = unplaced (arg.evaluate mode subject))
    (token : Token) (name : String) :
    (call token name args).bare.evaluate mode subject =
      unplaced ((call token name args).evaluate mode subject) := by
  rw [bare, evaluate, evaluate, length_bares]
  cases Callee.named? name with
  | none => rfl
  | some callee =>
      by_cases accepted : callee.arity.accepts args.length = true
      · simp only [accepted, if_true]
        cases callee with
        | getFeature =>
            simp only [evaluateAll_bares each, unplaced_bind, unplaced_getFeature]
        | conditional => exact evaluateChoice_bares each
        | builtin function =>
            simp only [evaluateAll_bares each, unplaced_bind, unplaced_pure]
      · simp only [accepted]
        rfl

open Evaluation in
/-- In a condition it matters whether the left operand is an attribute, which it is without its
token too. -/
theorem evaluate_binary_bare {lhs rhs : Expr}
    (left : lhs.bare.evaluate mode subject = unplaced (lhs.evaluate mode subject))
    (right : rhs.bare.evaluate mode subject = unplaced (rhs.evaluate mode subject)) (token : Token)
    (op : BinaryOp) :
    (binary token op lhs rhs).bare.evaluate mode subject =
      unplaced ((binary token op lhs rhs).evaluate mode subject) := by
  have ordinary : (do
      let v ← lhs.bare.evaluate mode subject
      let w ← rhs.bare.evaluate mode subject
      return Value.binary op v w) = unplaced (do
      let v ← lhs.evaluate mode subject
      let w ← rhs.evaluate mode subject
      return Value.binary op v w) := by
    simp only [left, right, unplaced_bind, unplaced_pure]
  cases mode with
  | value => exact ordinary
  | filter =>
      by_cases compares : ∃ relation t name, op = .compare relation ∧ lhs = field t name
      · obtain ⟨relation, t, name, rfl, rfl⟩ := compares
        rw [bare, bare, evaluate, evaluate, right, unplaced_bind]
        rfl
      · have other : ∀ relation t name, op = .compare relation → lhs ≠ field t name :=
          fun relation t name isCompare isField =>
            compares ⟨relation, t, name, isCompare, isField⟩
        have otherBare : ∀ relation t name, op = .compare relation → lhs.bare ≠ field t name := by
          intro relation t name isCompare isField
          cases lhs with
          | field nameToken fieldName => exact other relation _ _ isCompare rfl
          | _ => cases isField
        rw [bare, evaluate_binary_filter _ _ otherBare, evaluate_binary_filter _ _ other]
        exact ordinary

open Evaluation in
/-- The tokens of a tree show only in errors. -/
theorem evaluate_bare (mode : Mode) (subject : Record) (e : Expr) :
    e.bare.evaluate mode subject = unplaced (e.evaluate mode subject) := by
  induction e using tree_induction with
  | literal token l => rfl
  | field token name => rfl
  | member token target name ih =>
      rw [bare, evaluate, evaluate, ih, unplaced_bind]
      rfl
  | call token name args ih => exact evaluate_call_bare ih token name
  | unary token op operand ih =>
      rw [bare, evaluate, evaluate, ih, unplaced_bind]
      rfl
  | binary token op lhs rhs ihl ihr => exact evaluate_binary_bare ihl ihr token op

end Expr

/-- Whoever answers the questions, both dialogues come to the same value or to errors of one kind,
and the one who answers is left in the same state. -/
def SameMeaning (d d' : Dialogue (Except ExprError Value)) : Prop :=
  ∀ {σ : Type} (answer : Reference → StateM σ (Option Record)) (s : σ),
    (d.run answer s).1.mapError ExprError.kind = (d'.run answer s).1.mapError ExprError.kind ∧
      (d.run answer s).2 = (d'.run answer s).2

theorem sameMeaning_of_kinds {d d' : Dialogue (Except ExprError Value)}
    (same : (d.bind fun result => .done (result.mapError ExprError.kind)) =
      d'.bind fun result => .done (result.mapError ExprError.kind)) : SameMeaning d d' := by
  intro σ answer s
  have runs := congrFun (congrArg (Dialogue.run answer) same) s
  rw [Dialogue.run_bind, Dialogue.run_bind] at runs
  exact Prod.mk.inj runs

theorem not_sameMeaning_of_values {v w : Value} (differ : v ≠ w) :
    ¬SameMeaning (.done (.ok v)) (.done (.ok w)) := by
  intro same
  have values := (@same Unit (fun _ => pure none) ()).1
  exact differ (Except.ok.inj values)

namespace Expr

/-- What a text means is what its tree means without its tokens. -/
theorem evaluateText_kind {text : String} {e : Expr} (parsed : ofText text = .ok e) (mode : Mode)
    (subject : Record) :
    (evaluateText mode subject text).bind (fun result => .done (result.mapError ExprError.kind)) =
      (e.bare.evaluate mode subject).run.bind fun result => .done (result.mapError Fault.eval) := by
  rw [evaluateText_of_parsed mode subject parsed, evaluate_bare, Evaluation.unplaced,
    ExceptT.run_mk, Dialogue.bind_bind, Dialogue.bind_bind]
  congr 1
  funext result
  cases result <;> rfl

theorem sameMeaning_of_bare_eq {text text' : String} {e e' : Expr} (parsed : ofText text = .ok e)
    (parsed' : ofText text' = .ok e') (same : e.bare = e'.bare) (mode : Mode) (subject : Record) :
    SameMeaning (evaluateText mode subject text) (evaluateText mode subject text') := by
  apply sameMeaning_of_kinds
  rw [evaluateText_kind parsed, evaluateText_kind parsed', same]

end Expr

end RecordExpr
