import Mathlib.Data.List.Basic
import RecordExpr.Proofs.Courses

set_option autoImplicit false

namespace RecordExpr

/-- A problem with the place of the node that has it: the numbers of the children on the way there
from the root. -/
structure Failure where
  place : List Nat
  problem : EvalError

/-- How the evaluation of a tree ends. -/
abbrev Ending (α : Type) := Except Failure α

/-- The ending without its place. -/
def Ending.result {α : Type} (ending : Ending α) : Except EvalError α :=
  ending.mapError Failure.problem

/-- A node that evaluation has left, and the question that is put there. -/
structure Visit where
  place : List Nat
  answered : Option Answered

/-- All that is asked on the way. -/
def answers (visits : List Visit) : List Answered := visits.filterMap Visit.answered

@[simp] theorem answers_append (visits more : List Visit) :
    answers (visits ++ more) = answers visits ++ answers more :=
  List.filterMap_append

@[simp] theorem answers_singleton (v : Visit) : answers [v] = v.answered.toList := by
  cases v with
  | mk place answered => cases answered <;> rfl

theorem answers_leave (visits : List Visit) (place : List Nat) :
    answers (visits ++ [⟨place, none⟩]) = answers visits := by
  rw [answers_append, answers_singleton, Option.toList_none, List.append_nil]

theorem Ending.result_map {α β : Type} (ending : Ending α) (f : α → β) :
    Ending.result (ending.map f) = (Ending.result ending).map f := by
  cases ending <;> rfl

theorem Ending.eq_ok_of_result {α : Type} {ending : Ending α} {a : α}
    (ends : Ending.result ending = .ok a) : ending = .ok a := by
  cases ending with
  | ok b =>
      cases ends
      rfl
  | error failure => cases ends

theorem Ending.eq_error_of_result {α : Type} {ending : Ending α} {problem : EvalError}
    (ends : Ending.result ending = .error problem) :
    ∃ place, ending = .error ⟨place, problem⟩ := by
  cases ending with
  | ok b => cases ends
  | error failure =>
      cases ends
      exact ⟨failure.place, rfl⟩

/-- A call is not carried out for this reason. -/
inductive Refuses (token : Token) (name : String) (args : List Expr) : EvalError → Prop where
  | unknown (unnamed : Callee.named? name = none) : Refuses token name args (.notDefined token name)
  | count {callee : Callee} (named : Callee.named? name = some callee)
      (refused : callee.arity.accepts args.length = false) :
      Refuses token name args
        (.wrongArgumentCount token name callee.arity.expected args.length)

namespace Expr

/-- A comparison that filter mode does not carry out: with a field on its left. -/
def FilterComparison (mode : Mode) (op : BinaryOp) (lhs : Expr) : Prop :=
  ∃ relation token name, mode = .filter ∧ op = .compare relation ∧ lhs = field token name

mutual

/-- The tree at this place is evaluated: the nodes that are left one after the other, each after
those below it, and the ending. No rule evaluates a branch that is not taken, nor anything to the
right of a failure. -/
inductive Runs (mode : Mode) (subject : Record) :
    List Nat → Expr → List Visit → Ending Value → Prop where
  | literal (place : List Nat) (token : Token) (l : Literal) :
      Runs mode subject place (literal token l) [⟨place, none⟩] (.ok l.value)
  | field (place : List Nat) (token : Token) (name : String) :
      Runs mode subject place (field token name) [⟨place, none⟩]
        (.ok ((subject.get? name).getD .null))
  | member {place : List Nat} (token : Token) {target : Expr} (name : String) {visits : List Visit}
      {ending : Ending Value} (inside : Runs mode subject (place ++ [0]) target visits ending) :
      Runs mode subject place (member token target name) (visits ++ [⟨place, none⟩])
        (ending.map fun v => v.get name)
  | unary {place : List Nat} (token : Token) (op : UnaryOp) {operand : Expr} {visits : List Visit}
      {ending : Ending Value} (inside : Runs mode subject (place ++ [0]) operand visits ending) :
      Runs mode subject place (unary token op operand) (visits ++ [⟨place, none⟩])
        (ending.map (Value.unary mode op))
  /-- A comparison that becomes a filter, which leaves the field on its left alone. -/
  | filter {place : List Nat} (token : Token) (relation : Comparison) (nameToken : Token)
      (name : String) {rhs : Expr} {visits : List Visit} {ending : Ending Value}
      (filters : mode = .filter) (right : Runs mode subject (place ++ [1]) rhs visits ending) :
      Runs mode subject place (binary token (.compare relation) (field nameToken name) rhs)
        (visits ++ [⟨place, none⟩]) (ending.map fun v => .filter (.compare name relation v))
  | leftFails {place : List Nat} (token : Token) {op : BinaryOp} {lhs : Expr} (rhs : Expr)
      {visits : List Visit} {failure : Failure} (operates : ¬FilterComparison mode op lhs)
      (left : Runs mode subject (place ++ [0]) lhs visits (.error failure)) :
      Runs mode subject place (binary token op lhs rhs) (visits ++ [⟨place, none⟩])
        (.error failure)
  | binary {place : List Nat} (token : Token) {op : BinaryOp} {lhs rhs : Expr}
      {visits more : List Visit} {v : Value} {ending : Ending Value}
      (operates : ¬FilterComparison mode op lhs)
      (left : Runs mode subject (place ++ [0]) lhs visits (.ok v))
      (right : Runs mode subject (place ++ [1]) rhs more ending) :
      Runs mode subject place (binary token op lhs rhs) (visits ++ more ++ [⟨place, none⟩])
        (ending.map (Value.binary op v))
  | refused (place : List Nat) {token : Token} {name : String} {args : List Expr}
      {problem : EvalError} (refuses : Refuses token name args problem) :
      Runs mode subject place (call token name args) [⟨place, none⟩] (.error ⟨place, problem⟩)
  | builtin {place : List Nat} (token : Token) {name : String} {args : List Expr}
      {function : Builtin} {visits : List Visit} {ending : Ending (List Value)}
      (named : Callee.named? name = some (.builtin function))
      (accepted : function.arity.accepts args.length = true)
      (inside : RunsAll mode subject place 0 args visits ending) :
      Runs mode subject place (call token name args) (visits ++ [⟨place, none⟩])
        (ending.map function.apply)
  | keyFails {place : List Nat} (token : Token) {name : String} {args : List Expr}
      {visits : List Visit} {failure : Failure} (named : Callee.named? name = some .getFeature)
      (three : args.length = 3)
      (inside : RunsAll mode subject place 0 args visits (.error failure)) :
      Runs mode subject place (call token name args) (visits ++ [⟨place, none⟩]) (.error failure)
  /-- The arguments have been evaluated, and the record is asked for if there is reason to. -/
  | lookup {place : List Nat} (token : Token) {name : String} {args : List Expr}
      {visits : List Visit} {vs : List Value} {asked : Option Answered} {v : Value}
      (named : Callee.named? name = some .getFeature) (three : args.length = 3)
      (inside : RunsAll mode subject place 0 args visits (.ok vs))
      (looks : (Evaluation.getFeature vs).run.Course asked.toList (.ok v)) :
      Runs mode subject place (call token name args) (visits ++ [⟨place, asked⟩]) (.ok v)
  | conditionFails {place : List Nat} (token : Token) {name : String} {condition : Expr}
      (thenBranch elseBranch : Expr) {visits : List Visit} {failure : Failure}
      (named : Callee.named? name = some .conditional)
      (decides : Runs mode subject (place ++ [0]) condition visits (.error failure)) :
      Runs mode subject place (call token name [condition, thenBranch, elseBranch])
        (visits ++ [⟨place, none⟩]) (.error failure)
  | thenBranch {place : List Nat} (token : Token) {name : String} {condition thenBranch : Expr}
      (elseBranch : Expr) {visits more : List Visit} {v : Value} {ending : Ending Value}
      (named : Callee.named? name = some .conditional)
      (decides : Runs mode subject (place ++ [0]) condition visits (.ok v))
      (holds : v.isTruthy = true)
      (chosen : Runs mode subject (place ++ [1]) thenBranch more ending) :
      Runs mode subject place (call token name [condition, thenBranch, elseBranch])
        (visits ++ more ++ [⟨place, none⟩]) ending
  | elseBranch {place : List Nat} (token : Token) {name : String} {condition : Expr}
      (thenBranch : Expr) {elseBranch : Expr} {visits more : List Visit} {v : Value}
      {ending : Ending Value} (named : Callee.named? name = some .conditional)
      (decides : Runs mode subject (place ++ [0]) condition visits (.ok v))
      (fails : v.isTruthy = false)
      (chosen : Runs mode subject (place ++ [2]) elseBranch more ending) :
      Runs mode subject place (call token name [condition, thenBranch, elseBranch])
        (visits ++ more ++ [⟨place, none⟩]) ending

/-- The arguments of the call at this place are evaluated from left to right, from the one with this
number on, up to the first that fails. -/
inductive RunsAll (mode : Mode) (subject : Record) :
    List Nat → Nat → List Expr → List Visit → Ending (List Value) → Prop where
  | nil (place : List Nat) (i : Nat) : RunsAll mode subject place i [] [] (.ok [])
  | fails {place : List Nat} {i : Nat} {e : Expr} (rest : List Expr) {visits : List Visit}
      {failure : Failure} (first : Runs mode subject (place ++ [i]) e visits (.error failure)) :
      RunsAll mode subject place i (e :: rest) visits (.error failure)
  | cons {place : List Nat} {i : Nat} {e : Expr} {rest : List Expr} {visits more : List Visit}
      {v : Value} {ending : Ending (List Value)}
      (first : Runs mode subject (place ++ [i]) e visits (.ok v))
      (others : RunsAll mode subject place (i + 1) rest more ending) :
      RunsAll mode subject place i (e :: rest) (visits ++ more) (ending.map (v :: ·))

end

open Evaluation

variable {mode : Mode} {subject : Record} {place : List Nat} {answered : List Answered}

theorem evaluate_filter (token : Token) (relation : Comparison) (nameToken : Token) (name : String)
    (rhs : Expr) (filters : mode = .filter) :
    (binary token (.compare relation) (field nameToken name) rhs).evaluate mode subject =
      (do return .filter (.compare name relation (← rhs.evaluate mode subject))) := by
  subst filters
  rw [evaluate]

theorem evaluate_binary (token : Token) {op : BinaryOp} {lhs : Expr} (rhs : Expr)
    (operates : ¬FilterComparison mode op lhs) :
    (binary token op lhs rhs).evaluate mode subject = (do
      let v ← lhs.evaluate mode subject
      return Value.binary op v (← rhs.evaluate mode subject)) := by
  rw [evaluate]
  intro relation nameToken name filter compares isField
  exact operates ⟨relation, nameToken, name, filter, compares, isField⟩

theorem evaluate_getFeature (token : Token) {name : String} {args : List Expr}
    (named : Callee.named? name = some .getFeature) (three : args.length = 3) :
    (call token name args).evaluate mode subject =
      evaluateAll mode subject args >>= Evaluation.getFeature := by
  have accepted : Callee.getFeature.arity.accepts args.length = true := beq_iff_eq.mpr three
  rw [evaluate, named]
  exact if_pos accepted

theorem evaluate_conditional (token : Token) {name : String}
    (named : Callee.named? name = some .conditional) (condition thenBranch elseBranch : Expr) :
    (call token name [condition, thenBranch, elseBranch]).evaluate mode subject =
      condition.evaluate mode subject >>= fun v =>
        if v.isTruthy then thenBranch.evaluate mode subject
        else elseBranch.evaluate mode subject := by
  rw [evaluate, named]
  refine (if_pos rfl).trans ?_
  rw [evaluateChoice]

theorem evaluate_builtin (token : Token) {name : String} {args : List Expr} {function : Builtin}
    (named : Callee.named? name = some (.builtin function))
    (accepted : function.arity.accepts args.length = true) :
    (call token name args).evaluate mode subject =
      (do return function.apply (← evaluateAll mode subject args)) := by
  rw [evaluate, named]
  exact if_pos accepted

theorem evaluate_refused {token : Token} {name : String} {args : List Expr} {problem : EvalError}
    (refuses : Refuses token name args problem) :
    (call token name args).evaluate mode subject = throw problem := by
  cases refuses with
  | unknown unnamed => rw [evaluate, unnamed]
  | count named refused =>
      rw [evaluate, named]
      exact if_neg (Bool.eq_false_iff.mp refused)

/-- Whatever course the evaluation of the tree takes, and wherever the tree stands, there is a run
by the rules that takes it. -/
def FollowsRules (mode : Mode) (subject : Record) (e : Expr) : Prop :=
  ∀ place answered result, (e.evaluate mode subject).run.Course answered result →
    ∃ visits ending, Runs mode subject place e visits ending ∧ answers visits = answered ∧
      Ending.result ending = result

theorem FollowsRules.of_map {α : Type} {e : Expr} (follows : FollowsRules mode subject e)
    (place : List Nat) {f : Value → α} {result : Except EvalError α}
    (course : Dialogue.Course (do return f (← e.evaluate mode subject) : Evaluation α).run
      answered result) :
    ∃ visits ending, Runs mode subject place e visits ending ∧ answers visits = answered ∧
      Ending.result (ending.map f) = result := by
  obtain ⟨given, evaluated, rfl⟩ := course_map_iff.mp course
  obtain ⟨visits, ending, ran, same, rfl⟩ := follows place _ _ evaluated
  exact ⟨visits, ending, ran, same, Ending.result_map ending f⟩

/-- Where the tree is evaluated first, its run ends the evaluation or gives the value to go on
with. -/
theorem FollowsRules.of_bind {α : Type} {e : Expr} (follows : FollowsRules mode subject e)
    (place : List Nat) {f : Value → Evaluation α} {result : Except EvalError α}
    (course : (e.evaluate mode subject >>= f).run.Course answered result) :
    (∃ visits failure, Runs mode subject place e visits (.error failure) ∧
        answers visits = answered ∧ result = .error failure.problem) ∨
      ∃ visits v later, Runs mode subject place e visits (.ok v) ∧
        (f v).run.Course later result ∧ answers visits ++ later = answered := by
  rcases course_bind_iff.mp course with ⟨problem, failed, rfl⟩ |
    ⟨earlier, v, later, evaluated, rest, rfl⟩
  · obtain ⟨visits, ending, ran, same, ends⟩ := follows place _ _ failed
    obtain ⟨fault, rfl⟩ := Ending.eq_error_of_result ends
    exact .inl ⟨visits, _, ran, same, rfl⟩
  · obtain ⟨visits, ending, ran, rfl, ends⟩ := follows place _ _ evaluated
    obtain rfl := Ending.eq_ok_of_result ends
    exact .inr ⟨visits, v, later, ran, rest, rfl⟩

theorem runsAll_of_course {args : List Expr} (each : ∀ arg ∈ args, FollowsRules mode subject arg)
    (place : List Nat) (i : Nat) {result : Except EvalError (List Value)}
    (course : (evaluateAll mode subject args).run.Course answered result) :
    ∃ visits ending, RunsAll mode subject place i args visits ending ∧
      answers visits = answered ∧ Ending.result ending = result := by
  induction args generalizing i answered result with
  | nil =>
      rw [evaluateAll] at course
      obtain ⟨rfl, rfl⟩ := course_pure_iff.mp course
      exact ⟨[], .ok [], .nil place i, rfl, rfl⟩
  | cons e rest ih =>
      obtain ⟨here, later⟩ := List.forall_mem_cons.mp each
      rw [evaluateAll] at course
      rcases here.of_bind (place ++ [i]) course with ⟨visits, failure, ran, rfl, rfl⟩ |
        ⟨visits, v, others, ran, second, rfl⟩
      · exact ⟨visits, .error failure, .fails rest ran, rfl, rfl⟩
      · obtain ⟨given, afterwards, rfl⟩ := course_map_iff.mp second
        obtain ⟨more, ending, ranAll, rfl, rfl⟩ := ih later (i + 1) afterwards
        exact ⟨visits ++ more, _, .cons ran ranAll, answers_append visits more,
          Ending.result_map ending _⟩

theorem followsRules_conditional (token : Token) {name : String}
    (named : Callee.named? name = some .conditional) {condition thenBranch elseBranch : Expr}
    (decides : FollowsRules mode subject condition)
    (first : FollowsRules mode subject thenBranch)
    (second : FollowsRules mode subject elseBranch) :
    FollowsRules mode subject (call token name [condition, thenBranch, elseBranch]) := by
  intro place answered result course
  rw [evaluate_conditional token named] at course
  rcases decides.of_bind (place ++ [0]) course with ⟨visits, failure, ran, rfl, rfl⟩ |
    ⟨visits, v, later, ran, chosen, rfl⟩
  · exact ⟨_, .error failure, .conditionFails token thenBranch elseBranch named ran,
      answers_leave visits place, rfl⟩
  · -- the value of the condition decides which branch the rest of the course goes through
    split at chosen
    · rename_i holds
      obtain ⟨more, ending, branch, rfl, rfl⟩ := first (place ++ [1]) _ _ chosen
      exact ⟨_, ending, .thenBranch token elseBranch named ran holds branch,
        (answers_leave _ place).trans (answers_append visits more), rfl⟩
    · rename_i fails
      obtain ⟨more, ending, branch, rfl, rfl⟩ := second (place ++ [2]) _ _ chosen
      exact ⟨_, ending, .elseBranch token thenBranch named ran (Bool.eq_false_iff.mpr fails) branch,
        (answers_leave _ place).trans (answers_append visits more), rfl⟩

theorem followsRules_getFeature (token : Token) {name : String} {args : List Expr}
    (named : Callee.named? name = some .getFeature) (three : args.length = 3)
    (each : ∀ arg ∈ args, FollowsRules mode subject arg) :
    FollowsRules mode subject (call token name args) := by
  intro place answered result course
  rw [evaluate_getFeature token named three, course_bind_iff] at course
  rcases course with ⟨problem, failed, rfl⟩ | ⟨earlier, vs, later, evaluated, looks, rfl⟩
  · obtain ⟨visits, ending, ran, rfl, ends⟩ := runsAll_of_course each place 0 failed
    obtain ⟨fault, rfl⟩ := Ending.eq_error_of_result ends
    exact ⟨_, _, .keyFails token named three ran, answers_leave visits place, rfl⟩
  · obtain ⟨visits, ending, ran, rfl, ends⟩ := runsAll_of_course each place 0 evaluated
    obtain rfl := Ending.eq_ok_of_result ends
    obtain ⟨asked, rfl, v, rfl⟩ := course_getFeature looks
    refine ⟨_, _, .lookup token named three ran looks, ?_, rfl⟩
    rw [answers_append, answers_singleton]

theorem followsRules_builtin (token : Token) {name : String} {args : List Expr}
    {function : Builtin} (named : Callee.named? name = some (.builtin function))
    (accepted : function.arity.accepts args.length = true)
    (each : ∀ arg ∈ args, FollowsRules mode subject arg) :
    FollowsRules mode subject (call token name args) := by
  intro place answered result course
  rw [evaluate_builtin token named accepted, course_map_iff] at course
  obtain ⟨given, evaluated, rfl⟩ := course
  obtain ⟨visits, ending, ran, rfl, rfl⟩ := runsAll_of_course each place 0 evaluated
  exact ⟨_, _, .builtin token named accepted ran, answers_leave visits place,
    Ending.result_map ending _⟩

theorem followsRules_refused {token : Token} {name : String} {args : List Expr}
    {problem : EvalError} (refuses : Refuses token name args problem) :
    FollowsRules mode subject (call token name args) := by
  intro place answered result course
  rw [evaluate_refused refuses, course_throw_iff] at course
  obtain ⟨rfl, rfl⟩ := course
  exact ⟨_, _, .refused place refuses, rfl, rfl⟩

theorem followsRules_call (token : Token) (name : String) {args : List Expr}
    (each : ∀ arg ∈ args, FollowsRules mode subject arg) :
    FollowsRules mode subject (call token name args) := by
  cases named : Callee.named? name with
  | none => exact followsRules_refused (.unknown named)
  | some callee =>
      cases accepted : callee.arity.accepts args.length with
      | false => exact followsRules_refused (.count named accepted)
      | true =>
          cases callee with
          | getFeature => exact followsRules_getFeature token named (beq_iff_eq.mp accepted) each
          | conditional =>
              have three : args.length = 3 := beq_iff_eq.mp accepted
              obtain ⟨condition, thenBranch, elseBranch, rfl⟩ := List.length_eq_three.mp three
              simp only [List.forall_mem_cons] at each
              obtain ⟨decides, first, second, -⟩ := each
              exact followsRules_conditional token named decides first second
          | builtin function => exact followsRules_builtin token named accepted each

theorem followsRules_binary (token : Token) (op : BinaryOp) {lhs rhs : Expr}
    (left : FollowsRules mode subject lhs) (right : FollowsRules mode subject rhs) :
    FollowsRules mode subject (binary token op lhs rhs) := by
  intro place answered result course
  by_cases filters : FilterComparison mode op lhs
  · obtain ⟨relation, nameToken, name, filter, rfl, rfl⟩ := filters
    rw [evaluate_filter token relation nameToken name rhs filter] at course
    obtain ⟨visits, ending, ran, rfl, rfl⟩ := right.of_map (place ++ [1]) course
    exact ⟨_, _, .filter token relation nameToken name filter ran, answers_leave visits place, rfl⟩
  · rw [evaluate_binary token rhs filters] at course
    rcases left.of_bind (place ++ [0]) course with ⟨visits, failure, ran, rfl, rfl⟩ |
      ⟨visits, v, later, ran, second, rfl⟩
    · exact ⟨_, .error failure, .leftFails token rhs filters ran, answers_leave visits place, rfl⟩
    · obtain ⟨more, ending, ranToo, rfl, rfl⟩ := right.of_map (place ++ [1]) second
      exact ⟨_, _, .binary token filters ran ranToo,
        (answers_leave _ place).trans (answers_append visits more), rfl⟩

theorem followsRules (mode : Mode) (subject : Record) (e : Expr) : FollowsRules mode subject e := by
  induction e using tree_induction with
  | literal token l =>
      intro place answered result course
      rw [evaluate] at course
      obtain ⟨rfl, rfl⟩ := course_pure_iff.mp course
      exact ⟨_, _, .literal place token l, rfl, rfl⟩
  | field token name =>
      intro place answered result course
      rw [evaluate] at course
      obtain ⟨rfl, rfl⟩ := course_pure_iff.mp course
      exact ⟨_, _, .field place token name, rfl, rfl⟩
  | member token target name ih =>
      intro place answered result course
      rw [evaluate] at course
      obtain ⟨visits, ending, ran, rfl, rfl⟩ := ih.of_map (place ++ [0]) course
      exact ⟨_, _, .member token name ran, answers_leave visits place, rfl⟩
  | call token name args ih => exact followsRules_call token name ih
  | unary token op operand ih =>
      intro place answered result course
      rw [evaluate] at course
      obtain ⟨visits, ending, ran, rfl, rfl⟩ := ih.of_map (place ++ [0]) course
      exact ⟨_, _, .unary token op ran, answers_leave visits place, rfl⟩
  | binary token op lhs rhs left right => exact followsRules_binary token op left right

mutual

/-- Every run by the rules is the course of an evaluation. -/
theorem Runs.course {place : List Nat} {e : Expr} {visits : List Visit} {ending : Ending Value} :
    Runs mode subject place e visits ending →
      (e.evaluate mode subject).run.Course (answers visits) (Ending.result ending)
  | .literal place token l => by
      rw [evaluate]
      exact .done _
  | .field place token name => by
      rw [evaluate]
      exact .done _
  | .member token name inside => by
      rw [evaluate, answers_leave, Ending.result_map, course_map_iff]
      exact ⟨_, inside.course, rfl⟩
  | .unary token op inside => by
      rw [evaluate, answers_leave, Ending.result_map, course_map_iff]
      exact ⟨_, inside.course, rfl⟩
  | .filter token relation nameToken name filters right => by
      rw [evaluate_filter token relation nameToken name _ filters, answers_leave,
        Ending.result_map, course_map_iff]
      exact ⟨_, right.course, rfl⟩
  | .leftFails token rhs operates left => by
      rw [evaluate_binary token rhs operates, answers_leave, course_bind_iff]
      exact .inl ⟨_, left.course, rfl⟩
  | .binary token operates left right => by
      rw [evaluate_binary token _ operates, answers_leave, answers_append, Ending.result_map,
        course_bind_iff]
      exact .inr ⟨_, _, _, left.course, course_map_iff.mpr ⟨_, right.course, rfl⟩, rfl⟩
  | .refused place refuses => by
      rw [evaluate_refused refuses]
      exact .done _
  | .builtin token named accepted inside => by
      rw [evaluate_builtin token named accepted, answers_leave, Ending.result_map, course_map_iff]
      exact ⟨_, inside.course, rfl⟩
  | .keyFails token named three inside => by
      rw [evaluate_getFeature token named three, answers_leave, course_bind_iff]
      exact .inl ⟨_, inside.course, rfl⟩
  | .lookup token named three inside looks => by
      rw [evaluate_getFeature token named three, answers_append, answers_singleton, course_bind_iff]
      exact .inr ⟨_, _, _, inside.course, looks, rfl⟩
  | .conditionFails token thenBranch elseBranch named decides => by
      rw [evaluate_conditional token named, answers_leave, course_bind_iff]
      exact .inl ⟨_, decides.course, rfl⟩
  | .thenBranch token elseBranch named decides holds chosen => by
      rw [evaluate_conditional token named, answers_leave, answers_append, course_bind_iff]
      refine .inr ⟨_, _, _, decides.course, ?_, rfl⟩
      rw [if_pos holds]
      exact chosen.course
  | .elseBranch token thenBranch named decides fails chosen => by
      rw [evaluate_conditional token named, answers_leave, answers_append, course_bind_iff]
      refine .inr ⟨_, _, _, decides.course, ?_, rfl⟩
      rw [if_neg (Bool.eq_false_iff.mp fails)]
      exact chosen.course

theorem RunsAll.course {place : List Nat} {i : Nat} {args : List Expr} {visits : List Visit}
    {ending : Ending (List Value)} :
    RunsAll mode subject place i args visits ending →
      (evaluateAll mode subject args).run.Course (answers visits) (Ending.result ending)
  | .nil place i => by
      rw [evaluateAll]
      exact .done _
  | .fails rest first => by
      rw [evaluateAll, course_bind_iff]
      exact .inl ⟨_, first.course, rfl⟩
  | .cons first others => by
      rw [evaluateAll, answers_append, Ending.result_map, course_bind_iff]
      exact .inr ⟨_, _, _, first.course, course_map_iff.mpr ⟨_, others.course, rfl⟩, rfl⟩

end

/-- The courses of an evaluation are those of the runs by the rules. -/
theorem course_iff_runs (place : List Nat) {e : Expr} {result : Except EvalError Value} :
    (e.evaluate mode subject).run.Course answered result ↔
      ∃ visits ending, Runs mode subject place e visits ending ∧ answers visits = answered ∧
        Ending.result ending = result := by
  constructor
  · exact followsRules mode subject e place answered result
  · rintro ⟨visits, ending, runs, rfl, rfl⟩
    exact runs.course

end Expr

end RecordExpr
