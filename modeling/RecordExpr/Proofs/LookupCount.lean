import RecordExpr.Proofs.DependencyDepth
import RecordExpr.Proofs.Nodes

set_option autoImplicit false

namespace RecordExpr

namespace Dialogue

variable {α β : Type} {n m : Nat}

/-- However its questions are answered, the dialogue asks no more than `n` of them. -/
inductive AsksAtMost : Nat → Dialogue α → Prop where
  | done (n : Nat) (result : α) : AsksAtMost n (.done result)
  | ask {n : Nat} {question : Reference} {next : Option Record → Dialogue α}
      (rest : ∀ answer, AsksAtMost n (next answer)) : AsksAtMost (n + 1) (.ask question next)

theorem AsksAtMost.mono {d : Dialogue α} (asks : AsksAtMost n d) (more : n ≤ m) :
    AsksAtMost m d := by
  induction asks generalizing m with
  | done n result => exact .done m result
  | ask rest ih =>
      obtain ⟨k, rfl⟩ := Nat.exists_eq_add_of_le' more
      apply AsksAtMost.ask
      intro answer
      exact ih answer (Nat.le_add_left _ k)

/-- One after the other: the questions add up. -/
theorem AsksAtMost.bind {d : Dialogue α} {f : α → Dialogue β} (first : AsksAtMost n d)
    (second : ∀ a, AsksAtMost m (f a)) : AsksAtMost (n + m) (d.bind f) := by
  induction first with
  | done n result => exact (second result).mono (Nat.le_add_left m n)
  | @ask n question next rest ih =>
      rw [Nat.add_right_comm]
      exact .ask ih

variable {c before after : Cache}

/-- The cache has results for the first `n` questions of the dialogue in a row, or up to its end. -/
inductive Known (c : Cache) : Nat → Dialogue α → Prop where
  | start (d : Dialogue α) : Known c 0 d
  | done (n : Nat) (result : α) : Known c n (.done result)
  | ask {n : Nat} {question : Reference} {next : Option Record → Dialogue α}
      {found : Option Record}
      (known : c.slot? (LookupKey.ofReference question) = some (.resolved found))
      (rest : Known c n (next found)) : Known c (n + 1) (.ask question next)

/-- A pass asks everything that was known again and is told the same, and its next question is known
after it, whether it succeeds or not. -/
theorem Known.pass {d : Dialogue α} {result : α} (known : Known before n d)
    (through : Pass before after d result) (grows : before.Grows after) :
    Known after (n + 1) d := by
  induction known with
  | start d =>
      cases through with
      | done => exact .done 1 result
      | ask told later rest => exact .ask later (.start _)
  | done n result => exact .done (n + 1) result
  | ask found _ ih =>
      cases through with
      | ask told later rest =>
          rw [told _ found] at rest
          exact .ask (grows.resolved found) (ih rest)

/-- A dialogue that asks no more than is known is final. -/
theorem Known.final {d : Dialogue α} (known : Known c n d) (asks : AsksAtMost n d) :
    ∃ result, Final c d result := by
  induction known with
  | start d =>
      cases asks with
      | done _ result => exact ⟨result, .done result⟩
  | done n result => exact ⟨result, .done result⟩
  | ask found _ ih =>
      cases asks with
      | ask rest =>
          obtain ⟨result, final⟩ := ih (rest _)
          exact ⟨result, .ask found final⟩

end Dialogue

namespace Evaluation

variable {α β : Type} {n m : Nat}

/-- However its questions are answered, the evaluation asks no more than `n` of them. -/
def AsksAtMost (n : Nat) (x : Evaluation α) : Prop := Dialogue.AsksAtMost n x.run

theorem AsksAtMost.of_pure (n : Nat) (a : α) : AsksAtMost n (pure a : Evaluation α) := .done n _

theorem AsksAtMost.of_throw (n : Nat) (e : EvalError) :
    AsksAtMost n (throw e : Evaluation α) := .done n _

theorem AsksAtMost.mono {x : Evaluation α} (asks : AsksAtMost n x) (more : n ≤ m) :
    AsksAtMost m x := Dialogue.AsksAtMost.mono asks more

theorem AsksAtMost.then {x : Evaluation α} {f : α → Evaluation β} (first : AsksAtMost n x)
    (second : ∀ a, AsksAtMost m (f a)) : AsksAtMost (n + m) (x >>= f) := by
  unfold AsksAtMost at *
  rw [run_bind]
  apply first.bind
  intro result
  cases result with
  | ok a => exact second a
  | error e => exact .done m _

theorem AsksAtMost.map {x : Evaluation α} (asks : AsksAtMost n x) (f : α → β) :
    AsksAtMost n (do return f (← x)) :=
  asks.then fun a => .of_pure 0 (f a)

theorem asksAtMost_getFeature (args : List Value) : AsksAtMost 1 (getFeature args) := by
  unfold getFeature
  split
  · split
    · exact .of_pure 1 Value.null
    · apply AsksAtMost.map
      exact .ask fun answer => .done 0 _
  · exact .of_pure 1 Value.null

end Evaluation

namespace Expr

open Evaluation

variable {mode : Mode} {subject : Record}

theorem asksAtMost_evaluateAll {args : List Expr}
    (each : ∀ arg ∈ args, (arg.evaluate mode subject).AsksAtMost arg.lookups) :
    (evaluateAll mode subject args).AsksAtMost (lookupsAll args) := by
  induction args with
  | nil =>
      rw [evaluateAll]
      exact .of_pure _ []
  | cons first rest ih =>
      obtain ⟨here, later⟩ := List.forall_mem_cons.mp each
      rw [evaluateAll, lookupsAll_cons]
      exact here.then fun v => (ih later).map fun vs => v :: vs

/-- Only one branch is evaluated; both are counted. -/
theorem asksAtMost_evaluateChoice {args : List Expr}
    (each : ∀ arg ∈ args, (arg.evaluate mode subject).AsksAtMost arg.lookups) :
    (evaluateChoice mode subject args).AsksAtMost (lookupsAll args) := by
  unfold evaluateChoice
  split
  · rename_i condition thenBranch elseBranch
    simp only [List.forall_mem_cons] at each
    obtain ⟨decides, first, second, -⟩ := each
    simp only [lookupsAll_cons]
    apply decides.then
    intro v
    split
    · exact first.mono (Nat.le_add_right _ _)
    · exact second.mono (show _ ≤ _ by omega)
  · exact .of_pure _ Value.null

theorem asksAtMost_call {name : String} {args : List Expr}
    (each : ∀ arg ∈ args, (arg.evaluate mode subject).AsksAtMost arg.lookups) (token : Token) :
    ((call token name args).evaluate mode subject).AsksAtMost (call token name args).lookups := by
  have below : lookupsAll args ≤ (call token name args).lookups := by
    rw [lookups_eq]
    exact Nat.le_add_right _ _
  rw [evaluate]
  cases named : Callee.named? name with
  | none => exact .of_throw _ _
  | some callee =>
      simp only
      split
      · cases callee with
        | getFeature =>
            have counted : (call token name args).lookups = lookupsAll args + 1 := by
              rw [lookups_eq, isLookup, named]
              rfl
            rw [counted]
            exact (asksAtMost_evaluateAll each).then asksAtMost_getFeature
        | conditional => exact (asksAtMost_evaluateChoice each).mono below
        | builtin function => exact ((asksAtMost_evaluateAll each).map function.apply).mono below
      · exact .of_throw _ _

/-- An evaluation asks no more questions than its tree has lookups. -/
theorem asksAtMost_lookups (mode : Mode) (subject : Record) (e : Expr) :
    (e.evaluate mode subject).AsksAtMost e.lookups := by
  induction e using tree_induction with
  | literal token l =>
      rw [evaluate]
      exact .of_pure _ l.value
  | field token name =>
      rw [evaluate]
      exact .of_pure _ _
  | member token target name ih =>
      rw [evaluate, lookups_eq, children, lookupsAll_cons]
      exact ih.map fun v => v.get name
  | call token name args ih => exact asksAtMost_call ih token
  | unary token op operand ih =>
      rw [evaluate, lookups_eq, children, lookupsAll_cons]
      exact ih.map fun v => Value.unary mode op v
  | binary token op lhs rhs left right =>
      have total : (binary token op lhs rhs).lookups = lhs.lookups + rhs.lookups := by
        rw [lookups_eq, children, lookupsAll_cons, lookupsAll_cons]
        rfl
      rw [total]
      unfold evaluate
      split
      · rename_i relation _ name
        have second := right.map fun v => Value.filter (.compare name relation v)
        exact second.mono (Nat.le_add_left _ _)
      · exact left.then fun v => right.map fun w => Value.binary op v w

end Expr

end RecordExpr
