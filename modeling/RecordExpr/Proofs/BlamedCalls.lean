import RecordExpr.Proofs.EvaluationOrder

set_option autoImplicit false

namespace RecordExpr

namespace Callee

/-- There is a function of this name, in whatever letter case, and it takes so many arguments. -/
def Accepts (name : String) (given : Nat) : Prop :=
  let lower := String.ofList (name.toList.map Char.toLower)
  (lower = "getfeature" ∨ lower = "if") ∧ given = 3 ∨
    ∃ function, Builtin.named? lower = some function ∧ function.arity.accepts given = true

theorem accepts_iff {name : String} {given : Nat} :
    Accepts name given ↔
      ∃ callee, named? name = some callee ∧ callee.arity.accepts given = true := by
  unfold Accepts named?
  generalize String.ofList (name.toList.map Char.toLower) = lower
  constructor
  · rintro (⟨rfl | rfl, rfl⟩ | ⟨function, named, accepted⟩)
    · exact ⟨.getFeature, rfl, rfl⟩
    · exact ⟨.conditional, rfl, rfl⟩
    · -- no builtin function has one of the two other names
      refine ⟨.builtin function, ?_, accepted⟩
      split
      · cases named
      · cases named
      · rw [named, Option.map_some]
  · rintro ⟨callee, named, accepted⟩
    split at named
    · cases named
      exact .inl ⟨.inl rfl, beq_iff_eq.mp accepted⟩
    · cases named
      exact .inl ⟨.inr rfl, beq_iff_eq.mp accepted⟩
    · obtain ⟨function, found, rfl⟩ := Option.map_eq_some_iff.mp named
      exact .inr ⟨function, found, accepted⟩

end Callee

namespace Refuses

variable {token : Token} {name : String} {args : List Expr} {problem : EvalError}

theorem not_accepts (refuses : Refuses token name args problem) :
    ¬Callee.Accepts name args.length := by
  rw [Callee.accepts_iff]
  rintro ⟨callee, named, accepted⟩
  cases refuses with
  | unknown unnamed =>
      rw [unnamed] at named
      cases named
  | count other refused =>
      rw [other, Option.some.injEq] at named
      rw [named, accepted] at refused
      cases refused

theorem token_eq (refuses : Refuses token name args problem) : problem.token = token := by
  cases refuses <;> rfl

theorem eq_notDefined_iff (refuses : Refuses token name args problem) :
    problem = .notDefined token name ↔ Callee.named? name = none := by
  cases refuses with
  | unknown unnamed => exact ⟨fun _ => unnamed, fun _ => rfl⟩
  | count named refused =>
      rw [named]
      exact ⟨nofun, nofun⟩

theorem eq_wrongArgumentCount (refuses : Refuses token name args problem) {callee : Callee}
    (named : Callee.named? name = some callee) :
    problem = .wrongArgumentCount token name callee.arity.expected args.length := by
  cases refuses with
  | unknown unnamed =>
      rw [unnamed] at named
      cases named
  | count other refused =>
      rw [other, Option.some.injEq] at named
      rw [named]

end Refuses

namespace Expr

/-- The error is about a call in this tree that is wrong in just this way. -/
def Blames (e : Expr) : EvalError → Prop
  | .notDefined token name =>
    ∃ args, call token name args ∈ e.nodes ∧ Callee.named? name = none
  | .wrongArgumentCount token name expected given =>
    ∃ args callee, call token name args ∈ e.nodes ∧ Callee.named? name = some callee ∧
      args.length = given ∧ callee.arity.accepts given = false ∧ callee.arity.expected = expected

theorem FaultAt.blames {e : Expr} {failure : Failure} (fault : e.FaultAt failure) :
    e.Blames failure.problem := by
  obtain ⟨token, name, args, here, refuses⟩ := fault
  have inside := mem_nodes_of_at? here
  cases failure with
  | mk place problem =>
      cases refuses with
      | unknown unnamed => exact ⟨args, inside, unnamed⟩
      | count named refused => exact ⟨args, _, inside, named, rfl, refused, rfl⟩

variable {σ : Type} {answer : Reference → StateM σ (Option Record)} {s : σ} {mode : Mode}
  {subject : Record} {e : Expr} {problem : EvalError}

/-- A failed evaluation is a run that is over at the call to blame. -/
theorem exists_runs_of_failed
    (failed : ((e.evaluate mode subject).run.transcript answer s).2 = .error problem) :
    ∃ place visits, Runs mode subject [] e visits (.error ⟨place, problem⟩) ∧
      (answers visits).map Answered.question =
        ((e.evaluate mode subject).run.transcript answer s).1 := by
  obtain ⟨visits, ending, runs, questions, result⟩ :=
    exists_runs_of_transcript answer s mode subject e
  rw [failed] at result
  obtain ⟨place, rfl⟩ := Ending.eq_error_of_result result
  exact ⟨place, visits, runs, questions⟩

/-- An evaluation that fails blames a call of its tree that is wrong. -/
theorem blames_of_failed
    (failed : ((e.evaluate mode subject).run.run answer s).1 = .error problem) :
    e.Blames problem := by
  rw [← Dialogue.transcript_result] at failed
  obtain ⟨place, visits, runs, -⟩ := exists_runs_of_failed failed
  obtain ⟨-, fault, -⟩ := (runs.ordered rfl).fault _ rfl
  exact fault.blames

end Expr

/-- A tree in which every call names a function, with as many arguments as it takes, has a value.
An evaluation that fails blames a call of the tree for which this is not so, as unknown if and only
if there is no function of its name; and whatever has been asked belongs to lookups that were over
before this call in the order of evaluation. -/
theorem only_refused_calls_fail {σ : Type} (answer : Reference → StateM σ (Option Record)) (s : σ)
    (mode : Mode) (subject : Record) (e : Expr) :
    let run := (e.evaluate mode subject).run.transcript answer s
    (e.EveryCall (fun _ name args => Callee.Accepts name args.length) → ∃ v, run.2 = .ok v) ∧
      ∀ problem, run.2 = .error problem →
        ∃ place token name args visits,
          e.at? place = some (.call token name args) ∧
          ¬Callee.Accepts name args.length ∧
          problem.token = token ∧
          (problem = .notDefined token name ↔ Callee.named? name = none) ∧
          (∀ callee, Callee.named? name = some callee →
            problem = .wrongArgumentCount token name callee.arity.expected args.length) ∧
          Expr.Runs mode subject [] e visits (.error ⟨place, problem⟩) ∧
          (answers visits).map Answered.question = run.1 ∧
          ∀ v ∈ visits, v.answered ≠ none → e.LookupAt v.place ∧ e.Before v.place place := by
  intro run
  have blamed : ∀ problem, run.2 = .error problem → ∃ place visits,
      Expr.Runs mode subject [] e visits (.error ⟨place, problem⟩) ∧
      (answers visits).map Answered.question = run.1 ∧ e.FaultAt ⟨place, problem⟩ := by
    intro problem failed
    obtain ⟨place, visits, runs, questions⟩ := Expr.exists_runs_of_failed failed
    exact ⟨place, visits, runs, questions, ((runs.ordered rfl).fault _ rfl).2.1⟩
  constructor
  · intro calls
    cases ended : run.2 with
    | ok v => exact ⟨v, rfl⟩
    | error problem =>
        obtain ⟨place, visits, -, -, token, name, args, here, refuses⟩ := blamed problem ended
        have accepted := calls token name args (Expr.mem_nodes_of_at? here)
        exact absurd accepted refuses.not_accepts
  · intro problem failed
    obtain ⟨place, visits, runs, questions, token, name, args, here, refuses⟩ :=
      blamed problem failed
    have ordered := runs.ordered rfl
    obtain ⟨-, -, before⟩ := ordered.fault _ rfl
    refine ⟨place, token, name, args, visits, here, refuses.not_accepts, refuses.token_eq,
      refuses.eq_notDefined_iff, fun callee => refuses.eq_wrongArgumentCount, runs, questions, ?_⟩
    intro v visited asked
    exact ⟨ordered.lookups v visited asked, before v visited asked⟩

end RecordExpr
