import RecordExpr.Proofs.DirectEvaluation

set_option autoImplicit false

namespace RecordExpr

variable {ans : LookupKey → List Record}

namespace Environment

/-- The value that a text has when it is evaluated directly, as a batch reports it. -/
def directValue? (env : Environment) (ans : LookupKey → List Record) (mode : Mode)
    (subject : Record) (text : String) : Option Value :=
  (env.direct ans mode subject text).toOption.map mode.wrap

/-- The problem that a text has when it is evaluated directly. -/
def directProblem? (env : Environment) (ans : LookupKey → List Record) (mode : Mode)
    (subject : Record) (text : String) : Option Problem :=
  match env.direct ans mode subject text with
  | .ok _ => none
  | .error problem => some (.expression problem)

/-- Adds what several expressions give, one after the other, when they are evaluated directly. -/
def addDirect (env : Environment) (ans : LookupKey → List Record) (mode : Mode) (subject : Record)
    (exprs : List (String × String)) (round : Round (List (String × Value))) :
    Round (List (String × Value)) :=
  exprs.foldl
    (fun round expr => addResult mode expr.1 round (env.direct ans mode subject expr.2)) round

variable {env : Environment} {others : Exchange → Exchange → Prop} {mode : Mode} {subject : Record}

@[simp] theorem pending_addResult (name : String) (round : Round (List (String × Value)))
    (result : Except ExprError Value) :
    (addResult mode name round result).pending = round.pending := by
  cases result <;> rfl

theorem problems_addResult (name text : String) (round : Round (List (String × Value))) :
    (addResult mode name round (env.direct ans mode subject text)).problems =
      round.problems ++ (env.directProblem? ans mode subject text).toList := by
  unfold directProblem?
  cases env.direct ans mode subject text with
  | ok v => exact (List.append_nil _).symm
  | error problem => rfl

/-- A value replaces an earlier one of its name; a failure replaces nothing. -/
theorem lookup_addResult (name text other : String) (round : Round (List (String × Value))) :
    (addResult mode name round (env.direct ans mode subject text)).value.lookup other =
      (if name = other then env.directValue? ans mode subject text else none).or
        (round.value.lookup other) := by
  unfold directValue?
  cases env.direct ans mode subject text with
  | ok v =>
      simp only [addResult, ByName.lookup_place]
      by_cases here : name = other
      · rw [if_pos here, if_pos here.symm]
        rfl
      · rw [if_neg here, if_neg (Ne.symm here)]
        rfl
  | error problem =>
      have nothing : (if name = other then (none : Option Value) else none) = none := ite_self _
      exact congrArg (·.or (round.value.lookup other)) nothing.symm

theorem ordered_addResult (name : String) {round : Round (List (String × Value))}
    (ordered : ByName.Ordered round.value) (result : Except ExprError Value) :
    ByName.Ordered (addResult mode name round result).value := by
  cases result with
  | ok v => exact ByName.ordered_place name _ ordered
  | error problem => exact ordered

theorem addDirect_cons (expr : String × String) (rest : List (String × String))
    (round : Round (List (String × Value))) :
    env.addDirect ans mode subject (expr :: rest) round =
      env.addDirect ans mode subject rest
        (addResult mode expr.1 round (env.direct ans mode subject expr.2)) := rfl

theorem problems_addDirect (exprs : List (String × String))
    (round : Round (List (String × Value))) :
    (env.addDirect ans mode subject exprs round).problems =
      round.problems ++ exprs.filterMap fun expr => env.directProblem? ans mode subject expr.2 := by
  induction exprs generalizing round with
  | nil => exact (List.append_nil _).symm
  | cons expr rest ih =>
      rw [addDirect_cons, ih, problems_addResult, List.append_assoc, List.filterMap_cons]
      cases env.directProblem? ans mode subject expr.2 <;> rfl

/-- Under a name stands the last value that an expression of this name has. -/
theorem lookup_addDirect (exprs : List (String × String)) (name : String)
    (round : Round (List (String × Value))) :
    (env.addDirect ans mode subject exprs round).value.lookup name =
      ((exprs.filter fun expr => expr.1 = name).filterMap fun expr =>
        env.directValue? ans mode subject expr.2).getLast?.or (round.value.lookup name) := by
  induction exprs generalizing round with
  | nil => rfl
  | cons expr rest ih =>
      rw [addDirect_cons, ih, lookup_addResult, ← Option.or_assoc]
      congr 1
      by_cases here : expr.1 = name
      · rw [if_pos here, List.filter_cons_of_pos (by simpa using here), List.filterMap_cons]
        cases env.directValue? ans mode subject expr.2 with
        | none => exact Option.or_none
        | some v =>
            rw [List.getLast?_cons]
            generalize List.getLast? _ = last
            cases last <;> rfl
      · rw [if_neg here, List.filter_cons_of_neg (by simpa using here), Option.or_none]

theorem ordered_addDirect (exprs : List (String × String)) {round : Round (List (String × Value))}
    (ordered : ByName.Ordered round.value) :
    ByName.Ordered (env.addDirect ans mode subject exprs round).value := by
  induction exprs generalizing round with
  | nil => exact ordered
  | cons expr rest ih => exact ih (ordered_addResult expr.1 ordered _)

theorem AnswersAll.knows (follows : env.Follows ans)
    (acts : ∀ e after, others e after → e.cache.Knows ans → after.cache.Knows ans)
    {exprs : List (String × String)} {round last : Round (List (String × Value))}
    {e after : Exchange} (answers : env.AnswersAll others mode subject exprs round e last after)
    (knows : e.cache.Knows ans) : after.cache.Knows ans := by
  induction answers with
  | done => exact knows
  | next evaluated _ ih => exact ih (evaluated.knows follows acts knows)

/-- Fetches to wait for are only ever added, also by an expression that fails. -/
theorem AnswersAll.pending_prefix {exprs : List (String × String)}
    {round last : Round (List (String × Value))} {e after : Exchange}
    (answers : env.AnswersAll others mode subject exprs round e last after) :
    round.pending <+: last.pending := by
  induction answers with
  | done => exact List.prefix_refl _
  | @next _ _ _ round _ _ _ _ pending result evaluated _ ih =>
      have grown : round.pending <+: pending := evaluated.pending_prefix
      rw [pending_addResult] at ih
      exact grown.trans ih

/-- Expressions that leave nothing to wait for give what they give directly. -/
theorem AnswersAll.eq_direct (attach : env.settings.pendingPolicy = .attach)
    (follows : env.Follows ans)
    (acts : ∀ e after, others e after → e.cache.Knows ans → after.cache.Knows ans)
    {exprs : List (String × String)} {round last : Round (List (String × Value))}
    {e after : Exchange} (answers : env.AnswersAll others mode subject exprs round e last after)
    (knows : e.cache.Knows ans) (complete : last.pending = []) :
    last = env.addDirect ans mode subject exprs round := by
  induction answers with
  | done => rfl
  | @next name text rest round last e between after pending result evaluated others_follow ih =>
      have none_later := others_follow.pending_prefix
      rw [pending_addResult, complete] at none_later
      have none_so_far : pending = [] := List.prefix_nil.mp none_later
      have none_before : round.pending = [] :=
        List.prefix_nil.mp (none_so_far ▸ evaluated.pending_prefix)
      have same : result = env.direct ans mode subject text :=
        evaluated.result_eq_direct attach follows acts knows none_so_far
      have unchanged : { round with pending := pending } = round := by
        rw [none_so_far, ← none_before]
      rw [ih (evaluated.knows follows acts knows) complete, unchanged, same, addDirect_cons]

/-- Where every source answers by a fixed function of the key, a batch that has settled reports
under each name the value of direct evaluation of the last expression of that name that has one, and
as problems those of the expressions that fail, in their order. Meanwhile others may look up,
answer, drop and clear in any order. -/
theorem settled_batch_eq_direct (attach : env.settings.pendingPolicy = .attach)
    (follows : env.Follows ans) (mode : Mode) (subject : Record) (exprs : List (String × String))
    {e after : Exchange} (before : Exchange.Reaches (Action.Follows ans) {} e)
    {o : Outcome (List (String × Value))}
    (reports : Reports (Exchange.Reaches (Action.Follows ans))
      (env.RoundAllAmong (Exchange.Reaches (Action.Follows ans)) mode subject exprs)
      env.settings.maxRounds e o after)
    (settled : o.settled = true) :
    ByName.Ordered o.value ∧
      (∀ name, o.value.lookup name =
        ((exprs.filter fun expr => expr.1 = name).filterMap fun expr =>
          env.directValue? ans mode subject expr.2).getLast?) ∧
      o.problems = exprs.filterMap fun expr => env.directProblem? ans mode subject expr.2 := by
  have acts : ∀ e after, Exchange.Reaches (Action.Follows ans) e after → e.cache.Knows ans →
      after.cache.Knows ans := fun _ _ => Exchange.Reaches.knows
  have begins : e.cache.Knows ans := before.knows (Cache.knows_clear {})
  have rounds : ∀ e round after, env.RoundAllAmong (Exchange.Reaches (Action.Follows ans)) mode
      subject exprs e round after → e.cache.Knows ans → after.cache.Knows ans :=
    fun _ _ _ made => made.knows follows acts
  obtain ⟨start, next, round, count, knows, made, complete, rfl⟩ :=
    reports.last_round acts rounds settled begins
  have direct : round = env.addDirect ans mode subject exprs ⟨[], [], []⟩ :=
    made.eq_direct attach follows acts knows complete
  simp only [Progress.outcome]
  refine ⟨?_, ?_, ?_⟩
  · rw [direct]
    exact ordered_addDirect exprs List.Pairwise.nil
  · intro name
    rw [direct, lookup_addDirect]
    exact Option.or_none
  · rw [direct, problems_addDirect]
    exact List.nil_append _

/-- Two expressions of one name, the second of which fails, and one that has no value at all. -/
def parcelExprs : List (String × String) :=
  [("area", parcelArea), ("zone", "zones()"), ("area", "area()")]

/-- The call of a function that is not known, as the whole of a text. -/
def unknownCall (name : String) (stop : Nat) : Problem :=
  .expression ⟨.eval (.notDefined ⟨.word name, ⟨⟨1, 1⟩, ⟨1, stop⟩⟩⟩ name), name ++ "()"⟩

theorem parcel_batch_eq_direct :
    ((parcelEnvironment.batch .value .empty parcelExprs).drive answerParcel 1 {}).1 =
        .finished ⟨[("area", .string "150")], 2, [unknownCall "zones" 6, unknownCall "area" 5],
          true⟩ ∧
      ((parcelExprs.filter fun expr => expr.1 = "area").filterMap fun expr =>
        parcelEnvironment.directValue? parcelAnswers .value .empty expr.2).getLast? =
          some (.string "150") ∧
      (parcelExprs.filterMap fun expr =>
        parcelEnvironment.directProblem? parcelAnswers .value .empty expr.2) =
          [unknownCall "zones" 6, unknownCall "area" 5] := by
  have finished : ((parcelEnvironment.batch .value .empty parcelExprs).drive answerParcel 1 {}).1 =
      .finished ⟨[("area", .string "150")], 2, [unknownCall "zones" 6, unknownCall "area" 5],
        true⟩ := by
    decide +kernel
  have idle := Exchange.Reaches.refl (Action.Follows parcelAnswers)
  have reports := reports_of_drive idle (fun _ _ _ => .trans) rfl
    (parcelEnvironment.roundAllAmong_round idle .value .empty parcelExprs) reaches_answerParcel
    (Prod.ext finished rfl)
  have direct := settled_batch_eq_direct rfl parcelEnvironment_follows .value .empty parcelExprs
    (idle {}) reports rfl
  refine ⟨finished, ?_, direct.2.2.symm⟩
  exact (direct.2.1 "area").symm

end Environment

end RecordExpr
