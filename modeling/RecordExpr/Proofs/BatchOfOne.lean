import RecordExpr.Proofs.DecidableOutcomes
import RecordExpr.Proofs.Interleaving

set_option autoImplicit false

namespace RecordExpr

section Named

variable {α β : Type}

def Round.map (f : α → β) (round : Round α) : Round β :=
  ⟨f round.value, round.pending, round.problems⟩

def Progress.map (f : α → β) (p : Progress α) : Progress β := ⟨p.round.map f, p.rounds⟩

def Outcome.map (f : α → β) (o : Outcome α) : Outcome β :=
  ⟨f o.value, o.rounds, o.problems, o.settled⟩

end Named

/-- A result that has finished stays as it is. -/
theorem Settling.drive_finished {α : Type} {s : Settling α} {wait : Nat → Exchange → Exchange}
    {m n : Nat} (later : m ≤ n) {e after : Exchange} {o : Outcome α}
    (finished : s.drive wait m e = (.finished o, after)) :
    s.drive wait n e = (.finished o, after) := by
  induction later with
  | refl => exact finished
  | step _ ih => rw [Settling.drive, ih]

namespace Environment

variable {env : Environment} {mode : Mode} {subject : Record} {name text : String}

section Rounds

variable {e after : Exchange} {pending : List FetchId}

theorem round_of_ok {v : Value}
    (evaluated : env.evaluate mode subject text (e, []) = (.ok v, (after, pending))) :
    env.round mode subject text e = (⟨mode.wrap v, pending, []⟩, after) := by
  simp only [round, evaluated, Round.ofResult]

theorem round_of_error {problem : ExprError}
    (evaluated : env.evaluate mode subject text (e, []) = (.error problem, (after, pending))) :
    env.round mode subject text e = (⟨mode.neutral, [], [.expression problem]⟩, after) := by
  simp only [round, evaluated, Round.ofResult]

theorem roundAll_of_ok {v : Value}
    (evaluated : env.evaluate mode subject text (e, []) = (.ok v, (after, pending))) :
    env.roundAll mode subject [(name, text)] e = (⟨[(name, mode.wrap v)], pending, []⟩, after) := by
  simp only [roundAll, List.foldl_cons, List.foldl_nil, evaluated, addResult, ByName.place]

/-- A batch waits for what the failed expression has met. -/
theorem roundAll_of_error {problem : ExprError}
    (evaluated : env.evaluate mode subject text (e, []) = (.error problem, (after, pending))) :
    env.roundAll mode subject [(name, text)] e = (⟨[], pending, [.expression problem]⟩, after) := by
  simp only [roundAll, List.foldl_cons, List.foldl_nil, evaluated, addResult, List.nil_append]

end Rounds

variable (env mode subject name text)

/-- How a poll of a batch of one comes out, next to the same poll of the expression alone: as that
one does, or with the round in which the expression failed. -/
inductive InStep :
    Advance Value × Exchange → Advance (List (String × Value)) × Exchange → Prop where
  | waiting (p : Progress Value) (after : Exchange) (clean : p.round.problems = []) :
      InStep (.waiting p, after) (.waiting (p.map fun v => [(name, v)]), after)
  | finished (o : Outcome Value) (after : Exchange)
      (clean : ∀ problem, .expression problem ∉ o.problems) :
      InStep (.finished o, after) (.finished (o.map fun v => [(name, v)]), after)
  | failed {before after : Exchange} {problem : ExprError} {pending : List FetchId} (rounds : Nat)
      (evaluated :
        env.evaluate mode subject text (before, []) = (.error problem, (after, pending))) :
      InStep (.finished ⟨mode.neutral, rounds, [.expression problem], true⟩, after)
        (Progress.advance (env.roundAll mode subject [(name, text)]) env.settings.maxRounds
          ⟨⟨[], pending, [.expression problem]⟩, rounds⟩ after)

variable {env mode subject name text}

/-- Both go on in step from a round that they make in step, if they do so from one in which the
expression did not fail. -/
theorem inStep_round (rounds : Nat) (e : Exchange)
    (goes_on : (env.round mode subject text e).1.problems = [] →
      InStep env mode subject name text
        (Progress.advance (env.round mode subject text) env.settings.maxRounds
          ⟨(env.round mode subject text e).1, rounds⟩ (env.round mode subject text e).2)
        (Progress.advance (env.roundAll mode subject [(name, text)]) env.settings.maxRounds
          (Progress.map (fun v => [(name, v)]) ⟨(env.round mode subject text e).1, rounds⟩)
          (env.round mode subject text e).2)) :
    InStep env mode subject name text
      (Progress.advance (env.round mode subject text) env.settings.maxRounds
        ⟨(env.round mode subject text e).1, rounds⟩ (env.round mode subject text e).2)
      (Progress.advance (env.roundAll mode subject [(name, text)]) env.settings.maxRounds
        ⟨(env.roundAll mode subject [(name, text)] e).1, rounds⟩
        (env.roundAll mode subject [(name, text)] e).2) := by
  rcases evaluated : env.evaluate mode subject text (e, []) with ⟨result, after, pending⟩
  cases result with
  | ok v =>
      rw [round_of_ok evaluated] at goes_on ⊢
      rw [roundAll_of_ok evaluated]
      exact goes_on rfl
  | error problem =>
      rw [round_of_error evaluated, roundAll_of_error evaluated, Progress.advance_of_settled rfl]
      exact .failed rounds evaluated

/-- Both go on in step from a round in which the expression did not fail. -/
theorem inStep_advance {p : Progress Value} (clean : p.round.problems = []) (e : Exchange) :
    InStep env mode subject name text
      (p.advance (env.round mode subject text) env.settings.maxRounds e)
      ((p.map fun v => [(name, v)]).advance (env.roundAll mode subject [(name, text)])
        env.settings.maxRounds e) := by
  fun_induction Progress.advance (env.round mode subject text) env.settings.maxRounds p e with
  | case1 p e complete =>
      have settled : (p.map fun v => [(name, v)]).round.pending = [] :=
        List.isEmpty_iff.mp complete
      rw [Progress.advance_of_settled settled]
      refine .finished p.outcome e ?_
      simp only [Progress.outcome, clean, List.not_mem_nil, not_false_eq_true, implies_true]
  | case2 p e waits last =>
      have unsettled : (p.map fun v => [(name, v)]).round.pending ≠ [] :=
        fun none => waits (List.isEmpty_iff.mpr none)
      rw [Progress.advance_of_last unsettled last]
      refine .finished p.outOfRounds e ?_
      simp [Progress.outOfRounds, clean]
  | case3 p e waits below ready round next passed ih =>
      have unsettled : (p.map fun v => [(name, v)]).round.pending ≠ [] :=
        fun none => waits (List.isEmpty_iff.mpr none)
      rw [Progress.advance_of_ready unsettled (Nat.lt_of_not_le below) ready]
      have made := @inStep_round env mode subject name text (p.rounds + 1) e
      rw [passed] at made
      exact made ih
  | case4 p e waits below unready =>
      have unsettled : (p.map fun v => [(name, v)]).round.pending ≠ [] :=
        fun none => waits (List.isEmpty_iff.mpr none)
      rw [Progress.advance_of_unready unsettled (Nat.lt_of_not_le below) unready]
      exact .waiting p e clean

/-- Polled side by side, with the same happening to the exchange in between, both stay in step until
the expression fails. -/
theorem inStep_drive (wait : Nat → Exchange → Exchange) (n : Nat) (e : Exchange) :
    ∃ m ≤ n, (env.single mode subject text).drive wait m e =
        (env.single mode subject text).drive wait n e ∧
      InStep env mode subject name text ((env.single mode subject text).drive wait n e)
        ((env.batch mode subject [(name, text)]).drive wait m e) ∧
      (m = n ∨ ∃ o after problem, (env.single mode subject text).drive wait n e =
        (.finished o, after) ∧ .expression problem ∈ o.problems) := by
  induction n with
  | zero =>
      refine ⟨0, Nat.le_refl 0, rfl, ?_, .inl rfl⟩
      exact inStep_round 1 e fun clean => inStep_advance clean _
  | succ n ih =>
      obtain ⟨m, early, alone, step, last⟩ := ih
      rcases last with rfl | ⟨o, after, problem, finished, failed⟩
      · generalize one : (env.single mode subject text).drive wait m e = a at step
        generalize all : (env.batch mode subject [(name, text)]).drive wait m e = b at step
        cases step with
        | waiting p after clean =>
            refine ⟨m + 1, Nat.le_refl _, rfl, ?_, .inl rfl⟩
            rw [Settling.drive, Settling.drive, one, all]
            exact inStep_advance clean _
        | finished o after clean =>
            refine ⟨m + 1, Nat.le_refl _, rfl, ?_, .inl rfl⟩
            rw [Settling.drive, Settling.drive, one, all]
            exact .finished o after clean
        | failed rounds evaluated =>
            have stays := Settling.drive_finished (Nat.le_succ m) one
            refine ⟨m, Nat.le_succ m, one.trans stays.symm, ?_, ?_⟩
            · rw [stays, all]
              exact .failed rounds evaluated
            · exact .inr ⟨_, _, _, stays, List.mem_singleton_self _⟩
      · have stays := Settling.drive_finished (Nat.le_succ n) finished
        refine ⟨m, Nat.le_succ_of_le early, alone.trans (finished.trans stays.symm), ?_, ?_⟩
        · rwa [stays, ← finished]
        · exact .inr ⟨o, after, problem, stays, failed⟩

/-- A batch of one expression next to the expression alone, polled side by side: they wait and
finish together, with the same rounds, problems and flag and with the value under its name, unless
the expression fails. Alone it ends with that round. The batch makes the same round, in which the
name has no value, and ends with it too if the round met nothing to wait for; otherwise it waits for
that and goes on, or is out of rounds. -/
theorem batch_of_one (env : Environment) (mode : Mode) (subject : Record) (name text : String)
    (wait : Nat → Exchange → Exchange) (n : Nat) (e : Exchange) :
    let single := env.single mode subject text
    let batch := env.batch mode subject [(name, text)]
    (∀ p after, single.drive wait n e = (.waiting p, after) →
        batch.drive wait n e = (.waiting (p.map fun v => [(name, v)]), after)) ∧
      (∀ o after, single.drive wait n e = (.finished o, after) →
        (∀ problem, .expression problem ∉ o.problems) →
          batch.drive wait n e = (.finished (o.map fun v => [(name, v)]), after)) ∧
      ∀ o after problem, single.drive wait n e = (.finished o, after) →
        .expression problem ∈ o.problems →
          o = ⟨mode.neutral, o.rounds, [.expression problem], true⟩ ∧
          ∃ before pending,
            env.evaluate mode subject text (before, []) = (.error problem, (after, pending)) ∧
            (∃ m ≤ n, single.drive wait m e = (.finished o, after) ∧
              batch.drive wait m e =
                Progress.advance batch.pass batch.limit ⟨⟨[], pending, o.problems⟩, o.rounds⟩
                  after) ∧
            (pending = [] →
              batch.drive wait n e = (.finished ⟨[], o.rounds, o.problems, true⟩, after)) ∧
            (pending ≠ [] → env.settings.maxRounds ≤ o.rounds →
              batch.drive wait n e = (.finished
                ⟨[], o.rounds, o.problems ++ [.roundLimit o.rounds], false⟩, after)) := by
  intro single batch
  obtain ⟨m, early, alone, step, last⟩ := @inStep_drive env mode subject name text wait n e
  generalize all : (env.batch mode subject [(name, text)]).drive wait m e = b at step
  refine ⟨?_, ?_, ?_⟩
  · intro p after waits
    rw [waits] at step last
    rcases last with rfl | ⟨o, _, _, finished, _⟩
    · cases step
      exact all
    · cases finished
  · intro o after finished clean
    rw [finished] at step last
    rcases last with rfl | ⟨o, _, problem, same, failed⟩
    · cases step with
      | finished => exact all
      | failed => exact absurd (List.mem_singleton_self _) (clean _)
    · cases same
      exact absurd failed (clean problem)
  · intro o after problem finished failed
    rw [finished] at step alone
    cases step with
    | finished _ _ clean => exact absurd failed (clean problem)
    | @failed before _ _ pending rounds evaluated =>
        obtain rfl : problem = _ := Problem.expression.inj (List.mem_singleton.mp failed)
        refine ⟨rfl, before, pending, evaluated, ⟨m, early, alone, all⟩, ?_, ?_⟩
        · rintro rfl
          rw [Progress.advance_of_settled rfl] at all
          exact Settling.drive_finished early all
        · intro waits spent
          rw [Progress.advance_of_last waits spent] at all
          exact Settling.drive_finished early all

/-- Fails for as long as the parcel is unknown. -/
def parcelOrFail : String := "if(getFeature('parcels', 'id', '42'), 'known', nope())"

/-- Every request is answered at once, with the same record. -/
def answeringEnvironment : Environment :=
  ⟨fun _ _ => .answer [Record.ofList [("area", .string "150")]], {}⟩

/-- The failure that ends the expression alone is not what the batch reports. -/
theorem batch_of_one_outlasts_failure :
    ¬ ∀ (env : Environment) (mode : Mode) (subject : Record) (name text : String)
      (wait : Nat → Exchange → Exchange) (n m : Nat) (e after next : Exchange) (o : Outcome Value)
      (b : Outcome (List (String × Value))), 1 ≤ env.settings.maxRounds →
      (env.single mode subject text).drive wait n e = (.finished o, after) →
      (env.batch mode subject [(name, text)]).drive wait m e = (.finished b, next) →
      b.rounds = o.rounds ∧ b.settled = o.settled ∧ b.problems = o.problems := by
  intro agrees
  have alone : ((answeringEnvironment.single .value .empty parcelOrFail).drive
      (fun _ e => e) 0 {}).1 = .finished ⟨.null, 1,
        [.expression ⟨.eval (.notDefined ⟨.word "nope", ⟨⟨1, 48⟩, ⟨1, 52⟩⟩⟩ "nope"), parcelOrFail⟩],
        true⟩ := by
    decide +kernel
  have together : ((answeringEnvironment.batch .value .empty [("x", parcelOrFail)]).drive
      (fun _ e => e) 0 {}).1 = .finished ⟨[("x", .string "known")], 2, [], true⟩ := by
    decide +kernel
  have same := agrees answeringEnvironment .value .empty "x" parcelOrFail (fun _ e => e) 0 0 {}
    _ _ _ _ (by decide) (Prod.ext alone rfl) (Prod.ext together rfl)
  exact absurd same.1 (by decide)

end Environment

end RecordExpr
