import RecordExpr.Proofs.History
import RecordExpr.Settle.Settling

set_option autoImplicit false

namespace RecordExpr

namespace Exchange

/-- Actions of an allowed kind lead from one exchange to the other. -/
def Reaches (allowed : Action → Prop) (e after : Exchange) : Prop :=
  ∃ actions : List Action, (∀ a ∈ actions, allowed a) ∧ actions.foldl perform e = after

variable {allowed : Action → Prop} {e between after : Exchange}

theorem Reaches.refl (allowed : Action → Prop) (e : Exchange) : Reaches allowed e e :=
  ⟨[], nofun, rfl⟩

theorem Reaches.single {a : Action} (fine : allowed a) (e : Exchange) :
    Reaches allowed e (e.perform a) :=
  ⟨[a], by simpa using fine, rfl⟩

theorem Reaches.trans (first : Reaches allowed e between) (second : Reaches allowed between after) :
    Reaches allowed e after := by
  obtain ⟨actions, fine, rfl⟩ := first
  obtain ⟨more, fineMore, rfl⟩ := second
  refine ⟨actions ++ more, ?_, List.foldl_append⟩
  intro a member
  rcases List.mem_append.mp member with early | late
  · exact fine a early
  · exact fineMore a late

/-- What every allowed action keeps, all of them together keep. -/
theorem Reaches.keeps {P : Exchange → Prop} (step : ∀ e a, allowed a → P e → P (e.perform a))
    (reaches : Reaches allowed e after) (holds : P e) : P after := by
  obtain ⟨actions, fine, rfl⟩ := reaches
  induction actions generalizing e with
  | nil => exact holds
  | cons first rest ih =>
      exact ih (step e first (fine first List.mem_cons_self) holds)
        fun a member => fine a (List.mem_cons_of_mem _ member)

/-- What has finished stays finished. -/
theorem isReady_perform {fetch : FetchId} (ready : e.cache.isReady fetch = true) (a : Action) :
    (e.perform a).cache.isReady fetch = true := by
  rw [Cache.isReady_iff] at ready ⊢
  cases a with
  | resolve source settings r =>
      cases seen : e.cache.slot? (LookupKey.ofReference r) with
      | some slot =>
          cases slot with
          | resolved found => rwa [perform, resolve_resolved seen]
          | pending other => rwa [perform, resolve_pending seen]
      | none =>
          rw [perform, resolve_unknown seen]
          unfold submit
          cases source e.received (requestFor settings r) with
          | answer records => simpa using .inr ready
          | answerLater records => simpa using ready
          | drop => simpa using .inr ready
          | hold => simpa using ready
  | answer t records =>
      rw [perform]
      split
      · simpa using .inr ready
      · exact ready
  | drop t =>
      rw [perform]
      split
      · simpa using .inr ready
      · exact ready
  | clear => exact ready

theorem Reaches.isReady (reaches : Reaches allowed e after) {fetch : FetchId}
    (ready : e.cache.isReady fetch = true) : after.cache.isReady fetch = true :=
  Reaches.keeps (P := fun x => x.cache.isReady fetch = true)
    (fun _ a _ ready => isReady_perform ready a) reaches ready

end Exchange

/-- How a dialogue can go whose questions are answered from an exchange, with the fetches to wait
for noted beside it. Others may act on the exchange before each question. -/
inductive Environment.Answers (env : Environment) (others : Exchange → Exchange → Prop) {α : Type} :
    Dialogue α → Exchange × List FetchId → α → Exchange × List FetchId → Prop where
  | done (result : α) (state : Exchange × List FetchId) :
      Answers env others (.done result) state result state
  | ask {question : Reference} {next : Option Record → Dialogue α} {e between : Exchange}
      {pending : List FetchId} {result : α} {after : Exchange × List FetchId}
      (acted : others e between)
      (rest : Answers env others (next (env.answer question (between, pending)).1)
        (env.answer question (between, pending)).2 result after) :
      Answers env others (.ask question next) (e, pending) result after

/-- Fetches to wait for are only ever added. -/
theorem Environment.Answers.pending_prefix {env : Environment}
    {others : Exchange → Exchange → Prop} {α : Type} {d : Dialogue α}
    {state after : Exchange × List FetchId} {result : α}
    (answers : env.Answers others d state result after) : state.2 <+: after.2 := by
  induction answers with
  | done => exact List.prefix_refl _
  | @ask question next e between pending result after acted rest ih =>
      exact (List.prefix_append pending _).trans ih

/-- How a round of one expression can go among others. -/
def Environment.RoundAmong (env : Environment) (others : Exchange → Exchange → Prop) (mode : Mode)
    (subject : Record) (text : String) (e : Exchange) (round : Round Value) (after : Exchange) :
    Prop :=
  ∃ result pending,
    env.Answers others (Expr.evaluateText mode subject (env.settings.newlines.normalize text))
      (e, []) result (after, pending) ∧
    round = Round.ofResult mode pending result

/-- Evaluates several expressions one after the other, from a round to which the results so far
belong. -/
def Environment.continueAll (env : Environment) (mode : Mode) (subject : Record) :
    List (String × String) → Round (List (String × Value)) × Exchange →
      Round (List (String × Value)) × Exchange
  | [], state => state
  | (name, text) :: rest, (round, e) =>
    let evaluated := env.evaluate mode subject text (e, round.pending)
    env.continueAll mode subject rest
      (addResult mode name { round with pending := evaluated.2.2 } evaluated.1, evaluated.2.1)

theorem Environment.roundAll_eq (env : Environment) (mode : Mode) (subject : Record)
    (exprs : List (String × String)) (e : Exchange) :
    env.roundAll mode subject exprs e = env.continueAll mode subject exprs (⟨[], [], []⟩, e) := by
  unfold Environment.roundAll
  generalize (⟨[], [], []⟩ : Round (List (String × Value))) = round
  induction exprs generalizing round e with
  | nil => rfl
  | cons expr rest ih => exact ih _ _

/-- How several expressions can be evaluated one after the other among others, from a round to which
the results so far belong. -/
inductive Environment.AnswersAll (env : Environment) (others : Exchange → Exchange → Prop)
    (mode : Mode) (subject : Record) :
    List (String × String) → Round (List (String × Value)) → Exchange →
      Round (List (String × Value)) → Exchange → Prop where
  | done (round : Round (List (String × Value))) (e : Exchange) :
      AnswersAll env others mode subject [] round e round e
  | next {name text : String} {rest : List (String × String)}
      {round last : Round (List (String × Value))} {e between after : Exchange}
      {pending : List FetchId} {result : Except ExprError Value}
      (answers : env.Answers others
        (Expr.evaluateText mode subject (env.settings.newlines.normalize text))
        (e, round.pending) result (between, pending))
      (others_follow : AnswersAll env others mode subject rest
        (addResult mode name { round with pending := pending } result) between last after) :
      AnswersAll env others mode subject ((name, text) :: rest) round e last after

/-- How a round of several expressions can go among others. -/
def Environment.RoundAllAmong (env : Environment) (others : Exchange → Exchange → Prop)
    (mode : Mode) (subject : Record) (exprs : List (String × String)) (e : Exchange)
    (round : Round (List (String × Value))) (after : Exchange) : Prop :=
  env.AnswersAll others mode subject exprs ⟨[], [], []⟩ e round after

section Lookups

variable {env : Environment} {allowed : Action → Prop}

/-- All that a dialogue does to the exchange is lookups. -/
theorem Environment.reaches_run (looks : ∀ r, allowed (.resolve env.source env.settings r))
    {α : Type} (d : Dialogue α) (state : Exchange × List FetchId) :
    Exchange.Reaches allowed state.1 (d.run env.answer state).2.1 := by
  induction d generalizing state with
  | done result => exact .refl allowed state.1
  | ask question next ih =>
      have asked := Exchange.Reaches.single (looks question) state.1
      exact asked.trans (ih (env.answer question state).1 (env.answer question state).2)

theorem Environment.reaches_roundAll (looks : ∀ r, allowed (.resolve env.source env.settings r))
    (mode : Mode) (subject : Record) (exprs : List (String × String)) (e : Exchange) :
    Exchange.Reaches allowed e (env.roundAll mode subject exprs e).2 := by
  unfold Environment.roundAll
  generalize (⟨[], [], []⟩ : Round (List (String × Value))) = round
  induction exprs generalizing round e with
  | nil => exact .refl allowed e
  | cons expr rest ih =>
      have evaluated := env.reaches_run looks
        (Expr.evaluateText mode subject (env.settings.newlines.normalize expr.2)) (e, round.pending)
      exact evaluated.trans (ih _ _)

theorem Progress.reaches_advance {α : Type} {pass : StateM Exchange (Round α)}
    (passes : ∀ e, Exchange.Reaches allowed e (pass e).2) (limit : Nat) (p : Progress α)
    (e : Exchange) : Exchange.Reaches allowed e (p.advance pass limit e).2 := by
  fun_induction Progress.advance pass limit p e with
  | case1 p e => exact .refl allowed e
  | case2 p e => exact .refl allowed e
  | case3 p e _ _ _ round next passed ih =>
      have step := passes e
      rw [passed] at step
      exact step.trans ih
  | case4 p e => exact .refl allowed e

/-- Polling a result acts on the exchange as its rounds do. -/
theorem Settling.reaches_poll {α : Type} {s : Settling α}
    (passes : ∀ e, Exchange.Reaches allowed e (s.pass e).2) (e : Exchange) :
    Exchange.Reaches allowed e (s.poll e).2 := by
  unfold Settling.poll
  cases s.latest with
  | some p => exact p.reaches_advance passes s.limit e
  | none => exact (passes e).trans (Progress.reaches_advance passes s.limit _ _)

end Lookups

section Outcomes

variable {α : Type}

/-- How a result can go on after a round: it has settled, or is out of rounds, or the fetches finish
that it waits for while others act, and another round is made. -/
inductive Settles (others : Exchange → Exchange → Prop)
    (makes : Exchange → Round α → Exchange → Prop) (limit : Nat) :
    Progress α → Exchange → Outcome α → Exchange → Prop where
  | settled {p : Progress α} {e after : Exchange} (acted : others e after)
      (complete : p.round.pending = []) : Settles others makes limit p e p.outcome after
  | outOfRounds {p : Progress α} {e after : Exchange} (acted : others e after)
      (waits : p.round.pending ≠ []) (last : limit ≤ p.rounds) :
      Settles others makes limit p e p.outOfRounds after
  | again {p : Progress α} {e between next after : Exchange} {round : Round α} {o : Outcome α}
      (waits : p.round.pending ≠ []) (below : p.rounds < limit) (acted : others e between)
      (ready : ∀ fetch ∈ p.round.pending, between.cache.isReady fetch = true)
      (made : makes between round next)
      (rest : Settles others makes limit ⟨round, p.rounds + 1⟩ next o after) :
      Settles others makes limit p e o after

/-- The outcomes that can be reported of a result: how things stand after the first round, and in
the end. -/
inductive Reports (others : Exchange → Exchange → Prop)
    (makes : Exchange → Round α → Exchange → Prop) (limit : Nat) (e : Exchange) :
    Outcome α → Exchange → Prop where
  | first {round : Round α} {after : Exchange} (made : makes e round after) :
      Reports others makes limit e (Progress.outcome ⟨round, 1⟩) after
  | last {round : Round α} {next after : Exchange} {o : Outcome α} (made : makes e round next)
      (settles : Settles others makes limit ⟨round, 1⟩ next o after) :
      Reports others makes limit e o after

variable {others : Exchange → Exchange → Prop} {makes : Exchange → Round α → Exchange → Prop}
  {limit : Nat} {e after : Exchange} {o : Outcome α}

/-- An outcome that has settled is how things stand after a round that waits for nothing. That round
begins with whatever others and rounds keep. -/
theorem Settles.last_round {P : Exchange → Prop}
    (acts : ∀ e after, others e after → P e → P after)
    (rounds : ∀ e round after, makes e round after → P e → P after) {p : Progress α}
    (settles : Settles others makes limit p e o after) (settled : o.settled = true) (holds : P e)
    (made : ∃ before, P before ∧ makes before p.round e) :
    ∃ before next round count, P before ∧ makes before round next ∧ round.pending = [] ∧
      o = Progress.outcome ⟨round, count⟩ := by
  induction settles with
  | settled acted complete =>
      obtain ⟨before, kept, made⟩ := made
      exact ⟨before, _, _, _, kept, made, complete, rfl⟩
  | outOfRounds acted waits last => exact absurd settled Bool.false_ne_true
  | again waits below acted ready next rest ih =>
      have between := acts _ _ acted holds
      exact ih settled (rounds _ _ _ next between) ⟨_, between, next⟩

theorem Reports.last_round {P : Exchange → Prop}
    (acts : ∀ e after, others e after → P e → P after)
    (rounds : ∀ e round after, makes e round after → P e → P after)
    (reports : Reports others makes limit e o after) (settled : o.settled = true) (holds : P e) :
    ∃ before next round count, P before ∧ makes before round next ∧ round.pending = [] ∧
      o = Progress.outcome ⟨round, count⟩ := by
  cases reports with
  | @first round _ made =>
      exact ⟨e, after, round, 1, holds, made, List.isEmpty_iff.mp settled, rfl⟩
  | last made settles =>
      exact settles.last_round acts rounds settled (rounds _ _ _ made holds) ⟨e, holds, made⟩

end Outcomes

/-- What has become of a result that is polled until it has finished: `wait n` is what others do to
the exchange after the poll with number `n`. -/
def Settling.drive {α : Type} (s : Settling α) (wait : Nat → Exchange → Exchange) :
    Nat → Exchange → Advance α × Exchange
  | 0, e => s.poll e
  | n + 1, e =>
    match s.drive wait n e with
    | (.waiting p, after) => (s.after p).poll (wait n after)
    | (.finished o, after) => (.finished o, after)

theorem Environment.answers_run (env : Environment) {others : Exchange → Exchange → Prop}
    (idle : ∀ e, others e e) {α : Type} (d : Dialogue α) (state : Exchange × List FetchId) :
    env.Answers others d state (d.run env.answer state).1 (d.run env.answer state).2 := by
  induction d generalizing state with
  | done result => exact .done result state
  | ask question next ih => exact .ask (idle state.1) (ih _ _)

/-- A round that nobody disturbs is one that can go so among others. -/
theorem Environment.roundAmong_round (env : Environment) {others : Exchange → Exchange → Prop}
    (idle : ∀ e, others e e) (mode : Mode) (subject : Record) (text : String) (e : Exchange) :
    env.RoundAmong others mode subject text e (env.round mode subject text e).1
      (env.round mode subject text e).2 :=
  ⟨_, _, env.answers_run idle _ (e, []), rfl⟩

/-- So is a round of several expressions. -/
theorem Environment.roundAllAmong_round (env : Environment) {others : Exchange → Exchange → Prop}
    (idle : ∀ e, others e e) (mode : Mode) (subject : Record) (exprs : List (String × String))
    (e : Exchange) :
    env.RoundAllAmong others mode subject exprs e (env.roundAll mode subject exprs e).1
      (env.roundAll mode subject exprs e).2 := by
  unfold RoundAllAmong Environment.roundAll
  generalize (⟨[], [], []⟩ : Round (List (String × Value))) = round
  induction exprs generalizing round e with
  | nil => exact .done round e
  | cons expr rest ih =>
      have evaluated := env.answers_run idle
        (Expr.evaluateText mode subject (env.settings.newlines.normalize expr.2)) (e, round.pending)
      exact .next evaluated (ih _ _)

section Polling

variable {α : Type} {others : Exchange → Exchange → Prop}
  {makes : Exchange → Round α → Exchange → Prop} {limit : Nat}

/-- How what a poll came to can end: it has finished, or goes on from the round after which it
waits. -/
def Advance.Ends (others : Exchange → Exchange → Prop)
    (makes : Exchange → Round α → Exchange → Prop) (limit : Nat) (a : Advance α) (e : Exchange)
    (o : Outcome α) (after : Exchange) : Prop :=
  match a with
  | .waiting p => Settles others makes limit p e o after
  | .finished outcome => outcome = o ∧ e = after

/-- What others do before a result goes on is part of what they do while it waits. -/
theorem Settles.of_others (compose : ∀ a b c, others a b → others b c → others a c)
    {p : Progress α} {e between after : Exchange} {o : Outcome α} (acted : others e between)
    (settles : Settles others makes limit p between o after) :
    Settles others makes limit p e o after := by
  cases settles with
  | settled more complete => exact .settled (compose _ _ _ acted more) complete
  | outOfRounds more waits last => exact .outOfRounds (compose _ _ _ acted more) waits last
  | again waits below more ready made rest =>
      exact .again waits below (compose _ _ _ acted more) ready made rest

theorem Settles.of_advance (idle : ∀ e, others e e) {pass : StateM Exchange (Round α)}
    (made : ∀ e, makes e (pass e).1 (pass e).2) {p : Progress α} {e after : Exchange}
    {o : Outcome α}
    (ends : (p.advance pass limit e).1.Ends others makes limit (p.advance pass limit e).2 o after) :
    Settles others makes limit p e o after := by
  fun_induction Progress.advance pass limit p e with
  | case1 p e complete =>
      obtain ⟨rfl, rfl⟩ := ends
      exact .settled (idle e) (List.isEmpty_iff.mp complete)
  | case2 p e waits last =>
      obtain ⟨rfl, rfl⟩ := ends
      exact .outOfRounds (idle e) (fun none => waits (List.isEmpty_iff.mpr none)) last
  | case3 p e waits below ready round next passed ih =>
      have step := made e
      rw [passed] at step
      exact .again (fun none => waits (List.isEmpty_iff.mpr none)) (Nat.lt_of_not_le below)
        (idle e) (List.all_eq_true.mp ready) step (ih ends)
  | case4 => exact ends

/-- A result that is polled after a round, while others act between the polls, ends as it can among
others. -/
theorem Settles.of_drive (idle : ∀ e, others e e)
    (compose : ∀ a b c, others a b → others b c → others a c) {s : Settling α}
    (made : ∀ e, makes e (s.pass e).1 (s.pass e).2) {wait : Nat → Exchange → Exchange}
    (waits : ∀ n e, others e (wait n e)) (p : Progress α) (n : Nat) {e after : Exchange}
    {o : Outcome α}
    (ends : ((s.after p).drive wait n e).1.Ends others makes s.limit
      ((s.after p).drive wait n e).2 o after) :
    Settles others makes s.limit p e o after := by
  induction n with
  | zero => exact .of_advance idle made ends
  | succ n ih =>
      apply ih
      rw [Settling.drive] at ends
      split at ends
      · rename_i last next driven
        rw [driven]
        exact .of_others compose (waits n next) (.of_advance idle made ends)
      · rename_i outcome next driven
        rw [driven]
        exact ends

theorem Settling.drive_of_fresh {s : Settling α} (fresh : s.latest = none)
    (wait : Nat → Exchange → Exchange) (n : Nat) (e : Exchange) :
    s.drive wait n e = (s.after (s.first e).1).drive wait n (s.first e).2 := by
  induction n with
  | zero => simp only [Settling.drive, Settling.poll, fresh, Settling.after]
  | succ n ih => rw [Settling.drive, ih]; rfl

/-- What is reported at once after the first round. -/
theorem reports_of_first {s : Settling α} (made : ∀ e, makes e (s.pass e).1 (s.pass e).2)
    (e : Exchange) : Reports others makes s.limit e (s.first e).1.outcome (s.first e).2 :=
  .first (made e)

/-- A result whose first round was made at once, and that is polled later on, reports what it can
among others. -/
theorem reports_of_after (idle : ∀ e, others e e)
    (compose : ∀ a b c, others a b → others b c → others a c) {s : Settling α}
    (made : ∀ e, makes e (s.pass e).1 (s.pass e).2) {wait : Nat → Exchange → Exchange}
    (waits : ∀ n e, others e (wait n e)) {n : Nat} {e between after : Exchange} {o : Outcome α}
    (acted : others (s.first e).2 between)
    (finished : (s.after (s.first e).1).drive wait n between = (.finished o, after)) :
    Reports others makes s.limit e o after := by
  refine .last (made e) (.of_others compose acted (.of_drive idle compose made waits _ n ?_))
  exact finished ▸ ⟨rfl, rfl⟩

/-- So does one that is polled from its first round on. -/
theorem reports_of_drive (idle : ∀ e, others e e)
    (compose : ∀ a b c, others a b → others b c → others a c) {s : Settling α}
    (fresh : s.latest = none) (made : ∀ e, makes e (s.pass e).1 (s.pass e).2)
    {wait : Nat → Exchange → Exchange} (waits : ∀ n e, others e (wait n e)) {n : Nat}
    {e after : Exchange} {o : Outcome α} (finished : s.drive wait n e = (.finished o, after)) :
    Reports others makes s.limit e o after := by
  rw [Settling.drive_of_fresh fresh] at finished
  exact reports_of_after idle compose made waits (idle _) finished

end Polling

end RecordExpr
