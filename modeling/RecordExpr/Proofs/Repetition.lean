import RecordExpr.Proofs.DependencyDepth
import RecordExpr.Proofs.DirectBatch

set_option autoImplicit false

namespace RecordExpr

/-- The cache still has every result of an earlier one. -/
def Cache.KeptIn (c later : Cache) : Prop :=
  ∀ k found, c.slot? k = some (.resolved found) → later.slot? k = some (.resolved found)

/-- Anything but a clear. -/
def Action.Spares (a : Action) : Prop := a ≠ .clear

namespace Cache

variable {c between later : Cache}

theorem KeptIn.refl (c : Cache) : c.KeptIn c := fun _ _ known => known

theorem KeptIn.trans (first : c.KeptIn between) (second : between.KeptIn later) :
    c.KeptIn later :=
  fun k found known => second k found (first k found known)

theorem Grows.keptIn (grows : c.Grows later) : c.KeptIn later :=
  fun _ _ known => grows.resolved known

theorem keptIn_abandon (c : Cache) (t : Ticket) : c.KeptIn (c.abandon t) := by
  intro k found known
  rw [slot?_abandon, if_neg, known]
  intro taken
  have waits := (owns_iff c t).mp taken.1
  rw [← taken.2, known] at waits
  cases waits

end Cache

namespace Exchange

variable {e after : Exchange}

theorem keptIn_submit (source : Source) (e : Exchange) (t : Ticket) (q : Request) :
    e.cache.KeptIn (submit source e t q).cache := by
  unfold submit
  cases source e.received q with
  | answer records => exact (Cache.grows_deliver e.cache t records).keptIn
  | answerLater records => exact .refl e.cache
  | drop => exact Cache.keptIn_abandon e.cache t
  | hold => exact .refl e.cache

theorem keptIn_resolve (source : Source) (settings : Settings) (r : Reference) (e : Exchange) :
    e.cache.KeptIn (resolve source settings r e).2.cache := by
  cases seen : e.cache.slot? (LookupKey.ofReference r) with
  | some slot =>
      cases slot with
      | resolved found =>
          rw [resolve_resolved seen]
          exact .refl e.cache
      | pending fetch =>
          rw [resolve_pending seen]
          exact .refl e.cache
  | none =>
      let asked : Exchange := { e with cache := (e.cache.consult (LookupKey.ofReference r)).2 }
      have submitted : asked.cache.KeptIn (submit source asked
          ⟨LookupKey.ofReference r, e.cache.nextFetch⟩ (requestFor settings r)).cache :=
        keptIn_submit source asked _ _
      rw [resolve_unknown seen]
      exact (Cache.grows_consult seen).keptIn.trans submitted

theorem keptIn_perform {a : Action} (spares : a.Spares) (e : Exchange) :
    e.cache.KeptIn (e.perform a).cache := by
  cases a with
  | resolve source settings r => exact keptIn_resolve source settings r e
  | answer t records =>
      rw [perform]
      split
      · exact (Cache.grows_deliver e.cache t records).keptIn
      · exact .refl e.cache
  | drop t =>
      rw [perform]
      split
      · exact Cache.keptIn_abandon e.cache t
      · exact .refl e.cache
  | clear => exact absurd rfl spares

theorem Reaches.keptIn (reaches : Reaches Action.Spares e after) : e.cache.KeptIn after.cache := by
  apply Reaches.keeps (P := fun x => e.cache.KeptIn x.cache) _ reaches (.refl e.cache)
  intro between a spares kept
  exact kept.trans (keptIn_perform spares between)

/-- A lookup that has nothing to wait for has found a result. -/
theorem resolved_of_resolve {source : Source} {settings : Settings} {r : Reference}
    (attach : settings.pendingPolicy = .attach)
    (complete : (resolve source settings r e).1.waitFor = none) :
    ∃ found, e.cache.slot? (LookupKey.ofReference r) = some (.resolved found) := by
  cases seen : e.cache.slot? (LookupKey.ofReference r) with
  | some slot =>
      cases slot with
      | resolved found => exact ⟨found, rfl⟩
      | pending fetch =>
          rw [resolve_pending seen, if_pos attach] at complete
          cases complete
  | none =>
      rw [resolve_unknown seen] at complete
      cases complete

end Exchange

theorem Dialogue.Final.keptIn {α : Type} {c later : Cache} {d : Dialogue α} {result : α}
    (final : Final c d result) (kept : c.KeptIn later) : Final later d result := by
  induction final with
  | done result => exact .done result
  | ask known _ ih => exact .ask (kept _ _ known) ih

namespace Environment

variable {env : Environment} {others : Exchange → Exchange → Prop} {mode : Mode} {subject : Record}
  {text : String}

/-- A dialogue for which the cache has everything changes nothing and notes nothing to wait for. -/
theorem run_of_final {α : Type} {e : Exchange} {d : Dialogue α} {result : α}
    (final : Dialogue.Final e.cache d result) (env : Environment) (pending : List FetchId) :
    d.run env.answer (e, pending) = (result, (e, pending)) := by
  induction final with
  | done result => rfl
  | @ask question next found result known _ ih =>
      have answered : env.answer question (e, pending) = (found, (e, pending)) := by
        simp only [answer, Exchange.resolve_resolved known, Option.toList_none, List.append_nil]
      rw [Dialogue.run_ask, answered]
      exact ih

theorem Answers.keptIn (acts : ∀ e after, others e after → e.cache.KeptIn after.cache) {α : Type}
    {d : Dialogue α} {state after : Exchange × List FetchId} {result : α}
    (answers : env.Answers others d state result after) : state.1.cache.KeptIn after.1.cache := by
  induction answers with
  | done result state => exact .refl state.1.cache
  | @ask question next e between pending result after acted rest ih =>
      have asked := Exchange.keptIn_resolve env.source env.settings question between
      exact (acts e between acted).trans (asked.trans ih)

/-- A dialogue that leaves nothing to wait for has met nothing but results, which the cache has. -/
theorem Answers.final (attach : env.settings.pendingPolicy = .attach)
    (acts : ∀ e after, others e after → e.cache.KeptIn after.cache) {α : Type} {d : Dialogue α}
    {state after : Exchange × List FetchId} {result : α}
    (answers : env.Answers others d state result after) (complete : after.2 = []) :
    Dialogue.Final after.1.cache d result := by
  induction answers with
  | done result state => exact .done result
  | @ask question next e between pending result after acted rest ih =>
      have none_added : (env.answer question (between, pending)).2.2 = [] :=
        List.prefix_nil.mp (complete ▸ rest.pending_prefix)
      have nothing : (Exchange.resolve env.source env.settings question between).1.waitFor = none :=
        Option.toList_eq_nil_iff.mp (List.append_eq_nil_iff.mp none_added).2
      obtain ⟨found, known⟩ := Exchange.resolved_of_resolve attach nothing
      have answered : env.answer question (between, pending) = (found, (between, pending)) := by
        simp only [answer, Exchange.resolve_resolved known, Option.toList_none, List.append_nil]
      rw [answered] at rest ih
      exact .ask (rest.keptIn acts _ _ known) (ih complete)

theorem round_of_final {e : Exchange} {v : Value}
    (final : Dialogue.Final e.cache
      (Expr.evaluateText mode subject (env.settings.newlines.normalize text)) (.ok v)) :
    env.round mode subject text e = (⟨mode.wrap v, [], []⟩, e) := by
  have evaluated := run_of_final final env []
  simp only [round, evaluate, evaluated, Round.ofResult]

/-- A round without a problem that waits for nothing is made again as it was, whenever the results
are still there. -/
theorem RoundAmong.again (attach : env.settings.pendingPolicy = .attach)
    (acts : ∀ e after, others e after → e.cache.KeptIn after.cache) {start next later : Exchange}
    {round : Round Value} (made : env.RoundAmong others mode subject text start round next)
    (complete : round.pending = []) (clean : round.problems = [])
    (kept : next.cache.KeptIn later.cache) :
    env.round mode subject text later = (round, later) := by
  obtain ⟨result, pending, answers, rfl⟩ := made
  cases result with
  | error problem => cases clean
  | ok v =>
      obtain rfl : pending = [] := complete
      exact round_of_final ((answers.final attach acts rfl).keptIn kept)

/-- Several expressions that leave nothing to wait for are evaluated again as they were, those that
fail too. -/
theorem AnswersAll.again (attach : env.settings.pendingPolicy = .attach)
    (acts : ∀ e after, others e after → e.cache.KeptIn after.cache)
    {exprs : List (String × String)} {round last : Round (List (String × Value))}
    {e after later : Exchange}
    (answers : env.AnswersAll others mode subject exprs round e last after)
    (complete : last.pending = []) (kept : after.cache.KeptIn later.cache) :
    env.continueAll mode subject exprs (round, later) = (last, later) ∧
      e.cache.KeptIn after.cache := by
  induction answers with
  | done round e => exact ⟨rfl, .refl e.cache⟩
  | @next name text rest round last e between after pending result answers others_follow ih =>
      obtain ⟨again, kept_later⟩ := ih complete kept
      have none_later := others_follow.pending_prefix
      rw [pending_addResult, complete] at none_later
      obtain rfl : pending = [] := List.prefix_nil.mp none_later
      have none_before : round.pending = [] := List.prefix_nil.mp answers.pending_prefix
      have final := (answers.final attach acts rfl).keptIn (kept_later.trans kept)
      have evaluated : env.evaluate mode subject text (later, round.pending) =
          (result, (later, [])) := by
        rw [none_before]
        exact run_of_final final env []
      refine ⟨?_, (answers.keptIn acts).trans kept_later⟩
      rw [continueAll, evaluated]
      exact again

theorem RoundAllAmong.again (attach : env.settings.pendingPolicy = .attach)
    (acts : ∀ e after, others e after → e.cache.KeptIn after.cache)
    {exprs : List (String × String)} {round : Round (List (String × Value))}
    {start next later : Exchange}
    (made : env.RoundAllAmong others mode subject exprs start round next)
    (complete : round.pending = []) (kept : next.cache.KeptIn later.cache) :
    env.roundAll mode subject exprs later = (round, later) := by
  rw [roundAll_eq]
  exact (AnswersAll.again attach acts made complete kept).1

end Environment

section Reports

variable {α : Type} {pass : StateM Exchange (Round α)} {limit : Nat}

/-- What is reported as settled after more rounds is how things stand after the last of them. -/
theorem Progress.last_round_of_advance {p : Progress α} {e after : Exchange} {o : Outcome α}
    (finished : p.advance pass limit e = (.finished o, after)) (settled : o.settled = true)
    (made : p.round.pending = [] → ∃ before, pass before = (p.round, e)) :
    ∃ before round count, pass before = (round, after) ∧ round.pending = [] ∧
      o = Progress.outcome ⟨round, count⟩ := by
  fun_induction Progress.advance pass limit p e with
  | case1 p e complete =>
      cases finished
      have none_left := List.isEmpty_iff.mp complete
      obtain ⟨before, made⟩ := made none_left
      exact ⟨before, p.round, p.rounds, made, none_left, rfl⟩
  | case2 p e waits last =>
      cases finished
      exact absurd settled Bool.false_ne_true
  | case3 p e waits below ready round next passed ih => exact ih finished fun _ => ⟨e, passed⟩
  | case4 p e waits below unready => cases finished

theorem Progress.waits_of_advance {p last : Progress α} {e after : Exchange}
    (waiting : p.advance pass limit e = (.waiting last, after)) : last.round.pending ≠ [] := by
  fun_induction Progress.advance pass limit p e with
  | case1 | case2 => cases waiting
  | case3 p e waits below ready round next passed ih => exact ih waiting
  | case4 p e waits below unready =>
      cases waiting
      exact fun nothing => waits (List.isEmpty_iff.mpr nothing)

end Reports

namespace Settling

variable {α : Type} {s : Settling α} {wait : Nat → Exchange → Exchange} {e after : Exchange}

/-- A result either has no round yet, or still waits after its latest one. -/
def Unfinished (s : Settling α) : Prop := ∀ p, s.latest = some p → p.round.pending ≠ []

theorem last_round_of_poll (unfinished : s.Unfinished) {o : Outcome α}
    (finished : s.poll e = (.finished o, after)) (settled : o.settled = true) :
    ∃ before round count, s.pass before = (round, after) ∧ round.pending = [] ∧
      o = Progress.outcome ⟨round, count⟩ := by
  unfold poll at finished
  cases known : s.latest with
  | some p =>
      rw [known] at finished
      apply Progress.last_round_of_advance finished settled
      intro complete
      exact absurd complete (unfinished p known)
  | none =>
      rw [known] at finished
      exact Progress.last_round_of_advance finished settled fun _ => ⟨e, rfl⟩

theorem waits_of_poll {p : Progress α} (waiting : s.poll e = (.waiting p, after)) :
    p.round.pending ≠ [] := by
  unfold poll at waiting
  cases known : s.latest with
  | some latest =>
      rw [known] at waiting
      exact Progress.waits_of_advance waiting
  | none =>
      rw [known] at waiting
      exact Progress.waits_of_advance waiting

theorem waits_of_drive {n : Nat} {p : Progress α}
    (waiting : s.drive wait n e = (.waiting p, after)) : p.round.pending ≠ [] := by
  cases n with
  | zero => exact waits_of_poll waiting
  | succ n =>
      rw [drive] at waiting
      split at waiting
      · exact waits_of_poll waiting
      · cases waiting

/-- Whatever happened between the polls, a settled outcome is how things stand after a round, and it
is reported right behind this round. -/
theorem last_round_of_drive (unfinished : s.Unfinished) {n : Nat} {o : Outcome α}
    (finished : s.drive wait n e = (.finished o, after)) (settled : o.settled = true) :
    ∃ before round count, s.pass before = (round, after) ∧ round.pending = [] ∧
      o = Progress.outcome ⟨round, count⟩ := by
  induction n with
  | zero => exact last_round_of_poll unfinished finished settled
  | succ n ih =>
      rw [drive] at finished
      split at finished
      · rename_i p between driven
        apply last_round_of_poll (s := s.after p) _ finished settled
        intro latest same
        obtain rfl : p = latest := Option.some.inj same
        exact waits_of_drive driven
      · rename_i o' between driven
        cases finished
        exact ih driven

/-- How a result comes to report an outcome. It is polled, from its first round on or after a round
that was made before, and anything at all may happen between the polls; or its last round is made
among others, who have done as they like before it. -/
inductive Reported (s : Settling α) (makes : Exchange → Round α → Exchange → Prop) :
    Outcome α → Exchange → Prop where
  | polled {latest : Option (Progress α)} (unfinished : { s with latest := latest }.Unfinished)
      {wait : Nat → Exchange → Exchange} {n : Nat} {e after : Exchange} {o : Outcome α}
      (finished : { s with latest := latest }.drive wait n e = (.finished o, after)) :
      Reported s makes o after
  | among {before after : Exchange} {round : Round α} {rounds : Nat}
      (made : makes before round after) : Reported s makes (Progress.outcome ⟨round, rounds⟩) after

theorem Reported.of_fresh {makes : Exchange → Round α → Exchange → Prop} (fresh : s.latest = none)
    {n : Nat} {o : Outcome α} (finished : s.drive wait n e = (.finished o, after)) :
    s.Reported makes o after := by
  have unfinished : { s with latest := none }.Unfinished := nofun
  rw [← fresh] at unfinished
  exact .polled unfinished finished

/-- Each way to report a settled outcome goes through a round that waits for nothing. -/
theorem Reported.last_round {makes : Exchange → Round α → Exchange → Prop}
    (made : ∀ e, makes e (s.pass e).1 (s.pass e).2) {o : Outcome α}
    (reported : s.Reported makes o after) (settled : o.settled = true) :
    ∃ before round count, makes before round after ∧ round.pending = [] ∧
      o = Progress.outcome ⟨round, count⟩ := by
  cases reported with
  | polled unfinished finished =>
      obtain ⟨before, round, count, passed, complete, same⟩ :=
        last_round_of_drive unfinished finished settled
      have step := made before
      rw [passed] at step
      exact ⟨before, round, count, step, complete, same⟩
  | @among before _ round rounds step =>
      exact ⟨before, round, rounds, step, List.isEmpty_iff.mp settled, rfl⟩

/-- A result whose round is made with nothing to wait for is finished with it. -/
theorem poll_of_complete (fresh : s.latest = none) {round : Round α}
    (passed : s.pass e = (round, after)) (complete : round.pending = []) :
    s.first e = (⟨round, 1⟩, after) ∧
      s.poll e = (.finished ⟨round.value, 1, round.problems, true⟩, after) := by
  have first : s.first e = (⟨round, 1⟩, after) := by
    rw [Settling.first, passed]
  refine ⟨first, ?_⟩
  simp only [poll, fresh, first]
  rw [Progress.advance_of_settled complete, Progress.outcome, complete]
  rfl

end Settling

namespace Environment

/-- As long as nobody clears the cache, a settled evaluation without a problem is final in the first
round when it is made again, with the same value, and leaves everything as it was: no request is
made. So is a settled batch, with the same values and problems, also where expressions fail. Others
may look up, answer and drop in between, and also during the last round of the settled evaluation;
before that round anything may have happened. -/
theorem settled_stays_settled (env : Environment) (attach : env.settings.pendingPolicy = .attach)
    (mode : Mode) (subject : Record) {after later : Exchange}
    (unbroken : Exchange.Reaches Action.Spares after later) :
    (∀ text o,
      (env.single mode subject text).Reported
        (env.RoundAmong (Exchange.Reaches Action.Spares) mode subject text) o after →
      o.settled = true → o.problems = [] →
        (env.single mode subject text).first later = (⟨⟨o.value, [], []⟩, 1⟩, later) ∧
        (env.single mode subject text).poll later =
          (.finished ⟨o.value, 1, [], true⟩, later)) ∧
      ∀ exprs o,
        (env.batch mode subject exprs).Reported
          (env.RoundAllAmong (Exchange.Reaches Action.Spares) mode subject exprs) o after →
        o.settled = true →
          (env.batch mode subject exprs).poll later =
            (.finished ⟨o.value, 1, o.problems, true⟩, later) := by
  have idle := Exchange.Reaches.refl Action.Spares
  have acts : ∀ e next, Exchange.Reaches Action.Spares e next → e.cache.KeptIn next.cache :=
    fun _ _ acted => acted.keptIn
  constructor
  · intro text o reported settled clean
    obtain ⟨before, round, count, made, complete, rfl⟩ :=
      reported.last_round (env.roundAmong_round idle mode subject text) settled
    have again := made.again attach acts complete clean unbroken.keptIn
    obtain ⟨value, pending, problems⟩ := round
    obtain rfl : pending = [] := complete
    obtain rfl : problems = [] := clean
    exact Settling.poll_of_complete rfl again rfl
  · intro exprs o reported settled
    obtain ⟨before, round, count, made, complete, rfl⟩ :=
      reported.last_round (env.roundAllAmong_round idle mode subject exprs) settled
    have again := made.again attach acts complete unbroken.keptIn
    exact (Settling.poll_of_complete rfl again complete).2

/-- Somebody asks for another parcel, and the request is dropped. -/
def askElsewhere (e : Exchange) : Exchange :=
  (e.perform (.resolve Source.holding {} ⟨"parcels", "id", .string "43"⟩)).perform
    (.drop ⟨⟨"parcels", "id", "43"⟩, e.cache.nextFetch⟩)

theorem parcel_settled_again :
    let single := parcelEnvironment.single .value .empty parcelArea
    let batch := parcelEnvironment.batch .value .empty parcelExprs
    let problems := [unknownCall "zones" 6, unknownCall "area" 5]
    let after := (single.drive answerParcel 1 {}).2
    let afterBatch := (batch.drive answerParcel 1 {}).2
    (single.drive answerParcel 1 {}).1 = .finished ⟨.string "150", 2, [], true⟩ ∧
      (batch.drive answerParcel 1 {}).1 =
        .finished ⟨[("area", .string "150")], 2, problems, true⟩ ∧
      Exchange.Reaches Action.Spares after (askElsewhere after) ∧
      single.poll (askElsewhere after) =
        (.finished ⟨.string "150", 1, [], true⟩, askElsewhere after) ∧
      batch.poll (askElsewhere afterBatch) =
        (.finished ⟨[("area", .string "150")], 1, problems, true⟩, askElsewhere afterBatch) := by
  intro single batch problems after afterBatch
  have finished : (single.drive answerParcel 1 {}).1 = .finished ⟨.string "150", 2, [], true⟩ := by
    decide +kernel
  have finishedAll : (batch.drive answerParcel 1 {}).1 =
      .finished ⟨[("area", .string "150")], 2, problems, true⟩ := by
    decide +kernel
  have elsewhere : ∀ e, Exchange.Reaches Action.Spares e (askElsewhere e) := by
    intro e
    have asked : Exchange.Reaches Action.Spares e
        (e.perform (.resolve Source.holding {} ⟨"parcels", "id", .string "43"⟩)) :=
      .single Action.noConfusion e
    exact asked.trans (.single Action.noConfusion _)
  have again := (settled_stays_settled parcelEnvironment rfl .value .empty
    (elsewhere after)).1 parcelArea ⟨.string "150", 2, [], true⟩
    (.of_fresh rfl (Prod.ext finished rfl)) rfl rfl
  have againAll := (settled_stays_settled parcelEnvironment rfl .value .empty
    (elsewhere afterBatch)).2 parcelExprs ⟨[("area", .string "150")], 2, problems, true⟩
    (.of_fresh rfl (Prod.ext finishedAll rfl)) rfl
  exact ⟨finished, finishedAll, elsewhere after, again.2, againAll⟩

end Environment

end RecordExpr
