import RecordExpr.Proofs.Completion
import RecordExpr.Proofs.Promises
import RecordExpr.Proofs.DirectEvaluation

set_option autoImplicit false

namespace RecordExpr

/-- The same environment, where lookups of what is under way go by this policy. -/
def Environment.withPolicy (env : Environment) (policy : PendingPolicy) : Environment :=
  { env with settings := { env.settings with pendingPolicy := policy } }

/-- A slot that waits after its request was treated waits for that request. -/
theorem Treatment.fetch_of_leaves {treatment : Treatment} {fetch other : FetchId}
    (waits : treatment.leaves fetch = some (.pending other)) : other = fetch := by
  cases treatment <;> simp_all [leaves]

namespace Exchange

/-- Every key is known alike, and the same requests were made, in the same order. -/
structure Matches (e other : Exchange) : Prop where
  slots : ∀ k, e.cache.slot? k = other.cache.slot? k
  nextFetch : e.cache.nextFetch = other.cache.nextFetch
  requests : e.requests = other.requests

theorem Matches.refl (e : Exchange) : e.Matches e := ⟨fun _ => rfl, rfl, rfl⟩

/-- The ticket of the next fetch is new. -/
theorem Recorded.fresh {e : Exchange} {fetches : List FetchId} (recorded : e.Recorded fetches)
    (k : LookupKey) : ⟨k, e.cache.nextFetch⟩ ∉ e.outstanding := by
  obtain ⟨c, faithful, -⟩ := recorded
  have cache : e.cache = Chronicle.cacheAfter c := faithful.cache
  intro member
  have issued := (Chronicle.mem_outstanding.mp (faithful.mem_outstanding.mp member)).1
  rw [cache] at issued
  exact Chronicle.next_not_mem_issued faithful.possible k issued

end Exchange

/-- Two evaluations in the middle of a round, each with its exchange and the fetches that it waits
for. -/
structure Twins (plan : Plan) (one other : Exchange × List FetchId) : Prop where
  alike : one.1.Matches other.1
  recorded : one.1.Recorded one.2
  recordedOther : other.1.Recorded other.2
  waits : one.2 = [] ↔ other.2 = []
  covered : ∀ {k fetch}, one.1.cache.slot? k = some (.pending fetch) →
    fetch ∈ one.2 ∧ fetch ∈ other.2
  promised : ∀ {k fetch}, one.1.cache.slot? k = some (.pending fetch) →
    ∃ fate, one.1.Owes plan ⟨k, fetch⟩ fate ∧ other.1.Owes plan ⟨k, fetch⟩ fate

namespace Twins

open Exchange

variable {plan : Plan} {one other : Exchange × List FetchId} (env : Environment)

/-- With nothing under way, an exchange is its own twin. -/
theorem of_quiet {e : Exchange} (recorded : e.Recorded [])
    (quiet : ∀ k fetch, e.cache.slot? k ≠ some (.pending fetch)) : Twins plan (e, []) (e, []) where
  alike := .refl e
  recorded := recorded
  recordedOther := recorded
  waits := Iff.rfl
  covered waits := absurd waits (quiet _ _)
  promised waits := absurd waits (quiet _ _)

/-- A lookup whose fetch is under way, by this evaluation, changes nothing but what it waits for. -/
theorem answer_pending (twins : Twins plan one other) {r : Reference} {fetch : FetchId}
    (seen : one.1.cache.slot? (LookupKey.ofReference r) = some (.pending fetch))
    (policy policyOther : PendingPolicy) :
    ((env.withPolicy policy).answer r one).1 = ((env.withPolicy policyOther).answer r other).1 ∧
      Twins plan ((env.withPolicy policy).answer r one).2
        ((env.withPolicy policyOther).answer r other).2 := by
  have seenOther := seen
  rw [twins.alike.slots] at seenOther
  have recorded := recorded_resolve twins.recorded env.source (env.withPolicy policy).settings r
  have recordedOther :=
    recorded_resolve twins.recordedOther env.source (env.withPolicy policyOther).settings r
  unfold Environment.answer
  rw [resolve_pending seen] at recorded
  rw [resolve_pending seenOther] at recordedOther
  simp only [Environment.withPolicy] at recorded recordedOther ⊢
  rw [resolve_pending seen, resolve_pending seenOther]
  obtain ⟨mine, yours⟩ := twins.covered seen
  refine ⟨rfl, twins.alike, recorded, recordedOther, ?_, ?_, twins.promised⟩
  · -- both wait for this fetch already
    have some_one : one.2 ≠ [] := List.ne_nil_of_mem mine
    have some_other : other.2 ≠ [] := List.ne_nil_of_mem yours
    simp [some_one, some_other]
  · intro k under waiting
    obtain ⟨left, right⟩ := twins.covered waiting
    exact ⟨List.mem_append_left _ left, List.mem_append_left _ right⟩

/-- Where a key is unknown to both, the source receives the same request as the same number, and
treats it alike. -/
theorem submit {e other : Exchange} {fetches fetchesOther : List FetchId}
    (twins : Twins plan (e, fetches) (other, fetchesOther)) {k : LookupKey}
    (seen : e.cache.slot? k = none) (source : Source) (q : Request) {after afterOther : Exchange}
    (made : after = Exchange.submit source { e with cache := (e.cache.consult k).2 }
      ⟨k, e.cache.nextFetch⟩ q)
    (madeOther : afterOther = Exchange.submit source
      { other with cache := (other.cache.consult k).2 } ⟨k, other.cache.nextFetch⟩ q)
    (recorded : after.Recorded (fetches ++ [e.cache.nextFetch]))
    (recordedOther : afterOther.Recorded (fetchesOther ++ [other.cache.nextFetch])) :
    Twins plan (after, fetches ++ [e.cache.nextFetch])
      (afterOther, fetchesOther ++ [other.cache.nextFetch]) := by
  obtain ⟨⟨same, nextFetch, requests⟩, before, beforeOther, -, covered, promised⟩ := twins
  simp only at same nextFetch requests before beforeOther covered promised
  have received : e.received = other.received := congrArg List.length requests
  have seenOther : other.cache.slot? k = none := (same k).symm.trans seen
  have slots : ∀ key, after.cache.slot? key = if key = k then
      (source e.received q).leaves e.cache.nextFetch else e.cache.slot? key := by
    rw [made]
    exact slot?_submit seen source q
  -- what waits now waits for the new fetch, or waited before
  have waits_now : ∀ {key fetch}, after.cache.slot? key = some (.pending fetch) →
      (key = k ∧ fetch = e.cache.nextFetch) ∨
        (key ≠ k ∧ e.cache.slot? key = some (.pending fetch)) := by
    intro key fetch waiting
    rw [slots] at waiting
    by_cases here : key = k
    · rw [if_pos here] at waiting
      exact .inl ⟨here, Treatment.fetch_of_leaves waiting⟩
    · rw [if_neg here] at waiting
      exact .inr ⟨here, waiting⟩
  refine ⟨⟨?_, ?_, ?_⟩, recorded, recordedOther, by simp, ?_, ?_⟩
  · intro key
    rw [slots, madeOther, slot?_submit seenOther, received, nextFetch, same]
  · rw [made, madeOther, nextFetch_submit, nextFetch_submit, Cache.consult_unknown seen,
      Cache.consult_unknown seenOther]
    exact congrArg Nat.succ nextFetch
  · rw [made, madeOther, requests_submit, requests_submit]
    exact congrArg _ requests
  · intro key fetch waiting
    rcases waits_now waiting with ⟨-, rfl⟩ | ⟨-, already⟩
    · simp [nextFetch]
    · obtain ⟨mine, yours⟩ := covered already
      exact ⟨List.mem_append_left _ mine, List.mem_append_left _ yours⟩
  · intro key fetch waiting
    rcases waits_now waiting with ⟨rfl, rfl⟩ | ⟨differs, already⟩
    · have mine : after.Owes plan ⟨key, e.cache.nextFetch⟩
          ((source e.received q).promise plan e.cache.nextFetch q) := by
        rw [made]
        exact owes_submit_new (before.fresh key) _ source q
      have yours : afterOther.Owes plan ⟨key, e.cache.nextFetch⟩
          ((source e.received q).promise plan e.cache.nextFetch q) := by
        rw [madeOther, received, nextFetch]
        exact owes_submit_new (beforeOther.fresh key) _ source q
      exact ⟨_, mine, yours⟩
    · obtain ⟨fate, owes, owesOther⟩ := promised already
      have other_ticket : ∀ n, (⟨key, fetch⟩ : Ticket) ≠ ⟨k, n⟩ :=
        fun n together => differs (congrArg Ticket.key together)
      have mine : after.Owes plan ⟨key, fetch⟩ fate := by
        rw [made]
        exact owes_submit_of_ne owes (other_ticket _) _ source q
      have yours : afterOther.Owes plan ⟨key, fetch⟩ fate := by
        rw [madeOther]
        exact owes_submit_of_ne owesOther (other_ticket _) _ source q
      exact ⟨fate, mine, yours⟩

/-- A lookup of an unknown key asks the source the same, and the source treats it alike. -/
theorem answer_unknown (twins : Twins plan one other) {r : Reference}
    (seen : one.1.cache.slot? (LookupKey.ofReference r) = none)
    (policy policyOther : PendingPolicy) :
    ((env.withPolicy policy).answer r one).1 = ((env.withPolicy policyOther).answer r other).1 ∧
      Twins plan ((env.withPolicy policy).answer r one).2
        ((env.withPolicy policyOther).answer r other).2 := by
  have seenOther := seen
  rw [twins.alike.slots] at seenOther
  have recorded := recorded_resolve twins.recorded env.source (env.withPolicy policy).settings r
  have recordedOther :=
    recorded_resolve twins.recordedOther env.source (env.withPolicy policyOther).settings r
  rw [resolve_unknown seen] at recorded
  rw [resolve_unknown seenOther] at recordedOther
  unfold Environment.answer
  simp only [Environment.withPolicy] at recorded recordedOther ⊢
  rw [resolve_unknown seen, resolve_unknown seenOther]
  exact ⟨rfl, twins.submit seen env.source (requestFor env.settings r) rfl rfl recorded
    recordedOther⟩

/-- What a lookup finds, and where it leads, does not depend on the policy. -/
theorem answer (twins : Twins plan one other) (r : Reference) (policy policyOther : PendingPolicy) :
    ((env.withPolicy policy).answer r one).1 = ((env.withPolicy policyOther).answer r other).1 ∧
      Twins plan ((env.withPolicy policy).answer r one).2
        ((env.withPolicy policyOther).answer r other).2 := by
  cases seen : one.1.cache.slot? (LookupKey.ofReference r) with
  | none => exact twins.answer_unknown env seen policy policyOther
  | some slot =>
      cases slot with
      | pending fetch => exact twins.answer_pending env seen policy policyOther
      | resolved found =>
          have seenOther := seen
          rw [twins.alike.slots] at seenOther
          simp only [Environment.answer, resolve_resolved seen, resolve_resolved seenOther,
            Option.toList_none, List.append_nil]
          exact ⟨trivial, twins⟩

theorem run {α : Type} (d : Dialogue α) (policy policyOther : PendingPolicy) :
    ∀ {one other : Exchange × List FetchId}, Twins plan one other →
      (d.run (env.withPolicy policy).answer one).1 =
          (d.run (env.withPolicy policyOther).answer other).1 ∧
        Twins plan (d.run (env.withPolicy policy).answer one).2
          (d.run (env.withPolicy policyOther).answer other).2 := by
  induction d with
  | done result =>
      intro one other twins
      exact ⟨rfl, twins⟩
  | ask question next ih =>
      intro one other twins
      obtain ⟨same, after⟩ := twins.answer env question policy policyOther
      rw [Dialogue.run_ask, Dialogue.run_ask, same]
      exact ih _ after

theorem evaluate (twins : Twins plan one other) (mode : Mode) (subject : Record) (text : String)
    (policy policyOther : PendingPolicy) :
    ((env.withPolicy policy).evaluate mode subject text one).1 =
        ((env.withPolicy policyOther).evaluate mode subject text other).1 ∧
      Twins plan ((env.withPolicy policy).evaluate mode subject text one).2
        ((env.withPolicy policyOther).evaluate mode subject text other).2 :=
  twins.run env _ policy policyOther

end Twins

/-- Two rounds that were made of the same, each with the exchange that it left: they differ in
nothing but how often they wait for a fetch. -/
structure TwinRounds {α : Type} (plan : Plan) (one other : Round α × Exchange) : Prop where
  value : one.1.value = other.1.value
  problems : one.1.problems = other.1.problems
  waits : one.1.pending = [] ↔ other.1.pending = []
  alike : one.2.Matches other.2
  twins : one.1.pending ≠ [] → Twins plan (one.2, one.1.pending) (other.2, other.1.pending)

section Rounds

variable {plan : Plan} {env : Environment} {e other : Exchange} {mode : Mode} {subject : Record}

theorem Twins.round (twins : Twins plan (e, []) (other, [])) (text : String)
    (policy policyOther : PendingPolicy) :
    TwinRounds plan ((env.withPolicy policy).round mode subject text e)
      ((env.withPolicy policyOther).round mode subject text other) := by
  obtain ⟨same, after⟩ := twins.evaluate env mode subject text policy policyOther
  unfold Environment.round
  generalize (env.withPolicy policy).evaluate mode subject text (e, []) = one at same after ⊢
  generalize (env.withPolicy policyOther).evaluate mode subject text (other, []) = two
    at same after ⊢
  obtain ⟨result, next, pending⟩ := one
  obtain ⟨resultOther, nextOther, pendingOther⟩ := two
  simp only at same
  subst same
  cases result with
  | ok v => exact ⟨rfl, rfl, after.waits, after.alike, fun _ => after⟩
  | error problem => exact ⟨rfl, rfl, Iff.rfl, after.alike, fun waits => absurd rfl waits⟩

/-- Rounds of several expressions that are made of the same are twins as long as they go on. -/
theorem Twins.continueAll (exprs : List (String × String)) (policy policyOther : PendingPolicy) :
    ∀ {one two : Round (List (String × Value)) × Exchange}, one.1.value = two.1.value →
      one.1.problems = two.1.problems → Twins plan (one.2, one.1.pending) (two.2, two.1.pending) →
      TwinRounds plan ((env.withPolicy policy).continueAll mode subject exprs one)
        ((env.withPolicy policyOther).continueAll mode subject exprs two) := by
  induction exprs with
  | nil =>
      intro one two value problems twins
      exact ⟨value, problems, twins.waits, twins.alike, fun _ => twins⟩
  | cons expr rest ih =>
      intro one two value problems twins
      obtain ⟨same, after⟩ := twins.evaluate env mode subject expr.2 policy policyOther
      simp only [Environment.continueAll]
      rw [← same]
      cases ((env.withPolicy policy).evaluate mode subject expr.2 (one.2, one.1.pending)).1 with
      | ok v => exact ih (congrArg (ByName.place expr.1 (mode.wrap v)) value) problems after
      | error problem =>
          have more : one.1.problems ++ [Problem.expression problem] =
              two.1.problems ++ [Problem.expression problem] := by rw [problems]
          exact ih value more after

theorem Twins.roundAll (twins : Twins plan (e, []) (other, [])) (exprs : List (String × String))
    (policy policyOther : PendingPolicy) :
    TwinRounds plan ((env.withPolicy policy).roundAll mode subject exprs e)
      ((env.withPolicy policyOther).roundAll mode subject exprs other) := by
  rw [Environment.roundAll_eq, Environment.roundAll_eq]
  exact Twins.continueAll exprs policy policyOther rfl rfl twins

/-- Between two rounds the fetches finish. Whenever each of them does, nothing is under way then,
and every key has come to what the source had in store for it. -/
theorem Twins.next {fetches fetchesOther : List FetchId}
    (twins : Twins plan (e, fetches) (other, fetchesOther)) {after afterOther : Exchange}
    (proceeds : Exchange.Proceeds plan e after)
    (proceedsOther : Exchange.Proceeds plan other afterOther)
    (ready : ∀ fetch ∈ fetches, after.cache.isReady fetch = true)
    (readyOther : ∀ fetch ∈ fetchesOther, afterOther.cache.isReady fetch = true) :
    Twins plan (after, []) (afterOther, []) := by
  have recorded := proceeds.reaches.recorded twins.recorded
  have recordedOther := proceedsOther.reaches.recorded twins.recordedOther
  have settled : ∀ {k fetch}, e.cache.slot? k = some (.pending fetch) →
      ∃ fate, after.cache.slot? k = Ticket.leaves fate ∧
        afterOther.cache.slot? k = Ticket.leaves fate := by
    intro k fetch waiting
    obtain ⟨mine, yours⟩ := twins.covered waiting
    obtain ⟨fate, owes, owesOther⟩ := twins.promised waiting
    have waitingOther : other.cache.slot? k = some (.pending fetch) :=
      (twins.alike.slots k).symm.trans waiting
    refine ⟨fate, ?_, ?_⟩
    · rcases proceeds.keeps_promise waiting owes with still | done
      · exact absurd still (recorded.not_pending_of_ready (ready fetch mine) k)
      · exact done
    · rcases proceedsOther.keeps_promise waitingOther owesOther with still | done
      · exact absurd still (recordedOther.not_pending_of_ready (readyOther fetch yours) k)
      · exact done
  have slots : ∀ k, after.cache.slot? k = afterOther.cache.slot? k ∧
      ∀ fetch, after.cache.slot? k ≠ some (.pending fetch) := by
    intro k
    by_cases waits : ∃ fetch, e.cache.slot? k = some (.pending fetch)
    · obtain ⟨fetch, waiting⟩ := waits
      obtain ⟨fate, mine, yours⟩ := settled waiting
      rw [mine, yours]
      cases fate <;> simp [Ticket.leaves]
    · have quiet : ∀ fetch, e.cache.slot? k ≠ some (.pending fetch) :=
        fun fetch waiting => waits ⟨fetch, waiting⟩
      have same := twins.alike.slots k
      have mine := proceeds.stays quiet
      have yours := proceedsOther.stays (same ▸ quiet)
      rw [mine, yours]
      exact ⟨same, quiet⟩
  exact {
    alike := {
      slots := fun k => (slots k).1
      nextFetch := by
        rw [proceeds.nextFetch, proceedsOther.nextFetch]
        exact twins.alike.nextFetch
      requests := by
        rw [proceeds.requests, proceedsOther.requests]
        exact twins.alike.requests }
    recorded := recorded.forget
    recordedOther := recordedOther.forget
    waits := Iff.rfl
    covered := fun waiting => absurd waiting ((slots _).2 _)
    promised := fun waiting => absurd waiting ((slots _).2 _) }

end Rounds

/-- Two results whose rounds are twins come to the same outcome after the same requests. The
induction is on the rounds of the one; those of the other follow. -/
theorem TwinRounds.completes {α : Type} {plan : Plan} {pass passOther : StateM Exchange (Round α)}
    {limit : Nat}
    (passes : ∀ {e other}, Twins plan (e, []) (other, []) →
      TwinRounds plan (pass e) (passOther other))
    {p : Progress α} {e after : Exchange} {o : Outcome α}
    (completes : Completes (Exchange.Proceeds plan) pass limit p e o after) :
    ∀ {pOther : Progress α} {other afterOther : Exchange} {oOther : Outcome α},
      TwinRounds plan (p.round, e) (pOther.round, other) → p.rounds = pOther.rounds →
      Completes (Exchange.Proceeds plan) passOther limit pOther other oOther afterOther →
      o = oOther ∧ after.Matches afterOther := by
  induction completes with
  | @settled p e complete =>
      intro pOther other afterOther oOther twins count completesOther
      have completeOther := twins.waits.mp complete
      cases completesOther with
      | settled _ =>
          have value : p.round.value = pOther.round.value := twins.value
          have problems : p.round.problems = pOther.round.problems := twins.problems
          have waits : pOther.round.pending = [] := completeOther
          refine ⟨?_, twins.alike⟩
          simp only [Progress.outcome, value, problems, count, complete, waits]
      | outOfRounds waits => exact absurd completeOther waits
      | again waits => exact absurd completeOther waits
  | @outOfRounds p e waits last =>
      intro pOther other afterOther oOther twins count completesOther
      cases completesOther with
      | settled completeOther => exact absurd (twins.waits.mpr completeOther) waits
      | outOfRounds _ _ =>
          have value : p.round.value = pOther.round.value := twins.value
          have problems : p.round.problems = pOther.round.problems := twins.problems
          refine ⟨?_, twins.alike⟩
          simp only [Progress.outOfRounds, value, problems, count]
      | again _ below => omega
  | @again p e between after o waits below acted ready rest ih =>
      intro pOther other afterOther oOther twins count completesOther
      cases completesOther with
      | settled completeOther => exact absurd (twins.waits.mpr completeOther) waits
      | outOfRounds _ last => omega
      | again _ _ actedOther readyOther restOther =>
          have next := (twins.twins waits).next acted actedOther ready readyOther
          apply ih _ (congrArg Nat.succ count) restOther
          exact passes next

/-- Two results, each polled in its own way from the same exchange on, agree: each ends if the
source uses its tickets, and where both have ended they have the same outcome, the same requests
were made, in the same order, and the same is left in the cache. -/
structure Settling.Agrees {α : Type} (s : Settling α) (wait : Nat → Exchange → Exchange)
    (t : Settling α) (waitOther : Nat → Exchange → Exchange) (e : Exchange) : Prop where
  ends : s.Served wait e → ∃ n o after, s.drive wait n e = (.finished o, after)
  endsOther : t.Served waitOther e → ∃ n o after, t.drive waitOther n e = (.finished o, after)
  same : ∀ {n m o oOther after afterOther}, s.drive wait n e = (.finished o, after) →
    t.drive waitOther m e = (.finished oOther, afterOther) →
    o = oOther ∧ after.requests = afterOther.requests ∧
      (∀ k, after.cache.slot? k = afterOther.cache.slot? k) ∧
      after.cache.resolvedCount = afterOther.cache.resolvedCount ∧
      after.cache.pendingCount = afterOther.cache.pendingCount

section Runs

variable {plan : Plan} {e : Exchange} {wait waitOther : Nat → Exchange → Exchange}

/-- What a poll leaves behind is recorded, if its rounds are. -/
private theorem recorded_of_completes {α : Type} {pass : StateM Exchange (Round α)} {limit : Nat}
    (passes : ∀ e, e.Recorded [] → (pass e).2.Recorded (pass e).1.pending) {p : Progress α}
    {after : Exchange} {o : Outcome α}
    (completes : Completes (Exchange.Proceeds plan) pass limit p e o after)
    (recorded : e.Recorded []) : after.Recorded [] := by
  induction completes with
  | settled => exact recorded
  | outOfRounds => exact recorded
  | again _ _ acted _ _ ih =>
      have between := acted.reaches.recorded recorded
      exact ih (passes _ between).forget

/-- Results with the same limit, whose rounds are twins, agree where nothing is under way. -/
theorem Settling.agrees_of_twinRounds {α : Type} {s t : Settling α} (fresh : s.latest = none)
    (freshOther : t.latest = none) (limit : t.limit = s.limit)
    (passes : ∀ e, e.Recorded [] → (s.pass e).2.Recorded (s.pass e).1.pending)
    (passesOther : ∀ e, e.Recorded [] → (t.pass e).2.Recorded (t.pass e).1.pending)
    (twins : ∀ {e other}, Twins plan (e, []) (other, []) →
      TwinRounds plan (s.pass e) (t.pass other))
    (recorded : e.Recorded []) (quiet : ∀ k fetch, e.cache.slot? k ≠ some (.pending fetch))
    (waits : ∀ n x, Exchange.Proceeds plan x (wait n x))
    (waitsOther : ∀ n x, Exchange.Proceeds plan x (waitOther n x)) :
    s.Agrees wait t waitOther e := by
  have compose : ∀ a b c, Exchange.Proceeds plan a b → Exchange.Proceeds plan b c →
      Exchange.Proceeds plan a c := fun _ _ _ => .trans
  have reaches : ∀ a b, Exchange.Proceeds plan a b → Exchange.Reaches (fun _ => True) a b :=
    fun _ _ proceeds => proceeds.reaches
  refine ⟨?_, ?_, ?_⟩
  · exact finishes_of_served .idle compose reaches fresh passes waits recorded
  · exact finishes_of_served .idle compose reaches freshOther passesOther waitsOther recorded
  · intro n m o oOther after afterOther finished finishedOther
    have completes := Completes.of_fresh .idle compose fresh waits finished
    have completesOther := Completes.of_fresh .idle compose freshOther waitsOther finishedOther
    rw [limit] at completesOther
    have rounds : TwinRounds plan ((s.first e).1.round, (s.first e).2)
        ((t.first e).1.round, (t.first e).2) := twins (.of_quiet recorded quiet)
    obtain ⟨outcome, alike⟩ :=
      TwinRounds.completes twins completes rounds rfl completesOther
    have tidy := (recorded_of_completes passes completes (passes e recorded).forget).tidy
    have tidyOther :=
      (recorded_of_completes passesOther completesOther (passesOther e recorded).forget).tidy
    exact ⟨outcome, alike.requests, alike.slots,
      Cache.resolvedCount_eq tidy tidyOther alike.slots,
      Cache.pendingCount_eq tidy tidyOther alike.slots⟩

end Runs

namespace Environment

variable {env : Environment} {mode : Mode} {subject : Record}

theorem recorded_round (text : String) (e : Exchange) (recorded : e.Recorded []) :
    (env.round mode subject text e).2.Recorded (env.round mode subject text e).1.pending :=
  (env.roundAmong_round (Exchange.Reaches.refl fun _ => True) mode subject text e).recorded
    (fun acted => acted.recorded) recorded

theorem recorded_roundAll (exprs : List (String × String)) (e : Exchange)
    (recorded : e.Recorded []) :
    (env.roundAll mode subject exprs e).2.Recorded (env.roundAll mode subject exprs e).1.pending :=
  (env.roundAllAmong_round (Exchange.Reaches.refl fun _ => True) mode subject exprs e).recorded
    (fun acted => acted.recorded) recorded

/-- The pending policy makes no difference to who is alone with a cache. Where nothing is under way
and nobody else acts on the cache, and where it is fixed by the number and the content of each
request whether it is answered at once, answered later, or dropped, an expression has the same
outcome whether it detaches from fetches under way or attaches to them. The same requests are made
in the same order, and the same is left in the cache, at whatever times between the polls the source
answers or drops what it keeps open. The same holds of several expressions. -/
theorem detach_agrees_with_attach (env : Environment) (plan : Plan) (before : List Action)
    (quiet : ∀ k fetch,
      (History.ofActions before).exchange.cache.slot? k ≠ some (.pending fetch))
    {wait waitOther : Nat → Exchange → Exchange}
    (waits : ∀ n x, Exchange.Proceeds plan x (wait n x))
    (waitsOther : ∀ n x, Exchange.Proceeds plan x (waitOther n x)) (mode : Mode)
    (subject : Record) :
    let e := (History.ofActions before).exchange
    let detach := env.withPolicy .detach
    let attach := env.withPolicy .attach
    (∀ text, (detach.single mode subject text).Agrees wait (attach.single mode subject text)
        waitOther e) ∧
      ∀ exprs, (detach.batch mode subject exprs).Agrees wait (attach.batch mode subject exprs)
        waitOther e := by
  intro e detach attach
  have recorded : e.Recorded [] := Exchange.recorded_ofActions before
  constructor
  · intro text
    exact Settling.agrees_of_twinRounds rfl rfl rfl (recorded_round text) (recorded_round text)
      (fun twins => twins.round text .detach .attach) recorded quiet waits waitsOther
  · intro exprs
    exact Settling.agrees_of_twinRounds rfl rfl rfl (recorded_roundAll exprs)
      (recorded_roundAll exprs) (fun twins => twins.roundAll exprs .detach .attach) recorded quiet
      waits waitsOther

/-- The source gets to the oldest request that it keeps open. -/
def serveOldest (plan : Plan) (e : Exchange) : Exchange :=
  e.useAll ((e.held.take 1).map fun entry => (entry.1, plan entry.1.fetch entry.2))

theorem proceeds_serveOldest (plan : Plan) (e : Exchange) :
    Exchange.Proceeds plan e (serveOldest plan e) := by
  unfold serveOldest
  cases kept : e.held with
  | nil => exact .idle e
  | cons oldest others =>
      obtain ⟨t, q⟩ := oldest
      have intends : e.Intends plan t (plan t.fetch q) := by
        right
        exact ⟨q, kept ▸ List.mem_cons_self, rfl⟩
      exact .use intends (.idle _)

/-- The first request is dropped, all others are answered. -/
def dropsFirst : Plan := fun fetch _ =>
  if fetch = 0 then none else some [Record.ofList [("area", .string "150")]]

/-- Two expressions that look the same parcel up, three times in all. -/
def areaTwice : List (String × String) :=
  [("area", parcelArea), ("same", parcelArea ++ " == " ++ parcelArea)]

theorem parcel_areas_either_way :
    let detach := (parcelEnvironment.withPolicy .detach).batch .value .empty areaTwice
    let attach := (parcelEnvironment.withPolicy .attach).batch .value .empty areaTwice
    let eager (_ : Nat) (e : Exchange) : Exchange := serveOldest dropsFirst e
    let slow (n : Nat) (e : Exchange) : Exchange :=
      if n % 2 = 0 then e else serveOldest dropsFirst e
    let o : Outcome (List (String × Value)) :=
      ⟨[("area", .string "150"), ("same", .bool true)], 3, [], true⟩
    (detach.drive eager 2 {}).1 = .finished o ∧ (attach.drive slow 4 {}).1 = .finished o ∧
      (attach.drive slow 4 {}).2.requests = (detach.drive eager 2 {}).2.requests := by
  intro detach attach eager slow o
  have finished : (detach.drive eager 2 {}).1 = .finished o := by decide +kernel
  have finishedOther : (attach.drive slow 4 {}).1 = .finished o := by decide +kernel
  have quiet : ∀ k fetch,
      (History.ofActions []).exchange.cache.slot? k ≠ some (.pending fetch) := by
    intro k fetch waiting
    cases waiting
  have waits : ∀ n x, Exchange.Proceeds dropsFirst x (eager n x) :=
    fun _ => proceeds_serveOldest dropsFirst
  have waitsOther : ∀ n x, Exchange.Proceeds dropsFirst x (slow n x) := by
    intro n x
    by_cases even : n % 2 = 0
    · show Exchange.Proceeds dropsFirst x (if n % 2 = 0 then x else _)
      rw [if_pos even]
      exact .idle x
    · show Exchange.Proceeds dropsFirst x (if n % 2 = 0 then x else _)
      rw [if_neg even]
      exact proceeds_serveOldest dropsFirst x
  have agrees := (detach_agrees_with_attach parcelEnvironment dropsFirst [] quiet waits waitsOther
    .value .empty).2 areaTwice
  obtain ⟨left, detached⟩ : ∃ left, detach.drive eager 2 {} = (.finished o, left) :=
    ⟨_, Prod.ext finished rfl⟩
  obtain ⟨leftOther, attached⟩ : ∃ left, attach.drive slow 4 {} = (.finished o, left) :=
    ⟨_, Prod.ext finishedOther rfl⟩
  obtain ⟨-, requests, -⟩ := agrees.same detached attached
  rw [detached, attached]
  exact ⟨rfl, rfl, requests.symm⟩

end Environment

end RecordExpr
