import RecordExpr.Proofs.BatchSettling

set_option autoImplicit false

namespace RecordExpr

namespace Exchange

theorem received_submit (source : Source) (e : Exchange) (ticket : Ticket) (q : Request) :
    (submit source e ticket q).received = e.received + 1 := by
  unfold submit
  cases source e.received q <;> rfl

/-- A lookup sends one request, or none. -/
theorem received_resolve (source : Source) (settings : Settings) (r : Reference) (e : Exchange) :
    (resolve source settings r e).2.received = e.received ∨
      (resolve source settings r e).2.received = e.received + 1 := by
  cases seen : e.cache.slot? (LookupKey.ofReference r) with
  | some slot =>
      cases slot with
      | resolved found => rw [resolve_resolved seen]; exact .inl rfl
      | pending fetch => rw [resolve_pending seen]; exact .inl rfl
  | none =>
      rw [resolve_unknown seen]
      exact .inr (received_submit source _ _ _)

end Exchange

namespace Environment

/-- How a dialogue can go among others, and how many requests its own questions send. Nothing is
known of the others, so their requests are not counted. -/
inductive Asks (env : Environment) (others : Exchange → Exchange → Prop) {α : Type} :
    Dialogue α → Exchange × List FetchId → α → Exchange × List FetchId → Nat → Prop where
  | done (result : α) (state : Exchange × List FetchId) :
      Asks env others (.done result) state result state 0
  | ask {question : Reference} {next : Option Record → Dialogue α} {e between : Exchange}
      {pending : List FetchId} {result : α} {after : Exchange × List FetchId} {sent : Nat}
      (acted : others e between)
      (rest : Asks env others (next (env.answer question (between, pending)).1)
        (env.answer question (between, pending)).2 result after sent) :
      Asks env others (.ask question next) (e, pending) result after
        ((env.answer question (between, pending)).2.1.received - between.received + sent)

/-- How a round of one expression can go among others, and how many requests it sends. -/
def RoundAsks (env : Environment) (others : Exchange → Exchange → Prop) (mode : Mode)
    (subject : Record) (text : String) (e : Exchange) (round : Round Value) (after : Exchange)
    (sent : Nat) : Prop :=
  ∃ result pending, env.Asks others (env.dialogue mode subject text) (e, []) result
      (after, pending) sent ∧
    round = Round.ofResult mode pending result

/-- How several expressions can be evaluated one after the other among others, from a round to which
the results so far belong, and how many requests they send. -/
inductive AsksAll (env : Environment) (others : Exchange → Exchange → Prop) (mode : Mode)
    (subject : Record) :
    List (String × String) → Round (List (String × Value)) → Exchange →
      Round (List (String × Value)) → Exchange → Nat → Prop where
  | done (round : Round (List (String × Value))) (e : Exchange) :
      AsksAll env others mode subject [] round e round e 0
  | next {name text : String} {rest : List (String × String)}
      {round last : Round (List (String × Value))} {e between after : Exchange}
      {pending : List FetchId} {result : Except ExprError Value} {sent more : Nat}
      (asks : env.Asks others (env.dialogue mode subject text) (e, round.pending) result
        (between, pending) sent)
      (others_follow : AsksAll env others mode subject rest
        (addResult mode name { round with pending := pending } result) between last after more) :
      AsksAll env others mode subject ((name, text) :: rest) round e last after (sent + more)

/-- How a round of several expressions can go among others, and how many requests it sends. -/
def RoundAllAsks (env : Environment) (others : Exchange → Exchange → Prop) (mode : Mode)
    (subject : Record) (exprs : List (String × String)) (e : Exchange)
    (round : Round (List (String × Value))) (after : Exchange) (sent : Nat) : Prop :=
  env.AsksAll others mode subject exprs ⟨[], [], []⟩ e round after sent

/-- The number of lookups of several expressions together. -/
def allLookups (env : Environment) (exprs : List (String × String)) : Nat :=
  exprs.foldr (fun expr total => env.lookupsOf expr.2 + total) 0

variable {env : Environment} {others : Exchange → Exchange → Prop} {mode : Mode} {subject : Record}

/-- A dialogue sends no more requests than it asks questions. -/
theorem Asks.sent_le {α : Type} {d : Dialogue α} {state after : Exchange × List FetchId}
    {result : α} {sent n : Nat} (asks : env.Asks others d state result after sent)
    (most : Dialogue.AsksAtMost n d) : sent ≤ n := by
  induction asks generalizing n with
  | done => exact Nat.zero_le n
  | @ask question next e between pending result after sent acted rest ih =>
      cases most with
      | @ask n _ _ others_most =>
          have later : sent ≤ n := ih (others_most _)
          have here := Exchange.received_resolve env.source env.settings question between
          change (Exchange.resolve env.source env.settings question between).2.received -
            between.received + sent ≤ n + 1
          omega

theorem RoundAsks.sent_le {text : String} {e after : Exchange} {round : Round Value} {sent : Nat}
    (made : env.RoundAsks others mode subject text e round after sent) :
    sent ≤ env.lookupsOf text := by
  obtain ⟨result, pending, asks, -⟩ := made
  exact asks.sent_le (env.asksAtMost_dialogue mode subject text)

theorem AsksAll.sent_le {exprs : List (String × String)}
    {round last : Round (List (String × Value))} {e after : Exchange} {sent : Nat}
    (asks : env.AsksAll others mode subject exprs round e last after sent) :
    sent ≤ env.allLookups exprs := by
  induction asks with
  | done => exact Nat.zero_le _
  | @next _ text rest _ _ _ _ _ _ _ sent more here _ ih =>
      have first := here.sent_le (env.asksAtMost_dialogue mode subject text)
      exact Nat.add_le_add first ih

end Environment

/-- All that the round reports is errors of expressions. -/
def Round.ReportsErrors {α : Type} (round : Round α) : Prop :=
  ∀ problem ∈ round.problems, ∃ e, problem = .expression e

namespace Environment

variable {env : Environment} {others : Exchange → Exchange → Prop} {mode : Mode} {subject : Record}

theorem reportsErrors_ofResult (mode : Mode) (pending : List FetchId)
    (result : Except ExprError Value) : (Round.ofResult mode pending result).ReportsErrors := by
  cases result with
  | ok v => exact nofun
  | error e => exact List.forall_mem_singleton.mpr ⟨e, rfl⟩

theorem reportsErrors_addResult {round : Round (List (String × Value))}
    (errors : round.ReportsErrors) (mode : Mode) (name : String)
    (result : Except ExprError Value) : (addResult mode name round result).ReportsErrors := by
  cases result with
  | ok v => exact errors
  | error e => exact List.forall_mem_append.mpr ⟨errors, List.forall_mem_singleton.mpr ⟨e, rfl⟩⟩

theorem RoundAsks.reportsErrors {text : String} {e after : Exchange} {round : Round Value}
    {sent : Nat} (made : env.RoundAsks others mode subject text e round after sent) :
    round.ReportsErrors := by
  obtain ⟨result, pending, -, rfl⟩ := made
  exact reportsErrors_ofResult mode pending result

theorem AsksAll.reportsErrors {exprs : List (String × String)}
    {round last : Round (List (String × Value))} {e after : Exchange} {sent : Nat}
    (asks : env.AsksAll others mode subject exprs round e last after sent)
    (errors : round.ReportsErrors) : last.ReportsErrors := by
  induction asks with
  | done => exact errors
  | @next name _ _ round _ _ _ _ pending result _ _ _ _ ih =>
      have noted : Round.ReportsErrors { round with pending := pending } := errors
      exact ih (reportsErrors_addResult noted mode name result)

end Environment

section Rounds

variable {α : Type}

/-- How far a result can have come that begins at an exchange: after its first round, or after one
more, once others have acted and the fetches have finished that it waited for. The requests of its
rounds add up. -/
inductive GetsTo (others : Exchange → Exchange → Prop)
    (makes : Exchange → Round α → Exchange → Nat → Prop) (limit : Nat) (start : Exchange) :
    Progress α → Exchange → Nat → Prop where
  | first {round : Round α} {e : Exchange} {sent : Nat} (made : makes start round e sent) :
      GetsTo others makes limit start ⟨round, 1⟩ e sent
  | again {p : Progress α} {e between next : Exchange} {round : Round α} {sent more : Nat}
      (before : GetsTo others makes limit start p e sent) (waits : p.round.pending ≠ [])
      (below : p.rounds < limit) (acted : others e between)
      (ready : ∀ fetch ∈ p.round.pending, between.cache.isReady fetch = true)
      (made : makes between round next more) :
      GetsTo others makes limit start ⟨round, p.rounds + 1⟩ next (sent + more)

/-- The outcomes that it can come to in the end, with the requests of its rounds: the last round
waits for nothing, or no other one is allowed. -/
inductive EndsIn (others : Exchange → Exchange → Prop)
    (makes : Exchange → Round α → Exchange → Nat → Prop) (limit : Nat) (start : Exchange) :
    Outcome α → Nat → Prop where
  | settled {p : Progress α} {e : Exchange} {sent : Nat}
      (before : GetsTo others makes limit start p e sent) (complete : p.round.pending = []) :
      EndsIn others makes limit start p.outcome sent
  | outOfRounds {p : Progress α} {e : Exchange} {sent : Nat}
      (before : GetsTo others makes limit start p e sent) (waits : p.round.pending ≠ [])
      (last : limit ≤ p.rounds) : EndsIn others makes limit start p.outOfRounds sent

variable {others : Exchange → Exchange → Prop}
  {makes : Exchange → Round α → Exchange → Nat → Prop} {limit lookups sent : Nat}
  {start e : Exchange} {p : Progress α} {o : Outcome α}

/-- Each further round is allowed, and none sends more requests than there are lookups. -/
theorem GetsTo.bounds
    (sends : ∀ e round next sent, makes e round next sent → sent ≤ lookups)
    (before : GetsTo others makes limit start p e sent) :
    1 ≤ p.rounds ∧ p.rounds ≤ max 1 limit ∧ sent ≤ p.rounds * lookups := by
  induction before with
  | first made =>
      have here := sends _ _ _ _ made
      exact ⟨Nat.le_refl 1, Nat.le_max_left 1 limit, by rwa [Nat.one_mul]⟩
  | again _ _ below _ _ made ih =>
      have here := sends _ _ _ _ made
      obtain ⟨-, -, earlier⟩ := ih
      refine ⟨Nat.succ_pos _, Nat.le_trans below (Nat.le_max_right 1 limit), ?_⟩
      rw [Nat.succ_mul]
      exact Nat.add_le_add earlier here

theorem GetsTo.reportsErrors
    (errors : ∀ e round next sent, makes e round next sent → round.ReportsErrors)
    (before : GetsTo others makes limit start p e sent) : p.round.ReportsErrors := by
  cases before with
  | first made => exact errors _ _ _ _ made
  | again _ _ _ _ _ made => exact errors _ _ _ _ made

/-- What the limit of rounds means for an outcome, whose rounds have sent so many requests. -/
structure Outcome.KeepsLimit (limit lookups sent : Nat) (o : Outcome α) : Prop where
  started : 1 ≤ o.rounds
  rounds_le : o.rounds ≤ max 1 limit
  /-- The limit is the last thing that is reported, with these rounds, or it has settled. -/
  unsettled_iff : o.settled = false ↔ o.problems.getLast? = some (.roundLimit o.rounds)
  /-- It goes on as long as that is allowed. -/
  exhausted : o.settled = false → o.rounds = max 1 limit
  sent_le : sent ≤ o.rounds * lookups

theorem EndsIn.keepsLimit
    (sends : ∀ e round next sent, makes e round next sent → sent ≤ lookups)
    (errors : ∀ e round next sent, makes e round next sent → round.ReportsErrors)
    (ends : EndsIn others makes limit start o sent) : o.KeepsLimit limit lookups sent := by
  cases ends with
  | @settled p e sent before complete =>
      obtain ⟨started, most, sent_le⟩ := before.bounds sends
      have settled : p.outcome.settled = true := List.isEmpty_iff.mpr complete
      refine ⟨started, most, ?_, ?_, sent_le⟩
      · rw [settled]
        refine ⟨nofun, ?_⟩
        intro last
        obtain ⟨problem, other⟩ := before.reportsErrors errors _ (List.mem_of_getLast? last)
        cases other
      · rw [settled]
        exact nofun
  | @outOfRounds p e sent before waits last =>
      obtain ⟨started, most, sent_le⟩ := before.bounds sends
      refine ⟨started, most, ?_, ?_, sent_le⟩
      · have reported : p.outOfRounds.problems.getLast? = some (.roundLimit p.rounds) :=
          List.getLast?_concat
        exact ⟨fun _ => reported, fun _ => rfl⟩
      · intro _
        exact Nat.le_antisymm most (Nat.max_le.mpr ⟨started, last⟩)

end Rounds

/-- The requests that the polls up to the one with number `n` have sent. -/
def Settling.sent {α : Type} (s : Settling α) (wait : Nat → Exchange → Exchange) :
    Nat → Exchange → Nat
  | 0, e => (s.poll e).2.received - e.received
  | n + 1, e =>
    s.sent wait n e +
      match s.drive wait n e with
      | (.waiting p, after) =>
        ((s.after p).poll (wait n after)).2.received - (wait n after).received
      | (.finished _, _) => 0

section Polling

variable {α : Type} {others : Exchange → Exchange → Prop}
  {makes : Exchange → Round α → Exchange → Nat → Prop} {limit : Nat} {start : Exchange}

theorem Settling.sent_succ_of_waiting {s : Settling α} {wait : Nat → Exchange → Exchange} {n : Nat}
    {p : Progress α} {after : Exchange} (driven : s.drive wait n start = (.waiting p, after)) :
    s.sent wait (n + 1) start =
      s.sent wait n start +
        ((s.drive wait (n + 1) start).2.received - (wait n after).received) := by
  rw [sent, drive_succ_of_waiting driven, driven]
  rfl

theorem Settling.sent_succ_of_finished {s : Settling α} {wait : Nat → Exchange → Exchange}
    {n : Nat} {o : Outcome α} {after : Exchange}
    (driven : s.drive wait n start = (.finished o, after)) :
    s.sent wait (n + 1) start = s.sent wait n start := by
  rw [sent, driven]
  rfl

/-- A pass is a round that can be made so, with as many requests as the source receives in it. -/
def SendsOwn (makes : Exchange → Round α → Exchange → Nat → Prop)
    (pass : StateM Exchange (Round α)) : Prop :=
  ∀ e, ∃ sent, makes e (pass e).1 (pass e).2 sent ∧ e.received + sent = (pass e).2.received

/-- What polls have come to after so many requests: it is an outcome of the result, or the round
after which it waits. -/
def Advance.Sent (others : Exchange → Exchange → Prop)
    (makes : Exchange → Round α → Exchange → Nat → Prop) (limit : Nat) (start : Exchange)
    (a : Advance α) (e : Exchange) (sent : Nat) : Prop :=
  match a with
  | .waiting p => ∃ before, GetsTo others makes limit start p before sent ∧ others before e
  | .finished o => EndsIn others makes limit start o sent

theorem GetsTo.sent_advance (idle : ∀ e, others e e) {pass : StateM Exchange (Round α)}
    (own : SendsOwn makes pass) {p : Progress α} {before e : Exchange} {sent : Nat}
    (gets : GetsTo others makes limit start p before sent) (acted : others before e) :
    ∃ more, (p.advance pass limit e).1.Sent others makes limit start (p.advance pass limit e).2
        (sent + more) ∧
      e.received + more = (p.advance pass limit e).2.received := by
  fun_induction Progress.advance pass limit p e generalizing before sent with
  | case1 p e complete => exact ⟨0, .settled gets (List.isEmpty_iff.mp complete), rfl⟩
  | case2 p e waits last =>
      exact ⟨0, .outOfRounds gets (fun none => waits (List.isEmpty_iff.mpr none)) last, rfl⟩
  | case3 p e waits below ready round next passed ih =>
      obtain ⟨here, made, received⟩ := own e
      rw [passed] at made received
      have further := gets.again (fun none => waits (List.isEmpty_iff.mpr none))
        (Nat.lt_of_not_le below) acted (List.all_eq_true.mp ready) made
      obtain ⟨later, sends, receivedLater⟩ := ih further (idle next)
      refine ⟨here + later, ?_, ?_⟩
      · rwa [← Nat.add_assoc]
      · rw [← Nat.add_assoc, received, receivedLater]
  | case4 p e waits below unready => exact ⟨0, ⟨before, gets, acted⟩, rfl⟩

/-- Polling a result that is fresh leads to what it can come to, with the requests that the polls
have sent. -/
theorem Settling.sent_drive (idle : ∀ e, others e e)
    (compose : ∀ a b c, others a b → others b c → others a c) {s : Settling α}
    (fresh : s.latest = none) (own : SendsOwn makes s.pass) {wait : Nat → Exchange → Exchange}
    (waits : ∀ n e, others e (wait n e)) (n : Nat) :
    (s.drive wait n start).1.Sent others makes s.limit start (s.drive wait n start).2
      (s.sent wait n start) := by
  induction n with
  | zero =>
      obtain ⟨here, made, received⟩ := own start
      have gets : GetsTo others makes s.limit start (s.first start).1 (s.first start).2 here :=
        .first made
      obtain ⟨later, sends, receivedLater⟩ := gets.sent_advance idle own (idle (s.first start).2)
      have polled : s.poll start = (s.first start).1.advance s.pass s.limit (s.first start).2 := by
        simp only [poll, fresh]
      have counted : s.sent wait 0 start = here + later := by
        have begun : start.received + here = (s.first start).2.received := received
        rw [sent, polled]
        omega
      rw [drive, counted, polled]
      exact sends
  | succ n ih =>
      cases driven : s.drive wait n start with
      | mk now after =>
          rw [driven] at ih
          cases now with
          | waiting p =>
              obtain ⟨before, gets, acted⟩ := ih
              obtain ⟨more, sends, received⟩ :=
                gets.sent_advance idle own (compose _ _ _ acted (waits n after))
              have next := Settling.drive_succ_of_waiting driven
              have counted : s.sent wait (n + 1) start = s.sent wait n start + more := by
                rw [sent_succ_of_waiting driven, next]
                omega
              rw [counted, next]
              exact sends
          | finished o =>
              rw [sent_succ_of_finished driven, drive, driven]
              exact ih

/-- What a fresh result has come to after some poll is an outcome of it. -/
theorem Settling.ends_of_drive (idle : ∀ e, others e e)
    (compose : ∀ a b c, others a b → others b c → others a c) {s : Settling α}
    (fresh : s.latest = none) (own : SendsOwn makes s.pass) {wait : Nat → Exchange → Exchange}
    (waits : ∀ n e, others e (wait n e)) {n : Nat} {o : Outcome α} {after : Exchange}
    (finished : s.drive wait n start = (.finished o, after)) :
    EndsIn others makes s.limit start o (s.sent wait n start) := by
  have sends : (s.drive wait n start).1.Sent others makes s.limit start
      (s.drive wait n start).2 (s.sent wait n start) :=
    Settling.sent_drive idle compose fresh own waits n
  rw [finished] at sends
  exact sends

end Polling

namespace Environment

variable {env : Environment} {others : Exchange → Exchange → Prop}

/-- A dialogue that nobody disturbs sends the requests that the source receives in it. -/
theorem asks_run (env : Environment) (idle : ∀ e, others e e) {α : Type} (d : Dialogue α)
    (state : Exchange × List FetchId) :
    ∃ sent, env.Asks others d state (d.run env.answer state).1 (d.run env.answer state).2 sent ∧
      state.1.received + sent = (d.run env.answer state).2.1.received := by
  induction d generalizing state with
  | done result => exact ⟨0, .done result state, rfl⟩
  | ask question next ih =>
      obtain ⟨later, asks, received⟩ :=
        ih (env.answer question state).1 (env.answer question state).2
      refine ⟨_, .ask (idle state.1) asks, ?_⟩
      have here := Exchange.received_resolve env.source env.settings question state.1
      have grown : state.1.received ≤ (env.answer question state).2.1.received := by
        change state.1.received ≤
          (Exchange.resolve env.source env.settings question state.1).2.received
        omega
      rw [Dialogue.run_ask, ← received]
      change state.1.received + ((env.answer question state).2.1.received - _ + later) = _
      omega

theorem sendsOwn_round (env : Environment) (idle : ∀ e, others e e) (mode : Mode)
    (subject : Record) (text : String) :
    SendsOwn (env.RoundAsks others mode subject text) (env.round mode subject text) := by
  intro e
  obtain ⟨sent, asks, received⟩ := env.asks_run idle (env.dialogue mode subject text) (e, [])
  exact ⟨sent, ⟨_, _, asks, rfl⟩, received⟩

theorem sendsOwn_roundAll (env : Environment) (idle : ∀ e, others e e) (mode : Mode)
    (subject : Record) (exprs : List (String × String)) :
    SendsOwn (env.RoundAllAsks others mode subject exprs) (env.roundAll mode subject exprs) := by
  intro e
  unfold RoundAllAsks Environment.roundAll
  generalize (⟨[], [], []⟩ : Round (List (String × Value))) = round
  induction exprs generalizing round e with
  | nil => exact ⟨0, .done round e, rfl⟩
  | cons expr rest ih =>
      obtain ⟨sent, asks, received⟩ :=
        env.asks_run idle (env.dialogue mode subject expr.2) (e, round.pending)
      obtain ⟨more, others_follow, receivedLater⟩ := ih _ _
      refine ⟨sent + more, .next asks others_follow, ?_⟩
      rw [← Nat.add_assoc, received]
      exact receivedLater

end Environment

namespace Environment

variable (env : Environment) (others : Exchange → Exchange → Prop) (mode : Mode) (subject : Record)

/-- Whatever the source does and whatever others do, between the lookups of a round as well as while
the result waits: an expression and a batch end within the rounds that are allowed, at least one in
any case, and report the limit exactly if they have not settled. None of their rounds sends more
requests than their expressions have lookups. -/
theorem round_ceiling (start : Exchange) :
    (∀ text o sent,
      EndsIn others (env.RoundAsks others mode subject text) env.settings.maxRounds start o sent →
        o.KeepsLimit env.settings.maxRounds (env.lookupsOf text) sent) ∧
      ∀ exprs o sent,
        EndsIn others (env.RoundAllAsks others mode subject exprs) env.settings.maxRounds start o
            sent →
          o.KeepsLimit env.settings.maxRounds (env.allLookups exprs) sent := by
  refine ⟨?_, ?_⟩
  · intro text o sent ends
    exact ends.keepsLimit (fun _ _ _ _ made => made.sent_le) fun _ _ _ _ made => made.reportsErrors
  · intro exprs o sent ends
    have nothing : Round.ReportsErrors (⟨[], [], []⟩ : Round (List (String × Value))) := by
      rintro problem ⟨⟩
    exact ends.keepsLimit (fun _ _ _ _ made => AsksAll.sent_le made)
      fun _ _ _ _ made => AsksAll.reportsErrors made nothing

/-- Only two rounds are allowed. -/
def tightEnvironment : Environment := ⟨Source.holding, { maxRounds := 2 }⟩

/-- Drops everything that was asked since the last poll. -/
def dropAll (_poll : Nat) (e : Exchange) : Exchange :=
  e.useAll (e.outstanding.map fun t => (t, none))

def areaAndOwner : List (String × String) :=
  [("area", parcelArea), ("owner", "getFeature('owners', 'id', '7').parcel")]

/-- Where everything is dropped, each round sends all of its requests again, and none is left out of
the count. -/
theorem dropped_lookups_exhaust_rounds :
    (((tightEnvironment.single .value .empty parcelArea).drive dropAll 1 {}).1 =
        .finished ⟨.null, 2, [.roundLimit 2], false⟩ ∧
      Outcome.KeepsLimit 2 1 2 (⟨.null, 2, [.roundLimit 2], false⟩ : Outcome Value)) ∧
      ((tightEnvironment.batch .value .empty areaAndOwner).drive dropAll 1 {}).1 =
        .finished ⟨[("area", .null), ("owner", .null)], 2, [.roundLimit 2], false⟩ ∧
      Outcome.KeepsLimit 2 2 4
        (⟨[("area", .null), ("owner", .null)], 2, [.roundLimit 2], false⟩ :
          Outcome (List (String × Value))) := by
  have idle := Exchange.Reaches.refl fun _ => True
  have waits : ∀ n e, Exchange.Reaches (fun _ => True) e (dropAll n e) :=
    fun _ e => Exchange.reaches_useAll e _
  have alone : ((tightEnvironment.single .value .empty parcelArea).drive dropAll 1 {}).1 =
      .finished ⟨.null, 2, [.roundLimit 2], false⟩ := by
    decide +kernel
  have sentAlone : (tightEnvironment.single .value .empty parcelArea).sent dropAll 1 {} = 2 := by
    decide +kernel
  have together : ((tightEnvironment.batch .value .empty areaAndOwner).drive dropAll 1 {}).1 =
      .finished ⟨[("area", .null), ("owner", .null)], 2, [.roundLimit 2], false⟩ := by
    decide +kernel
  have sentTogether :
      (tightEnvironment.batch .value .empty areaAndOwner).sent dropAll 1 {} = 4 := by
    decide +kernel
  have endsAlone := Settling.ends_of_drive idle (fun _ _ _ => .trans)
    (s := tightEnvironment.single .value .empty parcelArea) rfl
    (tightEnvironment.sendsOwn_round idle .value .empty parcelArea) waits (Prod.ext alone rfl)
  have endsTogether := Settling.ends_of_drive idle (fun _ _ _ => .trans)
    (s := tightEnvironment.batch .value .empty areaAndOwner) rfl
    (tightEnvironment.sendsOwn_roundAll idle .value .empty areaAndOwner) waits
    (Prod.ext together rfl)
  have ceiling := tightEnvironment.round_ceiling (Exchange.Reaches fun _ => True) .value .empty {}
  have lookups : tightEnvironment.lookupsOf parcelArea = 1 ∧
      tightEnvironment.allLookups areaAndOwner = 2 := by
    constructor
    · decide +kernel
    · decide +kernel
  rw [sentAlone] at endsAlone
  rw [sentTogether] at endsTogether
  have keepsAlone := ceiling.1 parcelArea _ _ endsAlone
  have keepsTogether := ceiling.2 areaAndOwner _ _ endsTogether
  rw [lookups.1] at keepsAlone
  rw [lookups.2] at keepsTogether
  exact ⟨⟨alone, keepsAlone⟩, together, keepsTogether⟩

end Environment

end RecordExpr
