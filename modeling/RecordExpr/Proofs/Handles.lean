import RecordExpr.Proofs.Interleaving

set_option autoImplicit false

namespace RecordExpr

/-- The ticket to whose handle an action leads. -/
def Exchange.handle? (e : Exchange) : Action → Option Ticket
  | .resolve source settings r =>
    (resolve source settings r e).1.waitFor.map fun fetch => ⟨LookupKey.ofReference r, fetch⟩
  | .answer _ _ => none
  | .drop _ => none
  | .clear => none

/-- Uses a ticket: answers it with these records, or drops it. -/
def Ticket.use (t : Ticket) : Option (List Record) → Action
  | some records => .answer t records
  | none => .drop t

namespace Chronicle

/-- What has finished are the fetches of the tickets that were used. -/
theorem finished_cacheAfter (c : Chronicle) :
    (cacheAfter c).finished = (used c).map Ticket.fetch := by
  induction c with
  | nil => rfl
  | cons x c ih =>
      rw [cacheAfter_cons]
      cases x with
      | dispatched t =>
          rw [Happening.apply, Cache.finished_consult]
          exact ih
      | answered t records =>
          rw [Happening.apply, Cache.finished_deliver, ih]
          rfl
      | dropped t =>
          rw [Happening.apply, Cache.finished_abandon, ih]
          rfl
      | cleared => exact ih

/-- A fetch has one ticket. -/
theorem eq_of_fetch_eq {c : Chronicle} (possible : Possible c) {s t : Ticket} (first : s ∈ issued c)
    (second : t ∈ issued c) (same : s.fetch = t.fetch) : s = t :=
  List.inj_on_of_nodup_map (fetches_nodup possible) first second same

theorem isReady_iff_mem_used {c : Chronicle} (possible : Possible c) {t : Ticket}
    (known : t ∈ issued c) : (cacheAfter c).isReady t.fetch = true ↔ t ∈ used c := by
  rw [Cache.isReady_iff, finished_cacheAfter]
  constructor
  · intro finished
    obtain ⟨s, member, same⟩ := List.mem_map.mp finished
    have issued_s := mem_issued_of_mem_used possible s member
    rwa [← eq_of_fetch_eq possible issued_s known same]
  · intro member
    exact List.mem_map_of_mem member

/-- No key waits for a fetch that has finished. -/
theorem not_pending_of_isReady {c : Chronicle} (possible : Possible c) {fetch : FetchId}
    (ready : (cacheAfter c).isReady fetch = true) (k : LookupKey) :
    (cacheAfter c).slot? k ≠ some (.pending fetch) := by
  intro waits
  have running := mem_current.mp ((pending_iff_mem_current possible k fetch).mp waits)
  have known : (⟨k, fetch⟩ : Ticket) ∈ issued c := (issued_period_sublist c).subset running.1
  exact running.2 ((isReady_iff_mem_used possible known).mp ready)

theorem mem_issued_append (later : Chronicle) {c : Chronicle} {t : Ticket} (member : t ∈ issued c) :
    t ∈ issued (later ++ c) := by
  rw [issued, List.filterMap_append]
  exact List.mem_append_right _ member

end Chronicle

namespace History

open Chronicle

/-- The tickets whose handles the actions hand out. -/
def handles (h : History) : List Action → List Ticket
  | [] => []
  | first :: rest => (h.exchange.handle? first).toList ++ handles (h.perform first) rest

theorem mem_issued_perform {h : History} {t : Ticket} (member : t ∈ issued h.chronicle)
    (a : Action) : t ∈ issued (h.perform a).chronicle :=
  mem_issued_append _ member

theorem mem_issued_foldl {h : History} {t : Ticket} (member : t ∈ issued h.chronicle)
    (actions : List Action) : t ∈ issued (actions.foldl perform h).chronicle := by
  induction actions generalizing h with
  | nil => exact member
  | cons first rest ih => exact ih (mem_issued_perform member first)

/-- A handle is that of a ticket which was issued, by this lookup or by an earlier one. -/
theorem handle_issued {h : History} (faithful : h.Faithful) {a : Action} {t : Ticket}
    (handed : h.exchange.handle? a = some t) : t ∈ issued (h.perform a).chronicle := by
  obtain ⟨e, c⟩ := h
  cases a with
  | answer t records => cases handed
  | drop t => cases handed
  | clear => cases handed
  | resolve source settings r =>
      simp only [Exchange.handle?] at handed
      cases seen : e.cache.slot? (LookupKey.ofReference r) with
      | none =>
          rw [Exchange.resolve_unknown seen] at handed
          cases handed
          simp only [perform, Exchange.happenings, Cache.consult_unknown seen]
          rw [List.append_assoc]
          exact mem_issued_append _ List.mem_cons_self
      | some slot =>
          cases slot with
          | resolved found =>
              rw [Exchange.resolve_resolved seen] at handed
              cases handed
          | pending fetch =>
              rw [Exchange.resolve_pending seen] at handed
              obtain ⟨waited, given, rfl⟩ := Option.map_eq_some_iff.mp handed
              have same : fetch = waited := by
                split at given
                · exact Option.some.inj given
                · cases given
              subst same
              have pending : (cacheAfter c).slot? (LookupKey.ofReference r) =
                  some (.pending fetch) := faithful.cache ▸ seen
              have running := (pending_iff_mem_current faithful.possible _ _).mp pending
              have known := (issued_period_sublist c).subset (mem_current.mp running).1
              exact mem_issued_perform (h := ⟨e, c⟩) known (.resolve source settings r)

theorem handles_issued {h : History} (faithful : h.Faithful) (actions : List Action) :
    ∀ t ∈ h.handles actions, t ∈ issued (actions.foldl perform h).chronicle := by
  induction actions generalizing h with
  | nil => exact fun t impossible => absurd impossible List.not_mem_nil
  | cons first rest ih =>
      intro t member
      rcases List.mem_append.mp member with now | later
      · have handed := Option.mem_toList.mp now
        exact mem_issued_foldl (handle_issued faithful handed) rest
      · exact ih (faithful_perform faithful first) t later

end History

namespace Exchange

/-- The exchange has a history in which each of these fetches has its ticket. -/
def Recorded (e : Exchange) (fetches : List FetchId) : Prop :=
  ∃ c, History.Faithful ⟨e, c⟩ ∧ ∀ fetch ∈ fetches, ∃ t ∈ Chronicle.issued c, t.fetch = fetch

variable {e after : Exchange} {fetches : List FetchId}

theorem recorded_ofActions (actions : List Action) :
    Recorded (History.ofActions actions).exchange [] :=
  ⟨_, History.faithful_ofActions actions, nofun⟩

theorem recorded_perform (recorded : e.Recorded fetches) (a : Action) :
    (e.perform a).Recorded fetches := by
  obtain ⟨c, faithful, known⟩ := recorded
  refine ⟨_, History.faithful_perform faithful a, ?_⟩
  intro fetch member
  obtain ⟨t, issued, same⟩ := known fetch member
  exact ⟨t, History.mem_issued_perform (h := ⟨e, c⟩) issued a, same⟩

theorem Reaches.recorded {allowed : Action → Prop} (reaches : Reaches allowed e after)
    (recorded : e.Recorded fetches) : after.Recorded fetches :=
  Reaches.keeps (P := fun x => x.Recorded fetches)
    (fun _ a _ recorded => recorded_perform recorded a) reaches recorded

/-- What a lookup hands out is recorded with it. -/
theorem recorded_resolve (recorded : e.Recorded fetches) (source : Source) (settings : Settings)
    (r : Reference) :
    (resolve source settings r e).2.Recorded
      (fetches ++ (resolve source settings r e).1.waitFor.toList) := by
  obtain ⟨c, faithful, known⟩ := recorded
  have next := History.faithful_perform faithful (.resolve source settings r)
  refine ⟨_, next, ?_⟩
  intro fetch member
  rcases List.mem_append.mp member with older | handed
  · obtain ⟨t, issued, same⟩ := known fetch older
    exact ⟨t, History.mem_issued_perform (h := ⟨e, c⟩) issued (.resolve source settings r), same⟩
  · have waits := Option.mem_toList.mp handed
    have handle : e.handle? (.resolve source settings r) =
        some ⟨LookupKey.ofReference r, fetch⟩ := by
      rw [handle?, waits]
      rfl
    exact ⟨_, History.handle_issued (h := ⟨e, c⟩) faithful handle, rfl⟩

/-- Whatever is done to an exchange continues its history. -/
theorem Reaches.faithful {allowed : Action → Prop} (reaches : Reaches allowed e after)
    {c : Chronicle} (faithful : History.Faithful ⟨e, c⟩) :
    ∃ later, History.Faithful ⟨after, later ++ c⟩ := by
  refine Reaches.keeps (P := fun x => ∃ later, History.Faithful ⟨x, later ++ c⟩) ?_ reaches
    ⟨[], faithful⟩
  rintro between a - ⟨later, known⟩
  refine ⟨between.happenings a ++ later, ?_⟩
  rw [List.append_assoc]
  exact History.faithful_perform known a

/-- Who waits, waits for a ticket that the source has, and as soon as the source has used it the
wait is over. -/
theorem Recorded.held (recorded : e.Recorded fetches) {fetch : FetchId}
    (member : fetch ∈ fetches) :
    e.cache.isReady fetch = true ∨
      ∃ t ∈ e.outstanding, ∀ {allowed : Action → Prop} {after : Exchange},
        Reaches allowed e after → t ∉ after.outstanding →
          after.cache.isReady fetch = true := by
  obtain ⟨c, faithful, known⟩ := recorded
  obtain ⟨t, issued, rfl⟩ := known fetch member
  by_cases usedNow : t ∈ Chronicle.used c
  · have cache : e.cache = Chronicle.cacheAfter c := faithful.cache
    left
    rw [cache]
    exact (Chronicle.isReady_iff_mem_used faithful.possible issued).mpr usedNow
  · right
    have unused := Chronicle.mem_outstanding.mpr ⟨issued, usedNow⟩
    refine ⟨t, faithful.mem_outstanding.mpr unused, ?_⟩
    intro allowed after reaches gone
    obtain ⟨later, continued⟩ := reaches.faithful faithful
    have issuedLater := Chronicle.mem_issued_append later issued
    have cache : after.cache = Chronicle.cacheAfter (later ++ c) := continued.cache
    rw [cache, Chronicle.isReady_iff_mem_used continued.possible issuedLater]
    by_contra unusedLater
    exact gone (continued.mem_outstanding.mpr
      (Chronicle.mem_outstanding.mpr ⟨issuedLater, unusedLater⟩))

theorem Recorded.ready_of_used (recorded : e.Recorded fetches) (none_left : e.outstanding = []) :
    fetches.all e.cache.isReady = true := by
  rw [List.all_eq_true]
  intro fetch member
  rcases recorded.held member with ready | ⟨t, outstanding, -⟩
  · exact ready
  · rw [none_left] at outstanding
    cases outstanding

/-- No key waits for a fetch that has finished. -/
theorem Recorded.not_pending_of_ready (recorded : e.Recorded fetches) {fetch : FetchId}
    (ready : e.cache.isReady fetch = true) (k : LookupKey) :
    e.cache.slot? k ≠ some (.pending fetch) := by
  obtain ⟨c, faithful, -⟩ := recorded
  have cache : e.cache = Chronicle.cacheAfter c := faithful.cache
  rw [cache] at ready ⊢
  exact Chronicle.not_pending_of_isReady faithful.possible ready k

/-- A ticket that has been used is with the source no more. -/
theorem outstanding_use (e : Exchange) (t : Ticket) (records : Option (List Record)) :
    (e.perform (t.use records)).outstanding = e.outstanding.filter fun s => s ≠ t := by
  by_cases held : t ∈ e.outstanding
  · cases records with
    | some records =>
        rw [Ticket.use, perform, if_pos held]
        exact outstanding_withdraw e t
    | none =>
        rw [Ticket.use, perform, if_pos held]
        exact outstanding_withdraw e t
  · have unchanged : e.perform (t.use records) = e := by
      cases records with
      | some records => rw [Ticket.use, perform, if_neg held]
      | none => rw [Ticket.use, perform, if_neg held]
    rw [unchanged, List.filter_eq_self.mpr]
    intro s member
    rw [decide_eq_true_eq]
    rintro rfl
    exact held member

/-- The exchange after these tickets were used one after the other. -/
def useAll (e : Exchange) (uses : List (Ticket × Option (List Record))) : Exchange :=
  (uses.map fun u => u.1.use u.2).foldl perform e

theorem outstanding_useAll (uses : List (Ticket × Option (List Record))) :
    ∀ e : Exchange, (e.useAll uses).outstanding =
      e.outstanding.filter fun t => t ∉ uses.map Prod.fst := by
  induction uses with
  | nil =>
      intro e
      simp only [useAll, List.map_nil, List.foldl_nil, List.not_mem_nil, not_false_eq_true,
        decide_true, List.filter_true]
  | cons first rest ih =>
      intro e
      have step : (e.useAll (first :: rest)).outstanding =
          ((e.perform (first.1.use first.2)).useAll rest).outstanding := rfl
      rw [step, ih, outstanding_use, List.filter_filter]
      apply List.filter_congr
      intro t _
      simp only [List.map_cons, List.mem_cons, not_or, ne_eq, Bool.decide_and]
      exact Bool.and_comm _ _

theorem reaches_useAll (e : Exchange) (uses : List (Ticket × Option (List Record))) :
    Reaches (fun _ => True) e (e.useAll uses) :=
  ⟨_, fun _ _ => trivial, rfl⟩

end Exchange

namespace Environment

variable {env : Environment} {others : Exchange → Exchange → Prop} {mode : Mode} {subject : Record}

/-- Everything that a dialogue waits for is recorded, if what others do keeps records. -/
theorem Answers.recorded
    (acts : ∀ {e after fetches}, others e after → e.Recorded fetches → after.Recorded fetches)
    {α : Type} {d : Dialogue α} {state after : Exchange × List FetchId} {result : α}
    (answers : env.Answers others d state result after) (recorded : state.1.Recorded state.2) :
    after.1.Recorded after.2 := by
  induction answers with
  | done => exact recorded
  | @ask question next e between pending result after acted rest ih =>
      exact ih (Exchange.recorded_resolve (acts acted recorded) env.source env.settings question)

theorem AnswersAll.recorded
    (acts : ∀ {e after fetches}, others e after → e.Recorded fetches → after.Recorded fetches)
    {exprs : List (String × String)} {round last : Round (List (String × Value))}
    {e after : Exchange} (answers : env.AnswersAll others mode subject exprs round e last after)
    (recorded : e.Recorded round.pending) : after.Recorded last.pending := by
  induction answers with
  | done => exact recorded
  | @next _ _ _ round _ _ _ _ pending result answers _ ih =>
      have evaluated := answers.recorded acts recorded
      apply ih
      cases result with
      | ok v => exact evaluated
      | error problem => exact evaluated

theorem RoundAmong.recorded
    (acts : ∀ {e after fetches}, others e after → e.Recorded fetches → after.Recorded fetches)
    {text : String} {e after : Exchange} {round : Round Value}
    (made : env.RoundAmong others mode subject text e round after) (recorded : e.Recorded []) :
    after.Recorded round.pending := by
  obtain ⟨result, pending, answers, rfl⟩ := made
  have evaluated := answers.recorded acts recorded
  cases result with
  | ok v => exact evaluated
  | error problem =>
      -- a failed evaluation waits for nothing
      obtain ⟨c, faithful, -⟩ := evaluated
      exact ⟨c, faithful, nofun⟩

end Environment

/-- A round, of one expression or of several, that was made in some history while others acted, left
these fetches to wait for, and others have led on to this exchange. -/
def Exchange.Awaits (e : Exchange) (fetches : List FetchId) : Prop :=
  ∃ (before : List Action) (env : Environment) (mode : Mode) (subject : Record) (made : Exchange),
    ((∃ text round, round.pending = fetches ∧ env.RoundAmong (Reaches fun _ => True) mode subject
        text (History.ofActions before).exchange round made) ∨
      ∃ exprs round, round.pending = fetches ∧ env.RoundAllAmong (Reaches fun _ => True) mode
        subject exprs (History.ofActions before).exchange round made) ∧
    Reaches (fun _ => True) made e

theorem Exchange.Awaits.recorded {e : Exchange} {fetches : List FetchId}
    (awaits : e.Awaits fetches) : e.Recorded fetches := by
  obtain ⟨before, env, mode, subject, made, round, reaches⟩ := awaits
  have begins := Exchange.recorded_ofActions before
  apply reaches.recorded
  rcases round with ⟨text, round, rfl, one⟩ | ⟨exprs, round, rfl, all⟩
  · exact one.recorded (fun acted => acted.recorded) begins
  · exact all.recorded (fun acted => acted.recorded) begins

namespace History

open Chronicle

/-- A handle is ready exactly if the ticket of its fetch was answered or dropped. When it is ready
no key waits for the fetch, and while it is not the source has the ticket. So once every ticket that
the source has was answered or dropped, in any order, all handles are ready, and every round that
waits can go on. -/
theorem ready_exactly_when_used (actions : List Action) :
    let h := ofActions actions
    (∀ t ∈ handles {} actions,
      (t ∈ issued h.chronicle ∧ ∀ s ∈ issued h.chronicle, s.fetch = t.fetch → s = t) ∧
      (h.exchange.cache.isReady t.fetch = true ↔ t ∈ used h.chronicle) ∧
      (h.exchange.cache.isReady t.fetch = true →
        ∀ k, h.exchange.cache.slot? k ≠ some (.pending t.fetch)) ∧
      (h.exchange.cache.isReady t.fetch = false → t ∈ h.exchange.outstanding)) ∧
    ∀ uses, (∀ t ∈ h.exchange.outstanding, t ∈ uses.map Prod.fst) →
      (h.exchange.useAll uses).outstanding = [] ∧
      (∀ t ∈ handles {} actions, (h.exchange.useAll uses).cache.isReady t.fetch = true) ∧
      ∀ fetches, h.exchange.Awaits fetches →
        fetches.all (h.exchange.useAll uses).cache.isReady = true := by
  intro h
  have faithful : h.Faithful := faithful_ofActions actions
  have issuedAll := handles_issued faithful_start actions
  refine ⟨?_, ?_⟩
  · intro t member
    have known : t ∈ issued h.chronicle := issuedAll t member
    refine ⟨⟨known, ?_⟩, ?_, ?_, ?_⟩
    · intro s other same
      exact eq_of_fetch_eq faithful.possible other known same
    · rw [faithful.cache]
      exact isReady_iff_mem_used faithful.possible known
    · rw [faithful.cache]
      exact not_pending_of_isReady faithful.possible
    · intro unready
      have unused : t ∉ used h.chronicle := by
        intro usedNow
        rw [faithful.cache, (isReady_iff_mem_used faithful.possible known).mpr usedNow] at unready
        cases unready
      exact faithful.mem_outstanding.mpr (Chronicle.mem_outstanding.mpr ⟨known, unused⟩)
  · intro uses covered
    have none_left : (h.exchange.useAll uses).outstanding = [] := by
      rw [Exchange.outstanding_useAll, List.filter_eq_nil_iff]
      intro t member
      simpa only [decide_eq_true_eq, not_not] using covered t member
    have reaches := h.exchange.reaches_useAll uses
    refine ⟨none_left, ?_, ?_⟩
    · intro t member
      have recorded : h.exchange.Recorded [t.fetch] := by
        refine ⟨h.chronicle, faithful, ?_⟩
        intro fetch here
        exact ⟨t, issuedAll t member, (List.mem_singleton.mp here).symm⟩
      have ready := (reaches.recorded recorded).ready_of_used none_left
      exact List.all_eq_true.mp ready t.fetch (List.mem_singleton_self _)
    · intro fetches awaits
      exact (reaches.recorded awaits.recorded).ready_of_used none_left

end History

end RecordExpr
