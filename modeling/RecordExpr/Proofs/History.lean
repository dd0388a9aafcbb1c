import RecordExpr.Fetch.Exchange
import RecordExpr.Proofs.Chronicle

set_option autoImplicit false

namespace RecordExpr

/-- What can be done to an exchange: a lookup, by anyone and with whatever source; the answer to a
request that a source still has, or its loss; a clear. A source that looks up or clears while it is
being asked holds its request and does so right after. -/
inductive Action where
  | resolve (source : Source) (settings : Settings) (r : Reference)
  | answer (t : Ticket) (records : List Record)
  | drop (t : Ticket)
  | clear

/-- What becomes of a ticket before the lookup returns that issued it. -/
def Treatment.happenings (t : Ticket) : Treatment → Chronicle
  | .answer records => [.answered t records]
  | .drop => [.dropped t]
  | .answerLater _ => []
  | .hold => []

namespace Exchange

/-- The tickets that a source still has: of requests that it keeps open, and of answers on their
way. -/
def outstanding (e : Exchange) : List Ticket := e.held.map Prod.fst ++ e.due.map Delivery.ticket

/-- Takes a ticket away from the source. -/
def withdraw (e : Exchange) (t : Ticket) : Exchange :=
  { e with
    held := e.held.filter fun entry => entry.1 ≠ t
    due := e.due.filter fun d => d.ticket ≠ t }

/-- A ticket is used up by an answer or by its loss, so nothing happens without it. -/
def perform (e : Exchange) : Action → Exchange
  | .resolve source settings r => (resolve source settings r e).2
  | .answer t records =>
    if t ∈ e.outstanding then { e.withdraw t with cache := e.cache.deliver t records } else e
  | .drop t => if t ∈ e.outstanding then { e.withdraw t with cache := e.cache.abandon t } else e
  | .clear => { e with cache := e.cache.clear }

/-- What happens in an action, the latest first. A lookup of an unknown key issues a ticket, which
the source may use before the lookup returns. -/
def happenings (e : Exchange) : Action → Chronicle
  | .resolve source settings r =>
    match (e.cache.consult (LookupKey.ofReference r)).1 with
    | .dispatch t => (source e.received (requestFor settings r)).happenings t ++ [.dispatched t]
    | _ => []
  | .answer t records => if t ∈ e.outstanding then [.answered t records] else []
  | .drop t => if t ∈ e.outstanding then [.dropped t] else []
  | .clear => [.cleared]

theorem outstanding_withdraw (e : Exchange) (t : Ticket) :
    (e.withdraw t).outstanding = e.outstanding.filter fun s => s ≠ t := by
  simp only [outstanding, withdraw, List.filter_append, List.filter_map, Function.comp_def]

end Exchange

structure History where
  exchange : Exchange := {}
  chronicle : Chronicle := []

namespace History

open Chronicle

def perform (h : History) (a : Action) : History :=
  { exchange := h.exchange.perform a
    chronicle := h.exchange.happenings a ++ h.chronicle }

/-- The history of these actions, from an empty cache on. -/
def ofActions (actions : List Action) : History := actions.foldl perform {}

/-- The chronicle is that of the exchange. -/
structure Faithful (h : History) : Prop where
  possible : Possible h.chronicle
  cache : h.exchange.cache = cacheAfter h.chronicle
  outstanding : h.exchange.outstanding.Perm (outstanding h.chronicle)
  received : h.exchange.received = (issued h.chronicle).length

theorem faithful_start : Faithful {} := ⟨.start, rfl, .refl _, rfl⟩

theorem Faithful.mem_outstanding {h : History} (faithful : h.Faithful) {t : Ticket} :
    t ∈ h.exchange.outstanding ↔ t ∈ Chronicle.outstanding h.chronicle :=
  faithful.outstanding.mem_iff

/-- A ticket that the source uses before the lookup returns leaves all others outstanding. -/
private theorem filter_ne_cons {t : Ticket} {tickets : List Ticket} (fresh : t ∉ tickets) :
    ((t :: tickets).filter fun s => s ≠ t) = tickets := by
  rw [List.filter_cons_of_neg (by simp), List.filter_eq_self]
  intro s member
  rw [decide_eq_true_eq]
  rintro rfl
  exact fresh member

/-- The request for a new ticket keeps the chronicle faithful, whatever the source does with it. -/
theorem faithful_submit {e : Exchange} {c : Chronicle} (faithful : Faithful ⟨e, c⟩) {k : LookupKey}
    (unknown : e.cache.slot? k = none) (source : Source) (q : Request) :
    Faithful
      ⟨Exchange.submit source { e with cache := (e.cache.consult k).2 } ⟨k, e.cache.nextFetch⟩ q,
        (source e.received q).happenings ⟨k, e.cache.nextFetch⟩ ++
          .dispatched ⟨k, e.cache.nextFetch⟩ :: c⟩ := by
  obtain ⟨possible, cache, outstanding, received⟩ := faithful
  simp only at possible cache outstanding received
  rw [cache] at unknown ⊢
  have issued := Possible.dispatched k possible unknown
  have more := outstanding_dispatched (next_not_mem_used possible k)
  have fresh : ⟨k, (cacheAfter c).nextFetch⟩ ∉ Chronicle.outstanding c :=
    fun member => next_not_mem_issued possible k (Chronicle.mem_outstanding.mp member).1
  have here : ⟨k, (cacheAfter c).nextFetch⟩ ∈
      Chronicle.outstanding (.dispatched ⟨k, (cacheAfter c).nextFetch⟩ :: c) := by
    rw [more]
    exact List.mem_cons_self
  cases treated : source e.received q with
  | answer records =>
      refine ⟨.answered records issued here, ?_, ?_, ?_⟩
      · simp only [Exchange.submit, treated]
        rfl
      · simp only [Exchange.submit, treated, Treatment.happenings, List.singleton_append]
        rw [outstanding_answered, more, filter_ne_cons fresh]
        exact outstanding
      · simp only [Exchange.submit, treated]
        exact congrArg Nat.succ received
  | answerLater records =>
      refine ⟨issued, ?_, ?_, ?_⟩
      · simp only [Exchange.submit, treated]
        rfl
      · simp only [Exchange.submit, treated, Treatment.happenings, List.nil_append, more,
          Exchange.outstanding, List.map_append, List.map_cons, List.map_nil, ← List.append_assoc]
        exact (List.perm_append_singleton _ _).trans (outstanding.cons _)
      · simp only [Exchange.submit, treated]
        exact congrArg Nat.succ received
  | drop =>
      refine ⟨.dropped issued here, ?_, ?_, ?_⟩
      · simp only [Exchange.submit, treated]
        rfl
      · simp only [Exchange.submit, treated, Treatment.happenings, List.singleton_append]
        rw [outstanding_dropped, more, filter_ne_cons fresh]
        exact outstanding
      · simp only [Exchange.submit, treated]
        exact congrArg Nat.succ received
  | hold =>
      refine ⟨issued, ?_, ?_, ?_⟩
      · simp only [Exchange.submit, treated]
        rfl
      · simp only [Exchange.submit, treated, Treatment.happenings, List.nil_append, more,
          Exchange.outstanding, List.map_append, List.map_cons, List.map_nil, List.append_assoc,
          List.singleton_append]
        exact List.perm_middle.trans (outstanding.cons _)
      · simp only [Exchange.submit, treated]
        exact congrArg Nat.succ received

theorem faithful_resolve {h : History} (faithful : h.Faithful) (source : Source)
    (settings : Settings) (r : Reference) : (h.perform (.resolve source settings r)).Faithful := by
  obtain ⟨e, c⟩ := h
  simp only [perform, Exchange.perform, Exchange.happenings]
  cases seen : e.cache.slot? (LookupKey.ofReference r) with
  | some slot =>
      cases slot with
      | resolved found =>
          simpa only [Exchange.resolve_resolved seen, Cache.consult, seen, List.nil_append]
            using faithful
      | pending fetch =>
          simpa only [Exchange.resolve_pending seen, Cache.consult, seen, List.nil_append]
            using faithful
  | none =>
      have submitted := faithful_submit faithful seen source (Exchange.requestFor settings r)
      rw [Exchange.resolve_unknown seen]
      simpa only [Cache.consult_unknown seen, List.append_assoc, List.singleton_append]
        using submitted

/-- A ticket that the source has is used once, and then the source has it no more. -/
private theorem faithful_use {e : Exchange} {c : Chronicle} (faithful : Faithful ⟨e, c⟩)
    {t : Ticket} {x : Happening} (possible : Possible (x :: c))
    (uses : outstanding (x :: c) = (outstanding c).filter fun s => s ≠ t)
    (issues : issued (x :: c) = issued c) :
    Faithful ⟨{ e.withdraw t with cache := x.apply e.cache }, x :: c⟩ := by
  refine ⟨possible, congrArg x.apply faithful.cache, ?_, issues ▸ faithful.received⟩
  change (e.withdraw t).outstanding.Perm (outstanding (x :: c))
  rw [uses, Exchange.outstanding_withdraw]
  exact faithful.outstanding.filter _

theorem faithful_perform {h : History} (faithful : h.Faithful) (a : Action) :
    (h.perform a).Faithful := by
  obtain ⟨e, c⟩ := h
  cases a with
  | resolve source settings r => exact faithful_resolve faithful source settings r
  | answer t records =>
      by_cases held : t ∈ e.outstanding
      · have unused := faithful.mem_outstanding.mp held
        simp only [perform, Exchange.perform, Exchange.happenings, if_pos held]
        exact faithful_use faithful (.answered records faithful.possible unused)
          (outstanding_answered c t records) rfl
      · simpa only [perform, Exchange.perform, Exchange.happenings, if_neg held, List.nil_append]
          using faithful
  | drop t =>
      by_cases held : t ∈ e.outstanding
      · have unused := faithful.mem_outstanding.mp held
        simp only [perform, Exchange.perform, Exchange.happenings, if_pos held]
        have possible := Chronicle.Possible.dropped faithful.possible unused
        exact faithful_use faithful possible (outstanding_dropped c t) rfl
      · simpa only [perform, Exchange.perform, Exchange.happenings, if_neg held, List.nil_append]
          using faithful
  | clear =>
      exact ⟨.cleared faithful.possible, congrArg Cache.clear faithful.cache, faithful.outstanding,
        faithful.received⟩

theorem faithful_foldl {h : History} (faithful : h.Faithful) (actions : List Action) :
    (actions.foldl perform h).Faithful := by
  induction actions generalizing h with
  | nil => exact faithful
  | cons first rest ih => exact ih (faithful_perform faithful first)

theorem faithful_ofActions (actions : List Action) : (ofActions actions).Faithful :=
  faithful_foldl faithful_start actions

/-- Pending means in flight: in every history a key is pending with a fetch exactly if there is one
ticket for that key and fetch that was issued since the last clear and neither answered nor dropped.
No two tickets ever issued carry the same fetch, and the tickets that were neither answered nor
dropped are those that a source still has. -/
theorem pending_iff_in_flight (actions : List Action) :
    let h := ofActions actions
    (∀ k f, h.exchange.cache.slot? k = some (.pending f) ↔ (current h.chronicle).count ⟨k, f⟩ = 1) ∧
      ((issued h.chronicle).map Ticket.fetch).Nodup ∧
      h.exchange.outstanding.Perm (outstanding h.chronicle) := by
  intro h
  have faithful : h.Faithful := faithful_ofActions actions
  refine ⟨?_, fetches_nodup faithful.possible, faithful.outstanding⟩
  intro k f
  rw [faithful.cache, pending_iff_mem_current faithful.possible,
    (current_nodup faithful.possible).count]
  by_cases member : (⟨k, f⟩ : Ticket) ∈ current h.chronicle
  · simp only [member, if_true]
  · simp only [member, if_false, Nat.zero_ne_one]

/-- Between clears each key only goes from unknown to pending and on to a result, which lasts; it
becomes unknown again only when the ticket of its own current fetch is dropped. So the requests for
it since the last clear are those of them that were dropped, and one more if it is pending or
resolved now. The source has received one request for each ticket. -/
theorem slots_move_forward (actions : List Action) :
    let h := ofActions actions
    h.exchange.cache = cacheAfter h.chronicle ∧
      (∀ later x earlier, h.chronicle = later ++ x :: earlier → x ≠ .cleared →
        ∀ k, SlotStep k x ((cacheAfter earlier).slot? k) ((cacheAfter (x :: earlier)).slot? k)) ∧
      (∀ later within earlier, h.chronicle = later ++ (within ++ earlier) → .cleared ∉ within →
        ∀ k found, (cacheAfter earlier).slot? k = some (.resolved found) →
          (cacheAfter (within ++ earlier)).slot? k = some (.resolved found)) ∧
      (∀ k, (issued (period h.chronicle)).countP (fun t => t.key = k) =
        (issued (period h.chronicle)).countP (fun t => t.key = k ∧ t ∈ dropped h.chronicle) +
          if h.exchange.cache.slot? k = none then 0 else 1) ∧
      h.exchange.received = (issued h.chronicle).length := by
  intro h
  have faithful : h.Faithful := faithful_ofActions actions
  refine ⟨faithful.cache, ?_, ?_, ?_, faithful.received⟩
  · intro later x earlier parts goes_on k
    have possible : Possible (later ++ x :: earlier) := parts ▸ faithful.possible
    exact slotStep_of_possible (possible.earlier later) goes_on k
  · intro later within earlier parts unbroken k found known
    have possible : Possible (later ++ (within ++ earlier)) := parts ▸ faithful.possible
    exact resolved_stays within (possible.earlier later) unbroken known
  · intro k
    rw [faithful.cache]
    exact issued_count faithful.possible k

end History

end RecordExpr
