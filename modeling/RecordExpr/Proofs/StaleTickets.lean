import RecordExpr.Proofs.Handles

set_option autoImplicit false

namespace RecordExpr

namespace Cache

variable {c : Cache} {t : Ticket}

/-- An answer that no slot waits for does nothing but finish its fetch. -/
theorem deliver_of_not_owns (unowned : c.owns t = false) (records : List Record) :
    c.deliver t records = c.finish t.fetch := by
  rw [deliver, unowned, if_neg Bool.false_ne_true]

theorem abandon_of_not_owns (unowned : c.owns t = false) : c.abandon t = c.finish t.fetch := by
  rw [abandon, unowned, if_neg Bool.false_ne_true]

theorem isReady_finish (c : Cache) (fetch other : FetchId) :
    (c.finish fetch).isReady other = true ↔ other = fetch ∨ c.isReady other = true := by
  rw [isReady_iff, isReady_iff]
  exact List.mem_cons

end Cache

namespace Chronicle

/-- The period goes back to the latest clear and no further. -/
theorem period_sublist_later (later earlier : Chronicle) :
    (period (later ++ .cleared :: earlier)).Sublist later := by
  induction later with
  | nil => exact List.nil_sublist _
  | cons x later ih =>
      rw [period, List.cons_append, List.takeWhile_cons]
      split
      · exact ih.cons_cons x
      · exact List.nil_sublist _

/-- A ticket that was issued before a clear is not one of the period that the clear began, nor of
any later one. -/
theorem not_mem_period_of_earlier {later earlier : Chronicle}
    (possible : Possible (later ++ .cleared :: earlier)) {t : Ticket}
    (issuedBefore : t ∈ issued earlier) :
    t ∉ issued (period (later ++ .cleared :: earlier)) := by
  intro again
  have late : t ∈ issued later := ((period_sublist_later later earlier).filterMap _).subset again
  have distinct : (issued later ++ issued (.cleared :: earlier)).Nodup := by
    rw [issued, issued, ← List.filterMap_append]
    exact issued_nodup possible
  exact (List.nodup_append.mp distinct).2.2 t late t issuedBefore rfl

/-- No slot waits for a ticket of an earlier period. -/
theorem not_owns_of_earlier {c : Chronicle} (possible : Possible c) {t : Ticket}
    (earlier : t ∉ issued (period c)) : (cacheAfter c).owns t = false := by
  rw [← Bool.not_eq_true, Cache.owns_iff, pending_iff_mem_current possible, mem_current]
  exact fun now => earlier now.1

end Chronicle

/-- The use of a ticket that no slot waits for takes it from the source and finishes its fetch. -/
theorem Exchange.perform_use_of_not_owns {e : Exchange} {t : Ticket} (unused : t ∈ e.outstanding)
    (unowned : e.cache.owns t = false) (records : Option (List Record)) :
    e.perform (t.use records) = { e.withdraw t with cache := e.cache.finish t.fetch } := by
  cases records with
  | some records =>
      rw [Ticket.use, perform, if_pos unused, Cache.deliver_of_not_owns unowned]
  | none => rw [Ticket.use, perform, if_pos unused, Cache.abandon_of_not_owns unowned]

namespace History

open Chronicle

/-- What was done later stands before what was done earlier. -/
theorem chronicle_foldl (h : History) (actions : List Action) :
    ∃ later, (actions.foldl perform h).chronicle = later ++ h.chronicle := by
  induction actions generalizing h with
  | nil => exact ⟨[], rfl⟩
  | cons first rest ih =>
      obtain ⟨later, parts⟩ := ih (h.perform first)
      refine ⟨later ++ h.exchange.happenings first, ?_⟩
      rw [List.foldl_cons, parts, List.append_assoc]
      rfl

/-- A clear isolates the periods. When a ticket that was issued before a clear is used after it, by
whatever answer or by being dropped, no slot changes, so every key is known as before and the counts
stay. The source has all its other tickets as before, and of all handles exactly those of the
ticket's own fetch become ready. -/
theorem clear_isolates (before after : List Action) (t : Ticket)
    (issuedBefore : t ∈ issued (ofActions before).chronicle)
    (unused : t ∈ (ofActions (before ++ .clear :: after)).exchange.outstanding)
    (records : Option (List Record)) :
    let e := (ofActions (before ++ .clear :: after)).exchange
    let next := e.perform (t.use records)
    next.cache.slots = e.cache.slots ∧
      (∀ k, next.cache.lookup k = e.cache.lookup k) ∧
      next.cache.resolvedCount = e.cache.resolvedCount ∧
      next.cache.pendingCount = e.cache.pendingCount ∧
      next.outstanding = e.outstanding.filter (fun s => s ≠ t) ∧
      (∀ fetch, fetch ≠ t.fetch → next.cache.isReady fetch = e.cache.isReady fetch) ∧
      ∀ s ∈ handles {} (before ++ .clear :: after),
        (e.cache.isReady s.fetch = false ∧ next.cache.isReady s.fetch = true ↔ s = t) := by
  intro e next
  have faithful : Faithful (ofActions (before ++ .clear :: after)) := faithful_ofActions _
  obtain ⟨later, parts⟩ := chronicle_foldl ((ofActions before).perform .clear) after
  have chronicle : (ofActions (before ++ .clear :: after)).chronicle =
      later ++ .cleared :: (ofActions before).chronicle := by
    rw [ofActions, List.foldl_append]
    exact parts
  have possible := faithful.possible
  rw [chronicle] at possible
  have unowned : e.cache.owns t = false := by
    rw [faithful.cache, chronicle]
    exact not_owns_of_earlier possible (not_mem_period_of_earlier possible issuedBefore)
  have result : next = { e.withdraw t with cache := e.cache.finish t.fetch } :=
    Exchange.perform_use_of_not_owns unused unowned records
  have cache : next.cache = e.cache.finish t.fetch := congrArg Exchange.cache result
  have ready : ∀ fetch, next.cache.isReady fetch = true ↔
      fetch = t.fetch ∨ e.cache.isReady fetch = true := by
    intro fetch
    rw [cache]
    exact Cache.isReady_finish e.cache t.fetch fetch
  refine ⟨?_, ?_, ?_, ?_, Exchange.outstanding_use e t records, ?_, ?_⟩
  · rw [cache]
    rfl
  · intro k
    rw [cache]
    rfl
  · rw [cache]
    rfl
  · rw [cache]
    rfl
  · intro fetch other
    rw [Bool.eq_iff_iff, ready, or_iff_right other]
  · intro s handed
    have known := handles_issued faithful_start _ s handed
    have knownUnused := Chronicle.mem_outstanding.mp (faithful.mem_outstanding.mp unused)
    constructor
    · rintro ⟨unready, readyNow⟩
      rcases (ready s.fetch).mp readyNow with same | already
      · exact eq_of_fetch_eq faithful.possible known knownUnused.1 same
      · rw [unready] at already
        cases already
    · rintro rfl
      refine ⟨?_, (ready _).mpr (.inl rfl)⟩
      rw [← Bool.not_eq_true]
      intro readyBefore
      have cacheBefore : e.cache = cacheAfter _ := faithful.cache
      rw [cacheBefore, isReady_iff_mem_used faithful.possible known] at readyBefore
      exact knownUnused.2 readyBefore

/-- The parcel is asked for again after a clear, and then the request from before the clear is
answered: the key goes on waiting for the second request, and only the first handle is ready. -/
theorem parcel_asked_again_after_clear :
    let asks : Action := .resolve Source.holding {} ⟨"parcels", "id", .string "42"⟩
    let first : Ticket := ⟨⟨"parcels", "id", "42"⟩, 0⟩
    let e := (ofActions [asks, .clear, asks]).exchange
    let next := e.perform (first.use (some [Record.empty]))
    first ∈ issued (ofActions [asks]).chronicle ∧ first ∈ e.outstanding ∧
      next.cache.slots = [(first.key, .pending 1)] ∧
      e.cache.isReady 0 = false ∧ next.cache.isReady 0 = true ∧ next.cache.isReady 1 = false := by
  intro asks first e next
  have issuedBefore : first ∈ issued (ofActions [asks]).chronicle := List.mem_cons_self
  have unused : first ∈ e.outstanding := List.mem_cons_self
  obtain ⟨slots, -, -, -, -, others, handles⟩ :=
    clear_isolates [asks] [asks] first issuedBefore unused (some [Record.empty])
  have handed := (handles first List.mem_cons_self).mpr rfl
  exact ⟨issuedBefore, unused, slots, handed.1, handed.2, others 1 (by decide)⟩

end History

end RecordExpr
