import RecordExpr.Proofs.CacheView

set_option autoImplicit false

namespace RecordExpr

/-- What a ticket leaves in the slot that waits for it. -/
def Ticket.leaves : Option (List Record) → Option Slot
  | some records => some (.resolved (Datasets.only? records))
  | none => none

namespace Cache

/-- The cache after a ticket was answered with these records, or dropped. -/
def use (c : Cache) (t : Ticket) : Option (List Record) → Cache
  | some records => c.deliver t records
  | none => c.abandon t

theorem slot?_use (c : Cache) (t : Ticket) (records : Option (List Record)) (k : LookupKey) :
    (c.use t records).slot? k =
      if c.owns t ∧ k = t.key then Ticket.leaves records else c.slot? k := by
  cases records with
  | some records => exact slot?_deliver c t records k
  | none => exact slot?_abandon c t k

@[simp] theorem nextFetch_use (c : Cache) (t : Ticket) (records : Option (List Record)) :
    (c.use t records).nextFetch = c.nextFetch := by
  cases records with
  | some records => exact nextFetch_deliver c t records
  | none => exact nextFetch_abandon c t

@[simp] theorem finished_use (c : Cache) (t : Ticket) (records : Option (List Record)) :
    (c.use t records).finished = t.fetch :: c.finished := by
  cases records with
  | some records => exact finished_deliver c t records
  | none => exact finished_abandon c t

end Cache

namespace Exchange

variable {e other : Exchange} {s t : Ticket}

/-- Only a ticket that the source still has can be used. -/
theorem perform_use (e : Exchange) (t : Ticket) (records : Option (List Record)) :
    e.perform (t.use records) =
      if t ∈ e.outstanding then { e.withdraw t with cache := e.cache.use t records } else e := by
  cases records with
  | some records => rfl
  | none => rfl

/-- A ticket is seen under its own key alone, if the source still had it and the slot waited for
it. -/
theorem slot?_use (e : Exchange) (t : Ticket) (records : Option (List Record)) (k : LookupKey) :
    (e.perform (t.use records)).cache.slot? k =
      if t ∈ e.outstanding ∧ e.cache.owns t ∧ k = t.key then Ticket.leaves records
      else e.cache.slot? k := by
  rw [perform_use]
  by_cases held : t ∈ e.outstanding
  · rw [if_pos held]
    simp only [held, true_and]
    exact Cache.slot?_use e.cache t records k
  · rw [if_neg held, if_neg fun all => held all.1]

theorem isReady_use (e : Exchange) (t : Ticket) (records : Option (List Record))
    (fetch : FetchId) :
    (e.perform (t.use records)).cache.isReady fetch = true ↔
      (t ∈ e.outstanding ∧ fetch = t.fetch) ∨ e.cache.isReady fetch = true := by
  rw [perform_use, Cache.isReady_iff, Cache.isReady_iff]
  by_cases held : t ∈ e.outstanding
  · simp [held]
  · simp [held]

theorem nextFetch_use (e : Exchange) (t : Ticket) (records : Option (List Record)) :
    (e.perform (t.use records)).cache.nextFetch = e.cache.nextFetch := by
  rw [perform_use]
  split
  · exact Cache.nextFetch_use e.cache t records
  · rfl

theorem mem_outstanding_use (records : Option (List Record)) :
    s ∈ (e.perform (t.use records)).outstanding ↔ s ∈ e.outstanding ∧ s ≠ t := by
  rw [outstanding_use, List.mem_filter, decide_eq_true_eq]

/-- Whether a slot waits for a ticket does not depend on the use of other tickets. -/
theorem owns_use (differs : s ≠ t) (records : Option (List Record)) :
    (e.perform (t.use records)).cache.owns s = e.cache.owns s := by
  rw [Bool.eq_iff_iff, Cache.owns_iff, Cache.owns_iff, slot?_use]
  by_cases taken : t ∈ e.outstanding ∧ e.cache.owns t = true ∧ s.key = t.key
  · have waits := (Cache.owns_iff e.cache t).mp taken.2.1
    have unlike : t.fetch ≠ s.fetch := by
      intro same
      apply differs
      cases s
      cases t
      simp_all
    rw [if_pos taken, taken.2.2, waits]
    cases records with
    | some records => simp [Ticket.leaves, unlike]
    | none => simp [Ticket.leaves, unlike]
  · rw [if_neg taken]

/-- Two tickets that can write to the slot of one key are the same ticket. -/
theorem eq_of_owns (first : e.cache.owns s = true) (second : e.cache.owns t = true)
    (same : s.key = t.key) : s = t := by
  rw [Cache.owns_iff] at first second
  rw [same, second] at first
  cases s
  cases t
  simp_all

/-- What can be seen of two exchanges is the same. -/
structure Alike (e other : Exchange) : Prop where
  slots : ∀ k, e.cache.slot? k = other.cache.slot? k
  nextFetch : e.cache.nextFetch = other.cache.nextFetch
  ready : ∀ fetch, e.cache.isReady fetch = other.cache.isReady fetch
  outstanding : e.outstanding = other.outstanding

theorem Alike.refl (e : Exchange) : e.Alike e := ⟨fun _ => rfl, rfl, fun _ => rfl, rfl⟩

theorem Alike.trans {between : Exchange} (first : e.Alike between) (second : between.Alike other) :
    e.Alike other where
  slots k := (first.slots k).trans (second.slots k)
  nextFetch := first.nextFetch.trans second.nextFetch
  ready fetch := (first.ready fetch).trans (second.ready fetch)
  outstanding := first.outstanding.trans second.outstanding

theorem Alike.owns (alike : e.Alike other) (t : Ticket) : e.cache.owns t = other.cache.owns t := by
  rw [Bool.eq_iff_iff, Cache.owns_iff, Cache.owns_iff, alike.slots]

theorem Alike.use (alike : e.Alike other) (t : Ticket) (records : Option (List Record)) :
    (e.perform (t.use records)).Alike (other.perform (t.use records)) where
  slots k := by rw [slot?_use, slot?_use, alike.outstanding, alike.owns, alike.slots]
  nextFetch := by rw [nextFetch_use, nextFetch_use, alike.nextFetch]
  ready fetch := by
    rw [Bool.eq_iff_iff, isReady_use, isReady_use, alike.outstanding, alike.ready]
  outstanding := by rw [outstanding_use, outstanding_use, alike.outstanding]

theorem Alike.useAll (uses : List (Ticket × Option (List Record))) :
    ∀ {e other : Exchange}, e.Alike other → (e.useAll uses).Alike (other.useAll uses) := by
  induction uses with
  | nil =>
      intro e other alike
      exact alike
  | cons first rest ih =>
      intro e other alike
      exact ih (alike.use first.1 first.2)

/-- What a cache answers to a lookup is seen from its slots. -/
theorem Alike.lookup (alike : e.Alike other) (k : LookupKey) :
    e.cache.lookup k = other.cache.lookup k := by
  rw [Cache.lookup, Cache.lookup, alike.slots]

theorem Alike.consult (alike : e.Alike other) (k : LookupKey) :
    (e.cache.consult k).1 = (other.cache.consult k).1 := by
  unfold Cache.consult
  rw [alike.slots, alike.nextFetch]
  split <;> rfl

/-- The slots after the use of two tickets. -/
private theorem slot?_use_use (differs : s ≠ t) (records recordsAfter : Option (List Record))
    (k : LookupKey) :
    ((e.perform (t.use records)).perform (s.use recordsAfter)).cache.slot? k =
      if s ∈ e.outstanding ∧ e.cache.owns s ∧ k = s.key then Ticket.leaves recordsAfter
      else if t ∈ e.outstanding ∧ e.cache.owns t ∧ k = t.key then Ticket.leaves records
      else e.cache.slot? k := by
  rw [slot?_use, slot?_use, owns_use differs]
  simp only [mem_outstanding_use, differs, ne_eq, not_false_eq_true, and_true]

/-- Two different tickets can be used in either order. -/
theorem use_comm (e : Exchange) (differs : s ≠ t) (first second : Option (List Record)) :
    ((e.perform (s.use first)).perform (t.use second)).Alike
      ((e.perform (t.use second)).perform (s.use first)) where
  slots k := by
    rw [slot?_use_use differs.symm, slot?_use_use differs]
    by_cases mine : s ∈ e.outstanding ∧ e.cache.owns s = true ∧ k = s.key
    · by_cases yours : t ∈ e.outstanding ∧ e.cache.owns t = true ∧ k = t.key
      · -- both tickets would write to this slot
        have shared : s.key = t.key := mine.2.2.symm.trans yours.2.2
        exact absurd (eq_of_owns mine.2.1 yours.2.1 shared) differs
      · rw [if_neg yours, if_neg yours]
    · rw [if_neg mine, if_neg mine]
  nextFetch := by simp only [nextFetch_use]
  ready fetch := by
    rw [Bool.eq_iff_iff]
    simp only [isReady_use, mem_outstanding_use, differs, differs.symm, ne_eq, not_false_eq_true,
      and_true]
    exact or_left_comm
  outstanding := by
    simp only [outstanding_use, List.filter_filter, Bool.and_comm]

theorem alike_useAll {uses uses' : List (Ticket × Option (List Record))} (perm : uses.Perm uses') :
    ∀ e : Exchange, (uses.map Prod.fst).Nodup → (e.useAll uses).Alike (e.useAll uses') := by
  induction perm with
  | nil =>
      intro e _
      exact .refl e
  | cons u _ ih =>
      intro e distinct
      exact ih (e.perform (u.1.use u.2)) (List.nodup_cons.mp distinct).2
  | swap u v rest =>
      intro e distinct
      have differs : v.1 ≠ u.1 := by
        intro same
        exact (List.nodup_cons.mp distinct).1 (same ▸ List.mem_cons_self)
      exact (e.use_comm differs v.2 u.2).useAll rest
  | trans first _ ihFirst ihSecond =>
      intro e distinct
      have distinctBetween := (first.map Prod.fst).nodup_iff.mp distinct
      exact (ihFirst e distinct).trans (ihSecond e distinctBetween)

end Exchange

namespace History

/-- Answers can come in any order. However many different tickets are used in a history, of current
fetches and of fetches from before a clear, and whatever becomes of each, a permutation of them
leaves every key with the same slot, so that it is known alike and every lookup comes to the same,
and the same numbers of keys with an answer and with a fetch under way. The same handles are ready,
and the source has the same tickets left. -/
theorem answers_in_any_order (actions : List Action)
    {uses uses' : List (Ticket × Option (List Record))} (perm : uses.Perm uses')
    (distinct : (uses.map Prod.fst).Nodup) :
    let e := (ofActions actions).exchange
    let one := e.useAll uses
    let two := e.useAll uses'
    (∀ k, one.cache.slot? k = two.cache.slot? k) ∧
      (∀ k, one.cache.lookup k = two.cache.lookup k) ∧
      (∀ k, (one.cache.consult k).1 = (two.cache.consult k).1) ∧
      one.cache.resolvedCount = two.cache.resolvedCount ∧
      one.cache.pendingCount = two.cache.pendingCount ∧
      (∀ fetch, one.cache.isReady fetch = two.cache.isReady fetch) ∧
      one.outstanding = two.outstanding := by
  intro e one two
  have alike : one.Alike two := Exchange.alike_useAll perm e distinct
  have recorded : e.Recorded [] := Exchange.recorded_ofActions actions
  have tidyOne : one.cache.Tidy := ((e.reaches_useAll uses).recorded recorded).tidy
  have tidyTwo : two.cache.Tidy := ((e.reaches_useAll uses').recorded recorded).tidy
  exact ⟨alike.slots, alike.lookup, alike.consult,
    Cache.resolvedCount_eq tidyOne tidyTwo alike.slots,
    Cache.pendingCount_eq tidyOne tidyTwo alike.slots, alike.ready, alike.outstanding⟩

/-- A lookup of the parcel with this number, whose request is kept open. -/
def asksFor (id : String) : Action := .resolve Source.holding {} ⟨"parcels", "id", .string id⟩

/-- Parcel 42 is asked for before a clear and after it, and so is parcel 43. The late answer to the
first request, the loss of the second and of the third, and the answer to the fourth are taken from
front to back and from back to front. -/
theorem answers_around_a_clear :
    let e := (ofActions [asksFor "42", asksFor "43", .clear, asksFor "42", asksFor "43"]).exchange
    let uses : List (Ticket × Option (List Record)) :=
      [(⟨⟨"parcels", "id", "42"⟩, 0⟩, some [Record.empty]), (⟨⟨"parcels", "id", "43"⟩, 1⟩, none),
        (⟨⟨"parcels", "id", "42"⟩, 2⟩, none), (⟨⟨"parcels", "id", "43"⟩, 3⟩, some [])]
    e.outstanding = uses.map Prod.fst ∧ (e.useAll uses).cache.resolvedCount = 1 ∧
      (e.useAll uses.reverse).cache.resolvedCount = 1 := by
  intro e uses
  have distinct : (uses.map Prod.fst).Nodup := by decide
  obtain ⟨-, -, -, resolved, -⟩ := answers_in_any_order
    [asksFor "42", asksFor "43", .clear, asksFor "42", asksFor "43"] uses.reverse_perm.symm distinct
  have counted : (e.useAll uses).cache.resolvedCount = 1 := by decide
  exact ⟨by decide, counted, resolved.symm.trans counted⟩

end History

end RecordExpr
