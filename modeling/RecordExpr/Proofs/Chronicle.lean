import RecordExpr.Fetch.Cache
import Mathlib.Data.List.Nodup

set_option autoImplicit false

namespace RecordExpr

/-- One thing that happens to a cache or to a ticket that it issued. -/
inductive Happening where
  | dispatched (t : Ticket)
  | answered (t : Ticket) (records : List Record)
  | dropped (t : Ticket)
  | cleared

namespace Happening

def issued? : Happening → Option Ticket
  | dispatched t => some t
  | _ => none

/-- A ticket is used by an answer, or by being dropped. -/
def used? : Happening → Option Ticket
  | answered t _ => some t
  | dropped t => some t
  | _ => none

def dropped? : Happening → Option Ticket
  | dropped t => some t
  | _ => none

def isClear : Happening → Bool
  | cleared => true
  | _ => false

/-- What it does to the cache. -/
def apply : Happening → Cache → Cache
  | dispatched t, c => (c.consult t.key).2
  | answered t records, c => c.deliver t records
  | dropped t, c => c.abandon t
  | cleared, c => c.clear

end Happening

/-- What has happened so far, the latest first. -/
abbrev Chronicle := List Happening

namespace Chronicle

/-- The cache after all of it, which was empty at first. -/
def cacheAfter (c : Chronicle) : Cache := c.foldr Happening.apply {}

def issued (c : Chronicle) : List Ticket := c.filterMap Happening.issued?

def used (c : Chronicle) : List Ticket := c.filterMap Happening.used?

def dropped (c : Chronicle) : List Ticket := c.filterMap Happening.dropped?

/-- What has happened since the cache was last cleared. -/
def period (c : Chronicle) : Chronicle := c.takeWhile fun x => !x.isClear

/-- The tickets that were neither answered nor dropped. -/
def outstanding (c : Chronicle) : List Ticket := (issued c).filter fun t => t ∉ used c

/-- Those of them that were issued in this period. -/
def current (c : Chronicle) : List Ticket := (issued (period c)).filter fun t => t ∉ used c

/-- Each ticket is used at most once, after a lookup of an unknown key has issued it. -/
inductive Possible : Chronicle → Prop where
  | start : Possible []
  | dispatched {c : Chronicle} (k : LookupKey) (earlier : Possible c)
      (unknown : (cacheAfter c).slot? k = none) :
      Possible (.dispatched ⟨k, (cacheAfter c).nextFetch⟩ :: c)
  | answered {c : Chronicle} {t : Ticket} (records : List Record) (earlier : Possible c)
      (unused : t ∈ outstanding c) : Possible (.answered t records :: c)
  | dropped {c : Chronicle} {t : Ticket} (earlier : Possible c) (unused : t ∈ outstanding c) :
      Possible (.dropped t :: c)
  | cleared {c : Chronicle} (earlier : Possible c) : Possible (.cleared :: c)

@[simp] theorem cacheAfter_cons (x : Happening) (c : Chronicle) :
    cacheAfter (x :: c) = x.apply (cacheAfter c) := rfl

theorem mem_outstanding {c : Chronicle} {t : Ticket} :
    t ∈ outstanding c ↔ t ∈ issued c ∧ t ∉ used c := by
  simp only [outstanding, List.mem_filter, decide_eq_true_eq]

theorem mem_current {c : Chronicle} {t : Ticket} :
    t ∈ current c ↔ t ∈ issued (period c) ∧ t ∉ used c := by
  simp only [current, List.mem_filter, decide_eq_true_eq]

theorem issued_period_sublist (c : Chronicle) : (issued (period c)).Sublist (issued c) :=
  (List.takeWhile_sublist _).filterMap _

/-- Fetches are numbered below the next number, so a new ticket differs from all earlier ones. -/
theorem fetch_lt_nextFetch {c : Chronicle} (possible : Possible c) :
    ∀ t ∈ issued c, t.fetch < (cacheAfter c).nextFetch := by
  induction possible with
  | start => intro t impossible; cases impossible
  | @dispatched c k earlier unknown ih =>
      intro t member
      have next : (cacheAfter (.dispatched ⟨k, (cacheAfter c).nextFetch⟩ :: c)).nextFetch =
          (cacheAfter c).nextFetch + 1 := by
        rw [cacheAfter_cons, Happening.apply, Cache.consult_unknown unknown]
      rw [next]
      rcases List.mem_cons.mp member with rfl | older
      · exact Nat.lt_succ_self _
      · exact Nat.lt_succ_of_lt (ih t older)
  | answered records earlier unused ih =>
      intro t member
      rw [cacheAfter_cons, Happening.apply, Cache.nextFetch_deliver]
      exact ih t member
  | dropped earlier unused ih =>
      intro t member
      rw [cacheAfter_cons, Happening.apply, Cache.nextFetch_abandon]
      exact ih t member
  | cleared earlier ih => exact ih

/-- No two tickets carry the same fetch. -/
theorem fetches_nodup {c : Chronicle} (possible : Possible c) :
    ((issued c).map Ticket.fetch).Nodup := by
  induction possible with
  | start => exact List.nodup_nil
  | @dispatched c k earlier unknown ih =>
      refine List.nodup_cons.mpr ⟨?_, ih⟩
      intro again
      obtain ⟨t, member, same⟩ := List.mem_map.mp again
      have below := fetch_lt_nextFetch earlier t member
      rw [same] at below
      exact Nat.lt_irrefl _ below
  | answered records earlier unused ih => exact ih
  | dropped earlier unused ih => exact ih
  | cleared earlier ih => exact ih

theorem issued_nodup {c : Chronicle} (possible : Possible c) : (issued c).Nodup :=
  (fetches_nodup possible).of_map

theorem current_nodup {c : Chronicle} (possible : Possible c) : (current c).Nodup :=
  ((issued_nodup possible).sublist (issued_period_sublist c)).filter _

theorem mem_issued_of_mem_used {c : Chronicle} (possible : Possible c) :
    ∀ t ∈ used c, t ∈ issued c := by
  induction possible with
  | start => intro t impossible; cases impossible
  | dispatched k earlier unknown ih => exact fun t member => List.mem_cons_of_mem _ (ih t member)
  | answered records earlier unused ih =>
      intro t member
      rcases List.mem_cons.mp member with rfl | older
      · exact (mem_outstanding.mp unused).1
      · exact ih t older
  | dropped earlier unused ih =>
      intro t member
      rcases List.mem_cons.mp member with rfl | older
      · exact (mem_outstanding.mp unused).1
      · exact ih t older
  | cleared earlier ih => exact ih

/-- A ticket that is being issued was not issued before. -/
theorem next_not_mem_issued {c : Chronicle} (possible : Possible c) (k : LookupKey) :
    (⟨k, (cacheAfter c).nextFetch⟩ : Ticket) ∉ issued c := by
  intro member
  exact Nat.lt_irrefl _ (fetch_lt_nextFetch possible _ member)

theorem next_not_mem_used {c : Chronicle} (possible : Possible c) (k : LookupKey) :
    (⟨k, (cacheAfter c).nextFetch⟩ : Ticket) ∉ used c :=
  fun member => next_not_mem_issued possible k (mem_issued_of_mem_used possible _ member)

theorem outstanding_dispatched {c : Chronicle} {t : Ticket} (fresh : t ∉ used c) :
    outstanding (.dispatched t :: c) = t :: outstanding c := by
  have same : used (.dispatched t :: c) = used c := rfl
  have more : issued (.dispatched t :: c) = t :: issued c := rfl
  simp only [outstanding, same, more, List.filter_cons, fresh, not_false_eq_true, decide_true,
    if_true]

theorem current_dispatched {c : Chronicle} {t : Ticket} (fresh : t ∉ used c) :
    current (.dispatched t :: c) = t :: current c := by
  have same : used (.dispatched t :: c) = used c := rfl
  have more : issued (period (.dispatched t :: c)) = t :: issued (period c) := rfl
  simp only [current, same, more, List.filter_cons, fresh, not_false_eq_true, decide_true, if_true]

private theorem filter_unused (t : Ticket) (older tickets : List Ticket) :
    (tickets.filter fun s => s ∉ t :: older) =
      (tickets.filter fun s => s ∉ older).filter fun s => s ≠ t := by
  rw [List.filter_filter]
  apply List.filter_congr
  intro s _
  simp only [List.mem_cons, not_or, Bool.decide_and, ne_eq]

theorem outstanding_answered (c : Chronicle) (t : Ticket) (records : List Record) :
    outstanding (.answered t records :: c) = (outstanding c).filter fun s => s ≠ t :=
  filter_unused t (used c) (issued c)

theorem outstanding_dropped (c : Chronicle) (t : Ticket) :
    outstanding (.dropped t :: c) = (outstanding c).filter fun s => s ≠ t :=
  filter_unused t (used c) (issued c)

theorem current_answered (c : Chronicle) (t : Ticket) (records : List Record) :
    current (.answered t records :: c) = (current c).filter fun s => s ≠ t :=
  filter_unused t (used c) (issued (period c))

theorem current_dropped (c : Chronicle) (t : Ticket) :
    current (.dropped t :: c) = (current c).filter fun s => s ≠ t :=
  filter_unused t (used c) (issued (period c))

/-- A key is pending with a fetch exactly if the ticket of that fetch was issued in this period and
has not been used since. -/
theorem pending_iff_mem_current {c : Chronicle} (possible : Possible c) (k : LookupKey)
    (f : FetchId) :
    (cacheAfter c).slot? k = some (.pending f) ↔ (⟨k, f⟩ : Ticket) ∈ current c := by
  induction possible with
  | start => exact ⟨nofun, nofun⟩
  | @dispatched c asked earlier unknown ih =>
      rw [cacheAfter_cons, Happening.apply, Cache.slot?_consult unknown,
        current_dispatched (next_not_mem_used earlier asked), List.mem_cons]
      by_cases here : k = asked
      · subst here
        have absent : (⟨k, f⟩ : Ticket) ∉ current c := by
          rw [← ih, unknown]
          nofun
        simp only [if_true, absent, or_false, Option.some.injEq, Slot.pending.injEq,
          Ticket.mk.injEq, true_and]
        exact eq_comm
      · simp only [here, if_false, ih, Ticket.mk.injEq, false_and, false_or]
  | @answered c t records earlier unused ih =>
      rw [cacheAfter_cons, Happening.apply, Cache.pending_deliver, current_answered,
        List.mem_filter, ih, decide_eq_true_eq]
  | @dropped c t earlier unused ih =>
      rw [cacheAfter_cons, Happening.apply, Cache.pending_abandon, current_dropped,
        List.mem_filter, ih, decide_eq_true_eq]
  | cleared earlier ih => exact ⟨nofun, nofun⟩

/-- How one happening that is no clear can move the slot of a key: on from unknown to pending and to
a result, or back to unknown when the ticket of the very fetch that it waits for is dropped. -/
inductive SlotStep (k : LookupKey) : Happening → Option Slot → Option Slot → Prop where
  | same (x : Happening) (slot : Option Slot) : SlotStep k x slot slot
  | requested (f : FetchId) : SlotStep k (.dispatched ⟨k, f⟩) none (some (.pending f))
  | resolved (f : FetchId) (records : List Record) :
      SlotStep k (.answered ⟨k, f⟩ records) (some (.pending f))
        (some (.resolved (Datasets.only? records)))
  | freed (f : FetchId) : SlotStep k (.dropped ⟨k, f⟩) (some (.pending f)) none

theorem slotStep_of_possible {c : Chronicle} {x : Happening} (possible : Possible (x :: c))
    (goes_on : x ≠ .cleared) (k : LookupKey) :
    SlotStep k x ((cacheAfter c).slot? k) ((cacheAfter (x :: c)).slot? k) := by
  cases possible with
  | dispatched asked earlier unknown =>
      rw [cacheAfter_cons, Happening.apply, Cache.slot?_consult unknown]
      by_cases here : k = asked
      · subst here
        rw [if_pos rfl, unknown]
        exact .requested _
      · rw [if_neg here]
        exact .same _ _
  | @answered _ t records earlier unused =>
      rw [cacheAfter_cons, Happening.apply, Cache.slot?_deliver]
      by_cases taken : (cacheAfter c).owns t = true ∧ k = t.key
      · obtain ⟨owned, rfl⟩ := taken
        rw [if_pos ⟨owned, rfl⟩, (Cache.owns_iff _ _).mp owned]
        exact .resolved _ _
      · rw [if_neg taken]
        exact .same _ _
  | @dropped _ t earlier unused =>
      rw [cacheAfter_cons, Happening.apply, Cache.slot?_abandon]
      by_cases taken : (cacheAfter c).owns t = true ∧ k = t.key
      · obtain ⟨owned, rfl⟩ := taken
        rw [if_pos ⟨owned, rfl⟩, (Cache.owns_iff _ _).mp owned]
        exact .freed _
      · rw [if_neg taken]
        exact .same _ _
  | cleared earlier => contradiction

theorem SlotStep.resolved_stays {k : LookupKey} {x : Happening} {found : Option Record}
    {after : Option Slot} (step : SlotStep k x (some (.resolved found)) after) :
    after = some (.resolved found) := by
  cases step
  rfl

theorem SlotStep.none_iff_of_answered {k : LookupKey} {t : Ticket} {records : List Record}
    {before after : Option Slot} (step : SlotStep k (.answered t records) before after) :
    after = none ↔ before = none := by
  cases step with
  | same => exact Iff.rfl
  | resolved f => exact ⟨nofun, nofun⟩

/-- Every part of a chronicle that begins with its beginning is one itself. -/
theorem Possible.earlier {c : Chronicle} (later : Chronicle) (possible : Possible (later ++ c)) :
    Possible c := by
  induction later with
  | nil => exact possible
  | cons x later ih => cases possible <;> exact ih ‹_›

/-- A result lasts until the cache is cleared. -/
theorem resolved_stays {c : Chronicle} (within : Chronicle) (possible : Possible (within ++ c))
    (unbroken : .cleared ∉ within) {k : LookupKey} {found : Option Record}
    (known : (cacheAfter c).slot? k = some (.resolved found)) :
    (cacheAfter (within ++ c)).slot? k = some (.resolved found) := by
  induction within with
  | nil => exact known
  | cons x within ih =>
      have before := ih (Possible.earlier [x] possible)
        fun member => unbroken (List.mem_cons_of_mem _ member)
      have step : SlotStep k x ((cacheAfter (within ++ c)).slot? k) _ :=
        slotStep_of_possible possible (fun same => unbroken (same ▸ List.mem_cons_self)) k
      rw [before] at step
      exact step.resolved_stays

/-- The requests for a key in this period, without those that were dropped unanswered. -/
def kept (k : LookupKey) (c : Chronicle) : List Ticket :=
  (issued (period c)).filter fun t => t.key = k ∧ t ∉ dropped c

theorem mem_kept {k : LookupKey} {c : Chronicle} {t : Ticket} :
    t ∈ kept k c ↔ t ∈ issued (period c) ∧ t.key = k ∧ t ∉ dropped c := by
  simp only [kept, List.mem_filter, decide_eq_true_eq]

theorem mem_used_of_mem_dropped {c : Chronicle} {t : Ticket} (member : t ∈ dropped c) :
    t ∈ used c := by
  obtain ⟨x, here, found⟩ := List.mem_filterMap.mp member
  refine List.mem_filterMap.mpr ⟨x, here, ?_⟩
  cases x with
  | dropped s => exact found
  | dispatched s => cases found
  | answered s records => cases found
  | cleared => cases found

theorem kept_dispatched {c : Chronicle} {t : Ticket} (fresh : t ∉ used c) (k : LookupKey) :
    kept k (.dispatched t :: c) = if t.key = k then t :: kept k c else kept k c := by
  have same : dropped (.dispatched t :: c) = dropped c := rfl
  have more : issued (period (.dispatched t :: c)) = t :: issued (period c) := rfl
  have unlost : t ∉ dropped c := fun member => fresh (mem_used_of_mem_dropped member)
  simp only [kept, same, more, List.filter_cons, unlost, not_false_eq_true, and_true,
    decide_eq_true_eq]

theorem kept_dropped (c : Chronicle) (t : Ticket) (k : LookupKey) :
    kept k (.dropped t :: c) = (kept k c).filter fun s => s != t := by
  have more : dropped (.dropped t :: c) = t :: dropped c := rfl
  have same : issued (period (.dropped t :: c)) = issued (period c) := rfl
  simp only [kept, more, same, List.filter_filter]
  apply List.filter_congr
  intro s _
  rw [Bool.eq_iff_iff, decide_eq_true_eq, Bool.and_eq_true, bne_iff_ne, decide_eq_true_eq,
    List.mem_cons, not_or]
  exact ⟨fun ⟨here, other, unlost⟩ => ⟨other, here, unlost⟩,
    fun ⟨other, here, unlost⟩ => ⟨here, other, unlost⟩⟩

/-- A key that is pending or resolved rests on exactly one request of this period, and an unknown
one on none. -/
theorem length_kept {c : Chronicle} (possible : Possible c) (k : LookupKey) :
    (kept k c).length = if (cacheAfter c).slot? k = none then 0 else 1 := by
  induction possible with
  | start => rfl
  | @dispatched c asked earlier unknown ih =>
      rw [kept_dispatched (next_not_mem_used earlier asked), cacheAfter_cons, Happening.apply,
        Cache.slot?_consult unknown]
      by_cases here : k = asked
      · subst here
        rw [if_pos rfl, if_pos rfl, List.length_cons, ih, if_pos unknown, if_neg nofun]
      · rw [if_neg (Ne.symm here), if_neg here, ih]
  | @answered c t records earlier unused ih =>
      have same : kept k (.answered t records :: c) = kept k c := rfl
      have step := slotStep_of_possible (.answered records earlier unused) nofun k
      rw [same, ih]
      exact if_congr step.none_iff_of_answered.symm rfl rfl
  | @dropped c t earlier unused ih =>
      have seen : (cacheAfter (.dropped t :: c)).slot? k =
          if (cacheAfter c).owns t ∧ k = t.key then none else (cacheAfter c).slot? k :=
        Cache.slot?_abandon _ t k
      by_cases taken : (cacheAfter c).owns t = true ∧ k = t.key
      · obtain ⟨owned, rfl⟩ := taken
        have waits := (Cache.owns_iff _ _).mp owned
        have lost : t ∈ kept t.key c := by
          have here := mem_current.mp ((pending_iff_mem_current earlier _ _).mp waits)
          exact mem_kept.mpr ⟨here.1, rfl, fun member => here.2 (mem_used_of_mem_dropped member)⟩
        have distinct : (kept t.key c).Nodup :=
          ((issued_nodup earlier).sublist (issued_period_sublist c)).filter _
        rw [if_pos ⟨owned, rfl⟩] at seen
        rw [waits, if_neg nofun] at ih
        rw [seen, if_pos rfl, kept_dropped, ← distinct.erase_eq_filter,
          List.length_erase_of_mem lost, ih]
      · have absent : ∀ s ∈ kept k c, s ≠ t := by
          rintro t member rfl
          obtain ⟨issuedNow, here, _⟩ := mem_kept.mp member
          have running := mem_current.mpr ⟨issuedNow, (mem_outstanding.mp unused).2⟩
          have waits := (pending_iff_mem_current earlier t.key t.fetch).mpr running
          exact taken ⟨(Cache.owns_iff _ _).mpr waits, here.symm⟩
        have whole : ((kept k c).filter fun s => s != t) = kept k c :=
          List.filter_eq_self.mpr fun s member => bne_iff_ne.mpr (absent s member)
        rw [if_neg taken] at seen
        rw [seen, kept_dropped, whole, ih]
  | cleared earlier ih => rfl

/-- The requests for a key in this period are those that were dropped unanswered, and one more if
the key is pending or resolved. -/
theorem issued_count {c : Chronicle} (possible : Possible c) (k : LookupKey) :
    (issued (period c)).countP (fun t => t.key = k) =
      (issued (period c)).countP (fun t => t.key = k ∧ t ∈ dropped c) +
        if (cacheAfter c).slot? k = none then 0 else 1 := by
  rw [← length_kept possible k, kept, ← List.countP_eq_length_filter,
    List.countP_eq_countP_filter_add _ _ fun t => t ∈ dropped c, List.countP_filter,
    List.countP_filter]
  congr 1
  · simp only [Bool.decide_and]
  · simp only [Bool.decide_and, decide_not]

end Chronicle

end RecordExpr
