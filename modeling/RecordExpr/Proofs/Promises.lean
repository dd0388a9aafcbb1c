import RecordExpr.Proofs.AnswerOrder

set_option autoImplicit false

namespace RecordExpr

/-- What becomes of the requests that a source keeps open: each is answered in the end with these
records, or dropped. -/
abbrev Plan := FetchId → Request → Option (List Record)

namespace Treatment

/-- What the slot of a key holds once its request was treated so. -/
def leaves (fetch : FetchId) : Treatment → Option Slot
  | .answer records => some (.resolved (Datasets.only? records))
  | .answerLater _ => some (.pending fetch)
  | .drop => none
  | .hold => some (.pending fetch)

/-- What becomes of the ticket in the end. -/
def promise (plan : Plan) (fetch : FetchId) (q : Request) : Treatment → Option (List Record)
  | .answer records => some records
  | .answerLater records => some records
  | .drop => none
  | .hold => plan fetch q

end Treatment

namespace Exchange

variable {plan : Plan} {e after : Exchange} {s t : Ticket} {fate : Option (List Record)}

/-- The source has this in store for the ticket: an answer that is on its way, or what the plan says
of a request that it keeps open. -/
def Intends (plan : Plan) (e : Exchange) (t : Ticket) (fate : Option (List Record)) : Prop :=
  (∃ records, ⟨t, records⟩ ∈ e.due ∧ fate = some records) ∨
    ∃ q, (t, q) ∈ e.held ∧ fate = plan t.fetch q

/-- The source has nothing but this in store for the ticket. -/
def Owes (plan : Plan) (e : Exchange) (t : Ticket) (fate : Option (List Record)) : Prop :=
  ∀ other, e.Intends plan t other → other = fate

theorem Intends.outstanding (intends : e.Intends plan t fate) : t ∈ e.outstanding := by
  apply List.mem_append.mpr
  rcases intends with ⟨records, due, -⟩ | ⟨q, kept, -⟩
  · exact .inr (List.mem_map_of_mem due)
  · exact .inl (List.mem_map_of_mem kept)

/-- What a request for a new key does to the slots. -/
theorem slot?_submit {k : LookupKey} (unknown : e.cache.slot? k = none) (source : Source)
    (q : Request) (other : LookupKey) :
    (submit source { e with cache := (e.cache.consult k).2 } ⟨k, e.cache.nextFetch⟩
        q).cache.slot? other =
      if other = k then (source e.received q).leaves e.cache.nextFetch
      else e.cache.slot? other := by
  have asked := Cache.slot?_consult unknown
  have owned : (e.cache.consult k).2.owns ⟨k, e.cache.nextFetch⟩ = true := by
    rw [Cache.owns_iff, asked, if_pos rfl]
  unfold submit
  cases source e.received q with
  | answer records =>
      show ((e.cache.consult k).2.deliver _ records).slot? other = _
      rw [Cache.slot?_deliver, asked]
      by_cases here : other = k <;> simp [owned, here, Treatment.leaves]
  | answerLater records => exact asked other
  | drop =>
      show ((e.cache.consult k).2.abandon _).slot? other = _
      rw [Cache.slot?_abandon, asked]
      by_cases here : other = k <;> simp [owned, here, Treatment.leaves]
  | hold => exact asked other

theorem nextFetch_submit (source : Source) (e : Exchange) (t : Ticket) (q : Request) :
    (submit source e t q).cache.nextFetch = e.cache.nextFetch := by
  unfold submit
  cases source e.received q <;> simp

theorem requests_submit (source : Source) (e : Exchange) (t : Ticket) (q : Request) :
    (submit source e t q).requests = q :: e.requests := by
  unfold submit
  cases source e.received q <;> rfl

/-- What a source has in store after a request is what it had in store before, and how it treats the
request. -/
theorem intends_submit {source : Source} {q : Request}
    (intends : (submit source e t q).Intends plan s fate) :
    e.Intends plan s fate ∨
      s = t ∧ fate = (source e.received q).promise plan t.fetch q := by
  unfold submit at intends
  cases treated : source e.received q with
  | answer records =>
      rw [treated] at intends
      exact .inl intends
  | drop =>
      rw [treated] at intends
      exact .inl intends
  | answerLater records =>
      rw [treated] at intends
      rcases intends with ⟨others, due, rfl⟩ | kept
      · rcases List.mem_append.mp due with before | new
        · exact .inl (.inl ⟨others, before, rfl⟩)
        · cases List.mem_singleton.mp new
          exact .inr ⟨rfl, rfl⟩
      · exact .inl (.inr kept)
  | hold =>
      rw [treated] at intends
      rcases intends with due | ⟨asked, kept, rfl⟩
      · exact .inl (.inl due)
      · rcases List.mem_append.mp kept with before | new
        · exact .inl (.inr ⟨asked, before, rfl⟩)
        · cases List.mem_singleton.mp new
          exact .inr ⟨rfl, rfl⟩

theorem owes_submit_of_ne (owes : e.Owes plan s fate) (differs : s ≠ t) (c : Cache)
    (source : Source) (q : Request) :
    (submit source { e with cache := c } t q).Owes plan s fate := by
  intro other intends
  rcases intends_submit intends with before | ⟨same, -⟩
  · exact owes other before
  · exact absurd same differs

theorem owes_submit_new (fresh : t ∉ e.outstanding) (c : Cache) (source : Source) (q : Request) :
    (submit source { e with cache := c } t q).Owes plan t
      ((source e.received q).promise plan t.fetch q) := by
  intro other intends
  rcases intends_submit intends with before | ⟨-, now⟩
  · exact absurd before.outstanding fresh
  · exact now

theorem requests_use (e : Exchange) (t : Ticket) (records : Option (List Record)) :
    (e.perform (t.use records)).requests = e.requests := by
  rw [perform_use]
  split <;> rfl

/-- The use of a ticket takes away what was in store for it, and nothing else changes. -/
theorem Intends.of_use {records : Option (List Record)}
    (intends : (e.perform (t.use records)).Intends plan s fate) : e.Intends plan s fate := by
  rw [perform_use] at intends
  split at intends
  · rcases intends with ⟨others, due, rfl⟩ | ⟨q, kept, rfl⟩
    · exact .inl ⟨others, (List.mem_filter.mp due).1, rfl⟩
    · exact .inr ⟨q, (List.mem_filter.mp kept).1, rfl⟩
  · exact intends

theorem Owes.use (owes : e.Owes plan s fate) (t : Ticket) (records : Option (List Record)) :
    (e.perform (t.use records)).Owes plan s fate :=
  fun other intends => owes other intends.of_use

/-- The source uses tickets as it intends to, any number of them and in any order. -/
inductive Proceeds (plan : Plan) : Exchange → Exchange → Prop where
  | idle (e : Exchange) : Proceeds plan e e
  | use {e after : Exchange} {t : Ticket} {fate : Option (List Record)}
      (intends : e.Intends plan t fate) (rest : Proceeds plan (e.perform (t.use fate)) after) :
      Proceeds plan e after

namespace Proceeds

theorem trans {between : Exchange} (first : Proceeds plan e between)
    (second : Proceeds plan between after) : Proceeds plan e after := by
  induction first with
  | idle => exact second
  | use intends _ ih => exact .use intends (ih second)

theorem reaches (proceeds : Proceeds plan e after) : Reaches (fun _ => True) e after := by
  induction proceeds with
  | idle e => exact .refl _ e
  | use _ _ ih => exact (Reaches.single trivial _).trans ih

theorem requests (proceeds : Proceeds plan e after) : after.requests = e.requests := by
  induction proceeds with
  | idle => rfl
  | use _ _ ih => rw [ih, requests_use]

theorem nextFetch (proceeds : Proceeds plan e after) :
    after.cache.nextFetch = e.cache.nextFetch := by
  induction proceeds with
  | idle => rfl
  | use _ _ ih => rw [ih, nextFetch_use]

/-- A key that waits for nothing is known as before. -/
theorem stays (proceeds : Proceeds plan e after) {k : LookupKey}
    (quiet : ∀ fetch, e.cache.slot? k ≠ some (.pending fetch)) :
    after.cache.slot? k = e.cache.slot? k := by
  induction proceeds with
  | idle => rfl
  | @use e after t fate intends rest ih =>
      have same : (e.perform (t.use fate)).cache.slot? k = e.cache.slot? k := by
        rw [slot?_use, if_neg]
        intro taken
        rw [taken.2.2] at quiet
        exact quiet t.fetch ((Cache.owns_iff e.cache t).mp taken.2.1)
      rw [ih (same ▸ quiet), same]

/-- A key that waits goes on waiting, or has come to what its ticket was meant for. -/
theorem keeps_promise (proceeds : Proceeds plan e after) {k : LookupKey} {fetch : FetchId}
    (waits : e.cache.slot? k = some (.pending fetch)) (owes : e.Owes plan ⟨k, fetch⟩ fate) :
    after.cache.slot? k = some (.pending fetch) ∨ after.cache.slot? k = Ticket.leaves fate := by
  induction proceeds with
  | idle => exact .inl waits
  | @use e after t now intends rest ih =>
      by_cases taken : t ∈ e.outstanding ∧ e.cache.owns t = true ∧ k = t.key
      · have own : e.cache.owns ⟨k, fetch⟩ = true := (Cache.owns_iff _ _).mpr waits
        have same : t = ⟨k, fetch⟩ := eq_of_owns taken.2.1 own taken.2.2.symm
        subst same
        have left_behind : (e.perform (Ticket.use ⟨k, fetch⟩ now)).cache.slot? k =
            Ticket.leaves fate := by
          rw [slot?_use, if_pos taken, owes now intends]
        right
        rw [rest.stays, left_behind]
        intro other
        rw [left_behind]
        cases fate <;> simp [Ticket.leaves]
      · apply ih
        · rw [slot?_use, if_neg taken, waits]
        · exact owes.use t now

end Proceeds

end Exchange

end RecordExpr
