import RecordExpr.Proofs.Handles
import RecordExpr.Proofs.Promises

set_option autoImplicit false

namespace RecordExpr

namespace Datasets

/-- The records that a reference may mean. -/
def matching (d : Datasets) (r : Reference) : List Record :=
  (d.records r.dataset).filter (Filter.equals r.attributeName r.value).accepts

/-- The records that one page shows of them. -/
def page (d : Datasets) (size : Option Nat) (r : Reference) : List Record :=
  match size with
  | some size => (d.matching r).take size
  | none => d.matching r

theorem select_requestFor (d : Datasets) (settings : Settings) (r : Reference) :
    d.select (Exchange.requestFor settings r) = d.page settings.pageSize r := by
  have accepted : (Exchange.requestFor settings r).accepts =
      (Filter.equals r.attributeName r.value).accepts := by
    funext record
    simp only [Request.accepts, Exchange.requestFor, List.all_cons, List.all_nil, Bool.and_true]
  rw [select, accepted]
  rfl

theorem only?_eq_some {records : List Record} {found : Record} :
    only? records = some found ↔ records = [found] := by
  rcases records with _ | ⟨first, _ | ⟨second, rest⟩⟩ <;> simp [only?]

/-- Two records on a page are enough to see that a match is not the only one. -/
theorem only_match_of_page {d : Datasets} {size : Option Nat} {r : Reference} {found : Record}
    (single : only? (d.page size r) = some found) :
    (size ≠ some 1 → d.matching r = [found]) ∧
      (size = some 1 → (d.matching r).head? = some found) := by
  rw [only?_eq_some] at single
  match size with
  | none => exact ⟨fun _ => single, nofun⟩
  | some 0 => cases single
  | some 1 =>
      have shown : (d.matching r).take 1 = [found] := single
      refine ⟨fun other => absurd rfl other, fun _ => ?_⟩
      cases matched : d.matching r with
      | nil => simp [matched] at shown
      | cons first rest => simpa [matched] using shown
  | some (more + 2) =>
      have shown : (d.matching r).take (more + 2) = [found] := single
      refine ⟨fun _ => ?_, by simp⟩
      rcases matched : d.matching r with _ | ⟨first, _ | ⟨second, rest⟩⟩
      · simp [matched] at shown
      · simpa [matched] using shown
      · simp [matched] at shown

end Datasets

/-- The source holds these datasets in memory. It may answer at once or later, keep a request open
or drop it, but what it answers is from there. -/
def Source.Holds (d : Datasets) (source : Source) : Prop :=
  ∀ received q records, source received q = .answer records ∨
    source received q = .answerLater records → records = d.select q

/-- What is still to come of the requests that are kept open is from these datasets. -/
def Plan.Holds (d : Datasets) (plan : Plan) : Prop :=
  ∀ fetch q records, plan fetch q = some records → records = d.select q

/-- In each of its ways to answer, after dropping however many requests, a source in memory answers
from its datasets. -/
theorem Source.holds_of_memory (d : Datasets) (dropFirst : Nat) :
    (Source.immediate d dropFirst).Holds d ∧ (Source.deferred d dropFirst).Holds d ∧
      Source.holding.Holds d := by
  refine ⟨?_, ?_, ?_⟩
  · intro received q records treated
    unfold Source.immediate at treated
    split at treated <;> simp_all
  · intro received q records treated
    unfold Source.deferred at treated
    split at treated <;> simp_all
  · intro received q records treated
    simp [Source.holding] at treated

/-- A source that holds the datasets has a page of the matches in store for a request, or
nothing. -/
theorem Source.Holds.promise {d : Datasets} {source : Source} (holds : source.Holds d) {plan : Plan}
    (plans : plan.Holds d) (settings : Settings) (r : Reference) (received : Nat)
    (fetch : FetchId) :
    let q := Exchange.requestFor settings r
    (source received q).promise plan fetch q = none ∨
      (source received q).promise plan fetch q = some (d.page settings.pageSize r) := by
  intro q
  rw [← Datasets.select_requestFor]
  cases treated : source received q with
  | answer records => exact .inr (congrArg some (holds received q records (.inl treated)))
  | answerLater records => exact .inr (congrArg some (holds received q records (.inr treated)))
  | drop => exact .inl rfl
  | hold =>
      cases planned : plan fetch q with
      | none => exact .inl planned
      | some records => exact .inr (planned.trans (congrArg some (plans fetch q records planned)))

namespace Exchange

variable {plan : Plan} {d : Datasets} {size : Option Nat} {r : Reference} {e after : Exchange}

/-- A run in which a key is looked up for this reference only, by pages of this size, and in these
datasets. Other keys may be looked up by anyone, the sources use tickets as they intend to, and the
cache may be cleared. -/
inductive PagedRun (plan : Plan) (d : Datasets) (size : Option Nat) (r : Reference) :
    Exchange → Exchange → Prop where
  | idle (e : Exchange) : PagedRun plan d size r e e
  | lookup {e after : Exchange} {source : Source} (holds : source.Holds d) {settings : Settings}
      (paged : settings.pageSize = size)
      (rest : PagedRun plan d size r (e.perform (.resolve source settings r)) after) :
      PagedRun plan d size r e after
  | other {e after : Exchange} (source : Source) (settings : Settings) {reference : Reference}
      (differs : LookupKey.ofReference reference ≠ LookupKey.ofReference r)
      (rest : PagedRun plan d size r (e.perform (.resolve source settings reference)) after) :
      PagedRun plan d size r e after
  | use {e after : Exchange} {t : Ticket} {fate : Option (List Record)}
      (intends : e.Intends plan t fate)
      (rest : PagedRun plan d size r (e.perform (t.use fate)) after) :
      PagedRun plan d size r e after
  | clear {e after : Exchange} (rest : PagedRun plan d size r (e.perform .clear) after) :
      PagedRun plan d size r e after

/-- From this fetch on, the key of the reference gets a page of the matches or nothing. -/
structure Paged (plan : Plan) (d : Datasets) (size : Option Nat) (r : Reference) (since : FetchId)
    (e : Exchange) : Prop where
  slot : ∀ slot, e.cache.slot? (LookupKey.ofReference r) = some slot →
    slot = .resolved (Datasets.only? (d.page size r)) ∨
      ∃ fetch, since ≤ fetch ∧ slot = .pending fetch
  stored : ∀ fetch fate, since ≤ fetch → e.Intends plan ⟨LookupKey.ofReference r, fetch⟩ fate →
    fate = none ∨ fate = some (d.page size r)
  next : since ≤ e.cache.nextFetch

namespace Paged

variable {since : FetchId}

/-- Nothing is known of the key, and nothing in store is for a fetch that is still to come. -/
theorem start (empty : e.cache.isEmpty = true)
    (issued : ∀ t ∈ e.outstanding, t.fetch < e.cache.nextFetch) :
    Paged plan d size r e.cache.nextFetch e where
  slot slot known := by
    rw [Cache.slot?, List.isEmpty_iff.mp empty] at known
    cases known
  stored fetch fate late intends :=
    absurd (issued _ intends.outstanding) (Nat.not_lt_of_le late)
  next := Nat.le_refl _

/-- A request for a new key, for which a page of the matches or nothing is in store if it is the key
of the reference. -/
theorem submit (paged : Paged plan d size r since e) {k : LookupKey}
    (unknown : e.cache.slot? k = none) (source : Source) (q : Request)
    (fits : k = LookupKey.ofReference r →
      (source e.received q).promise plan e.cache.nextFetch q = none ∨
        (source e.received q).promise plan e.cache.nextFetch q = some (d.page size r)) :
    Paged plan d size r since
      (Exchange.submit source { e with cache := (e.cache.consult k).2 } ⟨k, e.cache.nextFetch⟩
        q) where
  slot slot known := by
    rw [slot?_submit unknown] at known
    split at known
    · rename_i here
      have stored := fits here.symm
      cases treated : source e.received q with
      | answer records =>
          rw [treated] at known stored
          cases known
          have shown : records = d.page size r := Option.some.inj (stored.resolve_left nofun)
          exact .inl (by rw [shown])
      | answerLater records =>
          rw [treated] at known
          cases known
          exact .inr ⟨_, paged.next, rfl⟩
      | drop =>
          rw [treated] at known
          cases known
      | hold =>
          rw [treated] at known
          cases known
          exact .inr ⟨_, paged.next, rfl⟩
    · exact paged.slot slot known
  stored fetch fate late intends := by
    rcases intends_submit intends with before | ⟨same, rfl⟩
    · exact paged.stored fetch fate late before
    · cases same
      exact fits rfl
  next := by
    rw [nextFetch_submit, Cache.consult_unknown unknown]
    exact Nat.le_succ_of_le paged.next

/-- A lookup of a key that is not known is a request; any other changes nothing. -/
theorem resolve (paged : Paged plan d size r since e) (source : Source) (settings : Settings)
    (reference : Reference)
    (fits : LookupKey.ofReference reference = LookupKey.ofReference r →
      let q := requestFor settings reference
      (source e.received q).promise plan e.cache.nextFetch q = none ∨
        (source e.received q).promise plan e.cache.nextFetch q = some (d.page size r)) :
    Paged plan d size r since (e.perform (.resolve source settings reference)) := by
  rw [perform]
  cases seen : e.cache.slot? (LookupKey.ofReference reference) with
  | none =>
      rw [resolve_unknown seen]
      exact paged.submit seen source _ fits
  | some slot =>
      cases slot with
      | resolved found => rwa [resolve_resolved seen]
      | pending fetch => rwa [resolve_pending seen]

/-- The use of a ticket that the key waits for leaves there what was in store for it. -/
theorem use (paged : Paged plan d size r since e) {t : Ticket} {fate : Option (List Record)}
    (intends : e.Intends plan t fate) :
    Paged plan d size r since (e.perform (t.use fate)) where
  slot slot known := by
    rw [slot?_use] at known
    split at known
    · rename_i taken
      obtain ⟨-, owned, here⟩ := taken
      have waits := (Cache.owns_iff e.cache t).mp owned
      rw [← here] at waits
      obtain late : since ≤ t.fetch := by
        rcases paged.slot _ waits with answered | ⟨fetch, late, same⟩
        · cases answered
        · exact Slot.pending.inj same ▸ late
      have ours : t = ⟨LookupKey.ofReference r, t.fetch⟩ := by rw [here]
      rcases paged.stored t.fetch fate late (ours ▸ intends) with rfl | rfl
      · cases known
      · cases known
        exact .inl rfl
    · exact paged.slot slot known
  stored fetch fate late intends := paged.stored fetch fate late intends.of_use
  next := by
    rw [nextFetch_use]
    exact paged.next

theorem clear (paged : Paged plan d size r since e) :
    Paged plan d size r since (e.perform .clear) where
  slot slot known := by
    rw [perform, Cache.slot?_clear] at known
    cases known
  stored fetch fate late intends := paged.stored fetch fate late intends
  next := paged.next

end Paged

/-- What the key of the reference holds at any time of such a run. -/
theorem PagedRun.keeps {since : FetchId} (run : PagedRun plan d size r e after)
    (plans : plan.Holds d) (paged : Paged plan d size r since e) :
    Paged plan d size r since after := by
  induction run with
  | idle => exact paged
  | @lookup e after source holds settings sized rest ih =>
      apply ih
      apply paged.resolve
      intro _ q
      rw [← sized]
      exact holds.promise plans settings r e.received e.cache.nextFetch
  | other source settings differs rest ih =>
      exact ih (paged.resolve source settings _ fun same => absurd same differs)
  | use intends rest ih => exact ih (paged.use intends)
  | clear rest ih => exact ih paged.clear

/-- Where an exchange comes from, every ticket was issued before. -/
theorem Reaches.fetch_lt_nextFetch {allowed : Action → Prop} (reaches : Reaches allowed {} e) :
    ∀ t ∈ e.outstanding, t.fetch < e.cache.nextFetch := by
  obtain ⟨c, faithful⟩ := reaches.faithful History.faithful_start
  intro t member
  have issued := (Chronicle.mem_outstanding.mp (faithful.mem_outstanding.mp member)).1
  have cache : e.cache = Chronicle.cacheAfter (c ++ []) := faithful.cache
  rw [cache]
  exact Chronicle.fetch_lt_nextFetch faithful.possible t issued

/-- What is found after lookups of a reference on an empty cache is the only record that matches,
unless a page holds one record; then it is the first that matches. -/
theorem found_of_pages {allowed : Action → Prop} (reaches : Reaches allowed {} e)
    (empty : e.cache.isEmpty = true) (plans : plan.Holds d)
    (run : PagedRun plan d size r e after) {found : Record}
    (seen : after.cache.lookup (LookupKey.ofReference r) = .found found) :
    (size ≠ some 1 → d.matching r = [found]) ∧
      (size = some 1 → (d.matching r).head? = some found) := by
  have paged := run.keeps plans (.start empty reaches.fetch_lt_nextFetch)
  have known : after.cache.slot? (LookupKey.ofReference r) = some (.resolved (some found)) := by
    unfold Cache.lookup at seen
    split at seen <;> simp_all
  rcases paged.slot _ known with answered | ⟨fetch, -, waits⟩
  · exact Datasets.only_match_of_page (Slot.resolved.inj answered).symm
  · cases waits

def item (id area : String) : Record := Record.ofList [("id", .string id), ("area", .string area)]

/-- Asks for the item with the number seven. -/
def seventh : Reference := ⟨"items", "id", .string "7"⟩

/-- Two items with this number. -/
def twins : Datasets := { entries := [("items", [item "7" "150", item "7" "80"])] }

/-- One item with this number, and one with another. -/
def singles : Datasets := { entries := [("items", [item "8" "150", item "7" "80"])] }

theorem accepts_item (wanted id area : String) :
    (Filter.equals "id" (.string wanted)).accepts (item id area) =
      Comparison.equal.holds (.string id) (.string wanted) := by
  have found : (item id area).get? "id" = some (.string id) := by
    rw [item, Record.get?, Record.ofList, ByName.lookup_ofList]
    rfl
  rw [Filter.equals, Filter.accepts, found]
  rfl

theorem equal_seven : Comparison.equal.holds (.string "7") (.string "7") = true := by
  decide +kernel

theorem not_equal_eight : Comparison.equal.holds (.string "8") (.string "7") = false := by
  decide +kernel

theorem matching_twins : twins.matching seventh = [item "7" "150", item "7" "80"] := by
  simp [Datasets.matching, Datasets.records, twins, seventh, accepts_item, equal_seven]

theorem matching_singles : singles.matching seventh = [item "7" "80"] := by
  simp [Datasets.matching, Datasets.records, singles, seventh, accepts_item, equal_seven,
    not_equal_eight]

/-- By pages of two, a source that answers later lets the only item with the number be found. -/
theorem single_item_found :
    let settings : Settings := { pageSize := some 2 }
    let asked := ({} : Exchange).perform (.resolve (Source.deferred singles 0) settings seventh)
    let t : Ticket := ⟨LookupKey.ofReference seventh, 0⟩
    let after := asked.perform (t.use (some [item "7" "80"]))
    after.cache.lookup (LookupKey.ofReference seventh) = .found (item "7" "80") ∧
      singles.matching seventh = [item "7" "80"] := by
  intro settings asked t after
  have page : singles.select (requestFor settings seventh) = [item "7" "80"] := by
    rw [Datasets.select_requestFor, Datasets.page, matching_singles]
    rfl
  have due : asked.due = [⟨t, [item "7" "80"]⟩] :=
    congrArg (fun shown => [Delivery.mk t shown]) page
  have intends : asked.Intends (fun _ _ => none) t (some [item "7" "80"]) :=
    .inl ⟨_, by rw [due]; exact List.mem_singleton_self _, rfl⟩
  have run : PagedRun (fun _ _ => none) singles (some 2) seventh {} after :=
    .lookup (Source.holds_of_memory singles 0).2.1 rfl (.use intends (.idle after))
  have seen : after.cache.lookup (LookupKey.ofReference seventh) = .found (item "7" "80") := by
    have slot : after.cache.slot? t.key = some (.resolved (some (item "7" "80"))) := by
      rw [slot?_use, if_pos ⟨intends.outstanding, rfl, rfl⟩]
      rfl
    show Cache.lookup _ t.key = _
    rw [Cache.lookup, slot]
  have plans : Plan.Holds singles fun _ _ => none := by
    rintro _ _ _ ⟨⟩
  have only := found_of_pages (Reaches.refl (fun _ => True) {}) rfl plans run seen
  exact ⟨seen, only.1 (by decide)⟩

/-- By pages of one, the first of two items is found. -/
theorem first_twin_found :
    let settings : Settings := { pageSize := some 1 }
    let after := ({} : Exchange).perform (.resolve (Source.immediate twins 0) settings seventh)
    after.cache.lookup (LookupKey.ofReference seventh) = .found (item "7" "150") ∧
      twins.matching seventh = [item "7" "150", item "7" "80"] := by
  intro settings after
  have page : twins.select (requestFor settings seventh) = [item "7" "150"] := by
    rw [Datasets.select_requestFor, Datasets.page, matching_twins]
    rfl
  have slot : after.cache.slot? (LookupKey.ofReference seventh) =
      some (.resolved (some (item "7" "150"))) := by
    show (resolve _ _ _ _).2.cache.slot? _ = _
    rw [resolve_unknown rfl, slot?_submit rfl, if_pos rfl]
    exact congrArg (fun shown => some (Slot.resolved (Datasets.only? shown))) page
  refine ⟨?_, matching_twins⟩
  rw [Cache.lookup, slot]

end Exchange

end RecordExpr
