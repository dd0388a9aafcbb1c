import RecordExpr.Proofs.Handles

set_option autoImplicit false

namespace RecordExpr

namespace Cache

/-- Results stay, and a key that waits goes on waiting for its fetch until it has its result. -/
structure Grows (c later : Cache) : Prop where
  resolved : ∀ {k found}, c.slot? k = some (.resolved found) →
    later.slot? k = some (.resolved found)
  pending : ∀ {k fetch}, c.slot? k = some (.pending fetch) →
    later.slot? k = some (.pending fetch) ∨ ∃ found, later.slot? k = some (.resolved found)

theorem Grows.refl (c : Cache) : c.Grows c := ⟨id, .inl⟩

theorem Grows.trans {a b c : Cache} (first : a.Grows b) (second : b.Grows c) : a.Grows c := by
  refine ⟨fun known => second.resolved (first.resolved known), ?_⟩
  intro k fetch waits
  rcases first.pending waits with still | ⟨found, known⟩
  · exact second.pending still
  · exact .inr ⟨found, second.resolved known⟩

theorem grows_consult {c : Cache} {k : LookupKey} (unknown : c.slot? k = none) :
    c.Grows (c.consult k).2 := by
  have kept : ∀ {other slot}, c.slot? other = some slot →
      (c.consult k).2.slot? other = some slot := by
    intro other slot known
    have differs : other ≠ k := by
      rintro rfl
      rw [unknown] at known
      cases known
    rw [slot?_consult unknown, if_neg differs, known]
  exact ⟨kept, fun waits => .inl (kept waits)⟩

theorem grows_deliver (c : Cache) (t : Ticket) (records : List Record) :
    c.Grows (c.deliver t records) := by
  constructor
  · intro k found known
    rw [slot?_deliver]
    by_cases taken : c.owns t = true ∧ k = t.key
    · obtain ⟨owned, rfl⟩ := taken
      rw [(owns_iff c t).mp owned] at known
      cases known
    · rw [if_neg taken, known]
  · intro k fetch waits
    rw [slot?_deliver]
    by_cases taken : c.owns t = true ∧ k = t.key
    · rw [if_pos taken]
      exact .inr ⟨_, rfl⟩
    · rw [if_neg taken]
      exact .inl waits

end Cache

/-- No ticket is dropped and nothing is cleared: there are answers, and lookups whose source does
not drop the request. -/
def Action.Serves : Action → Prop
  | .resolve source settings r =>
    ∀ received, source received (Exchange.requestFor settings r) ≠ .drop
  | .answer _ _ => True
  | .drop _ => False
  | .clear => False

namespace Exchange

variable {e after : Exchange}

theorem grows_submit {source : Source} {q : Request} (kept : source e.received q ≠ .drop)
    (t : Ticket) : e.cache.Grows (submit source e t q).cache := by
  unfold submit
  cases treated : source e.received q with
  | answer records => exact Cache.grows_deliver e.cache t records
  | answerLater records => exact .refl e.cache
  | drop => exact absurd treated kept
  | hold => exact .refl e.cache

theorem grows_resolve {source : Source} {settings : Settings} {r : Reference}
    (serves : Action.Serves (.resolve source settings r)) :
    e.cache.Grows (resolve source settings r e).2.cache := by
  cases seen : e.cache.slot? (LookupKey.ofReference r) with
  | some slot =>
      cases slot with
      | resolved found =>
          rw [resolve_resolved seen]
          exact .refl e.cache
      | pending fetch =>
          rw [resolve_pending seen]
          exact .refl e.cache
  | none =>
      let asked : Exchange := { e with cache := (e.cache.consult (LookupKey.ofReference r)).2 }
      have submitted : asked.cache.Grows (submit source asked
          ⟨LookupKey.ofReference r, e.cache.nextFetch⟩ (requestFor settings r)).cache :=
        grows_submit (serves _) _
      rw [resolve_unknown seen]
      exact (Cache.grows_consult seen).trans submitted

theorem grows_perform {a : Action} (serves : a.Serves) : e.cache.Grows (e.perform a).cache := by
  cases a with
  | resolve source settings r => exact grows_resolve serves
  | answer t records =>
      rw [perform]
      split
      · exact Cache.grows_deliver e.cache t records
      · exact .refl e.cache
  | drop t => exact absurd serves id
  | clear => exact absurd serves id

theorem Reaches.grows (reaches : Reaches Action.Serves e after) : e.cache.Grows after.cache := by
  refine Reaches.keeps (P := fun x => e.cache.Grows x.cache) ?_ reaches (.refl e.cache)
  intro between a serves grown
  exact grown.trans (grows_perform serves)

/-- What a lookup leads to that waits for the fetch of its key if there is one: either its key has
the result that it gives, or it waits, and after it the key waits for that fetch or has a result. -/
theorem resolve_attached {source : Source} {settings : Settings} {r : Reference}
    (attach : settings.pendingPolicy = .attach)
    (serves : Action.Serves (.resolve source settings r)) (e : Exchange) :
    (∃ found, e.cache.slot? (LookupKey.ofReference r) = some (.resolved found) ∧
      resolve source settings r e = (⟨found, none⟩, e)) ∨
    ∃ fetch, (∀ found, e.cache.slot? (LookupKey.ofReference r) ≠ some (.resolved found)) ∧
      (resolve source settings r e).1 = ⟨none, some fetch⟩ ∧
      ((resolve source settings r e).2.cache.slot? (LookupKey.ofReference r) =
          some (.pending fetch) ∨
        ∃ found, (resolve source settings r e).2.cache.slot? (LookupKey.ofReference r) =
          some (.resolved found)) := by
  cases seen : e.cache.slot? (LookupKey.ofReference r) with
  | some slot =>
      cases slot with
      | resolved found => exact .inl ⟨found, rfl, resolve_resolved seen source settings⟩
      | pending fetch =>
          refine .inr ⟨fetch, nofun, ?_, .inl ?_⟩
          · rw [resolve_pending seen, if_pos attach]
          · rw [resolve_pending seen]
            exact seen
  | none =>
      refine .inr ⟨e.cache.nextFetch, nofun, ?_, ?_⟩
      · rw [resolve_unknown seen]
      · rw [resolve_unknown seen]
        refine Cache.Grows.pending (grows_submit (serves _) _) ?_
        rw [Cache.slot?_consult seen, if_pos rfl]

end Exchange

end RecordExpr
