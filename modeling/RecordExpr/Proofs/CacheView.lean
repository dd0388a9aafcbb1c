import RecordExpr.Proofs.Handles
import Mathlib.Data.List.Perm.Basic

set_option autoImplicit false

namespace RecordExpr

namespace Cache

/-- Each key has at most one slot. -/
def Tidy (c : Cache) : Prop := (c.slots.map Prod.fst).Nodup

variable {c other : Cache}

theorem tidy_remove (tidy : c.Tidy) (k : LookupKey) : (c.remove k).Tidy :=
  List.Nodup.sublist (List.filter_sublist.map Prod.fst) tidy

theorem tidy_put (tidy : c.Tidy) (k : LookupKey) (s : Slot) : (c.put k s).Tidy := by
  apply List.nodup_cons.mpr
  refine ⟨?_, tidy_remove tidy k⟩
  intro again
  obtain ⟨entry, kept, same⟩ := List.mem_map.mp again
  have differs := (List.mem_filter.mp kept).2
  simp [same] at differs

theorem tidy_consult (tidy : c.Tidy) (k : LookupKey) : (c.consult k).2.Tidy := by
  unfold consult
  split
  · exact tidy
  · exact tidy
  · exact tidy_put tidy k _

theorem tidy_deliver (tidy : c.Tidy) (t : Ticket) (records : List Record) :
    (c.deliver t records).Tidy := by
  unfold deliver
  split
  · exact tidy_put tidy t.key _
  · exact tidy

theorem tidy_abandon (tidy : c.Tidy) (t : Ticket) : (c.abandon t).Tidy := by
  unfold abandon
  split
  · exact tidy_remove tidy t.key
  · exact tidy

theorem mem_slots_iff (tidy : c.Tidy) (k : LookupKey) (s : Slot) :
    (k, s) ∈ c.slots ↔ c.slot? k = some s := by
  unfold Tidy at tidy
  unfold slot?
  generalize c.slots = slots at tidy ⊢
  induction slots with
  | nil => simp
  | cons first rest ih =>
      obtain ⟨key, slot⟩ := first
      obtain ⟨fresh, later⟩ := List.nodup_cons.mp tidy
      rw [List.mem_cons, List.lookup_cons]
      by_cases here : k = key
      · subst here
        have absent : (k, s) ∉ rest := fun again => fresh (List.mem_map.mpr ⟨_, again, rfl⟩)
        simp [absent, eq_comm]
      · have passed : (k == key) = false := beq_eq_false_iff_ne.mpr here
        simp only [passed, Prod.mk.injEq, here, false_and, false_or]
        exact ih later

/-- Two caches with the same view have the same slots, in some order. -/
theorem slots_perm (tidy : c.Tidy) (tidyOther : other.Tidy)
    (same : ∀ k, c.slot? k = other.slot? k) : c.slots.Perm other.slots := by
  apply (List.perm_ext_iff_of_nodup tidy.of_map tidyOther.of_map).mpr
  intro entry
  rw [mem_slots_iff tidy, mem_slots_iff tidyOther, same]

theorem resolvedCount_eq (tidy : c.Tidy) (tidyOther : other.Tidy)
    (same : ∀ k, c.slot? k = other.slot? k) : c.resolvedCount = other.resolvedCount :=
  (slots_perm tidy tidyOther same).countP_eq _

theorem pendingCount_eq (tidy : c.Tidy) (tidyOther : other.Tidy)
    (same : ∀ k, c.slot? k = other.slot? k) : c.pendingCount = other.pendingCount :=
  (slots_perm tidy tidyOther same).countP_eq _

end Cache

theorem Chronicle.tidy_cacheAfter (c : Chronicle) : (cacheAfter c).Tidy := by
  induction c with
  | nil => exact List.nodup_nil
  | cons x c ih =>
      rw [cacheAfter_cons]
      cases x with
      | dispatched t => exact Cache.tidy_consult ih t.key
      | answered t records => exact Cache.tidy_deliver ih t records
      | dropped t => exact Cache.tidy_abandon ih t
      | cleared => exact List.nodup_nil

theorem Exchange.Recorded.tidy {e : Exchange} {fetches : List FetchId}
    (recorded : e.Recorded fetches) : e.cache.Tidy := by
  obtain ⟨c, faithful, -⟩ := recorded
  have cache : e.cache = Chronicle.cacheAfter c := faithful.cache
  rw [cache]
  exact Chronicle.tidy_cacheAfter c

end RecordExpr
