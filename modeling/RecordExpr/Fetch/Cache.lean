import RecordExpr.Fetch.Request
import RecordExpr.Value.Text

set_option autoImplicit false

namespace RecordExpr

/-- What identifies a lookup; the value counts by its text. -/
structure LookupKey where
  dataset : String
  attributeName : String
  valueText : String
deriving DecidableEq

namespace LookupKey

def ofReference (r : Reference) : LookupKey := ⟨r.dataset, r.attributeName, r.value.text⟩

def text (k : LookupKey) : String := k.dataset ++ "." ++ k.attributeName ++ "=" ++ k.valueText

end LookupKey

/-- Fetches are numbered in the order in which they are dispatched. -/
abbrev FetchId := Nat

/-- What is known of a key: the fetch that it waits for, or the record that was found, if any. -/
inductive Slot where
  | pending (fetch : FetchId)
  | resolved (found : Option Record)

/-- The right to answer one fetch, once. -/
structure Ticket where
  key : LookupKey
  fetch : FetchId
deriving DecidableEq

/-- Each key has at most one fetch under way. Its answer is kept only if the slot still waits for
that very fetch, so one from before a clear changes nothing but its own waiters. -/
structure Cache where
  slots : List (LookupKey × Slot) := []
  nextFetch : FetchId := 0
  /-- The fetches that were answered or abandoned. -/
  finished : List FetchId := []

/-- What a lookup comes to. -/
inductive Admission where
  | hit (found : Option Record)
  | underWay (fetch : FetchId)
  | dispatch (ticket : Ticket)

/-- What can be seen of a key from outside. -/
inductive LookupState where
  | found (r : Record)
  | absent
  | pending
  | unknown

namespace Cache

def slot? (c : Cache) (k : LookupKey) : Option Slot := c.slots.lookup k

def put (c : Cache) (k : LookupKey) (s : Slot) : Cache :=
  { c with slots := (k, s) :: c.slots.filter fun entry => entry.1 != k }

def remove (c : Cache) (k : LookupKey) : Cache :=
  { c with slots := c.slots.filter fun entry => entry.1 != k }

/-- Filtering slots by their keys keeps or hides each key as a whole. -/
private theorem lookup_filter (kept : LookupKey → Bool) (k : LookupKey)
    (slots : List (LookupKey × Slot)) :
    (slots.filter fun entry => kept entry.1).lookup k =
      if kept k then slots.lookup k else none := by
  induction slots with
  | nil => simp
  | cons first rest ih =>
      obtain ⟨key, slot⟩ := first
      rw [List.filter_cons, List.lookup_cons]
      by_cases here : k = key
      · subst here
        cases keeps : kept k with
        | true => simp only [if_true, List.lookup_cons, beq_self_eq_true]
        | false => simpa only [keeps, Bool.false_eq_true, if_false] using ih
      · have passed : (k == key) = false := beq_eq_false_iff_ne.mpr here
        split <;> simp only [List.lookup_cons, passed, ih]

theorem slot?_remove (c : Cache) (k other : LookupKey) :
    (c.remove k).slot? other = if other = k then none else c.slot? other := by
  simp only [slot?, remove]
  rw [lookup_filter (fun key => key != k)]
  by_cases here : other = k
  · rw [if_pos here, here, bne_self_eq_false, if_neg Bool.false_ne_true]
  · rw [if_neg here, if_pos (bne_iff_ne.mpr here)]

theorem slot?_put (c : Cache) (k other : LookupKey) (s : Slot) :
    (c.put k s).slot? other = if other = k then some s else c.slot? other := by
  by_cases here : other = k
  · simp only [slot?, put, here, List.lookup_cons, beq_self_eq_true, if_true]
  · have rest := slot?_remove c k other
    have passed : (other == k) = false := beq_eq_false_iff_ne.mpr here
    simp only [slot?, remove, if_neg here] at rest
    simp only [slot?, put, List.lookup_cons, passed, rest, if_neg here]

/-- Looks a key up. An unknown key becomes pending with a new fetch. -/
def consult (c : Cache) (k : LookupKey) : Admission × Cache :=
  match c.slot? k with
  | some (.resolved found) => (.hit found, c)
  | some (.pending fetch) => (.underWay fetch, c)
  | none =>
    (.dispatch ⟨k, c.nextFetch⟩,
      { c.put k (.pending c.nextFetch) with nextFetch := c.nextFetch + 1 })

/-- A lookup of an unknown key issues a ticket for the next fetch. -/
theorem consult_unknown {c : Cache} {k : LookupKey} (unknown : c.slot? k = none) :
    c.consult k = (.dispatch ⟨k, c.nextFetch⟩,
      { c.put k (.pending c.nextFetch) with nextFetch := c.nextFetch + 1 }) := by
  simp only [consult, unknown]

/-- A lookup that issues no ticket leaves the cache as it was. -/
theorem consult_known {c : Cache} {k : LookupKey} (known : c.slot? k ≠ none) :
    (c.consult k).2 = c := by
  unfold consult
  split
  · rfl
  · rfl
  · contradiction

theorem slot?_consult {c : Cache} {k : LookupKey} (unknown : c.slot? k = none)
    (other : LookupKey) :
    (c.consult k).2.slot? other =
      if other = k then some (.pending c.nextFetch) else c.slot? other := by
  rw [consult_unknown unknown]
  exact slot?_put c k other _

/-- The slot of the ticket's key waits for the ticket's fetch. -/
def owns (c : Cache) (t : Ticket) : Bool :=
  match c.slot? t.key with
  | some (.pending fetch) => fetch == t.fetch
  | _ => false

theorem owns_iff (c : Cache) (t : Ticket) :
    c.owns t = true ↔ c.slot? t.key = some (.pending t.fetch) := by
  unfold owns
  split
  · rename_i fetch found
    simp only [found, beq_iff_eq, Option.some.injEq, Slot.pending.injEq]
  · rename_i other
    simp only [Bool.false_eq_true, false_iff]
    exact other t.fetch

/-- The fetch needs no more waiting for. -/
def finish (c : Cache) (fetch : FetchId) : Cache := { c with finished := fetch :: c.finished }

/-- Answers a ticket. Exactly one record is a find. -/
def deliver (c : Cache) (t : Ticket) (records : List Record) : Cache :=
  (if c.owns t then c.put t.key (.resolved (Datasets.only? records)) else c).finish t.fetch

/-- Gives a ticket back unanswered, so that its key can be asked for again. -/
def abandon (c : Cache) (t : Ticket) : Cache :=
  (if c.owns t then c.remove t.key else c).finish t.fetch

/-- An answer is seen under the ticket's key alone, and only if the slot still waits for it. -/
theorem slot?_deliver (c : Cache) (t : Ticket) (records : List Record) (other : LookupKey) :
    (c.deliver t records).slot? other =
      if c.owns t ∧ other = t.key then some (.resolved (Datasets.only? records))
      else c.slot? other := by
  unfold deliver
  by_cases owned : c.owns t = true
  · simp only [owned, if_true, true_and]
    exact slot?_put c t.key other _
  · rw [if_neg owned, if_neg fun both => owned both.1]
    rfl

/-- A ticket that is given back frees its key alone, and only if the slot still waits for it. -/
theorem slot?_abandon (c : Cache) (t : Ticket) (other : LookupKey) :
    (c.abandon t).slot? other = if c.owns t ∧ other = t.key then none else c.slot? other := by
  unfold abandon
  by_cases owned : c.owns t = true
  · simp only [owned, if_true, true_and]
    exact slot?_remove c t.key other
  · rw [if_neg owned, if_neg fun both => owned both.1]
    rfl

/-- Where the slot that waits for a ticket is given something else to hold, all other slots go on
waiting as before. -/
private theorem pending_of_used {c after : Cache} {t : Ticket} {held : Option Slot}
    (settled : ∀ fetch, held ≠ some (.pending fetch))
    (seen : ∀ other, after.slot? other = if c.owns t ∧ other = t.key then held else c.slot? other)
    (k : LookupKey) (fetch : FetchId) :
    after.slot? k = some (.pending fetch) ↔
      c.slot? k = some (.pending fetch) ∧ (⟨k, fetch⟩ : Ticket) ≠ t := by
  rw [seen]
  by_cases taken : c.owns t = true ∧ k = t.key
  · obtain ⟨owned, rfl⟩ := taken
    have waits := (owns_iff c t).mp owned
    rw [if_pos ⟨owned, rfl⟩, waits]
    refine ⟨fun impossible => absurd impossible (settled fetch), ?_⟩
    rintro ⟨same, other⟩
    simp only [Option.some.injEq, Slot.pending.injEq] at same
    exact absurd (by rw [← same]) other
  · rw [if_neg taken]
    refine ⟨fun waits => ⟨waits, ?_⟩, And.left⟩
    rintro rfl
    exact taken ⟨(owns_iff c _).mpr waits, rfl⟩

theorem pending_deliver (c : Cache) (t : Ticket) (records : List Record) (k : LookupKey)
    (fetch : FetchId) :
    (c.deliver t records).slot? k = some (.pending fetch) ↔
      c.slot? k = some (.pending fetch) ∧ (⟨k, fetch⟩ : Ticket) ≠ t :=
  pending_of_used (by nofun) (slot?_deliver c t records) k fetch

theorem pending_abandon (c : Cache) (t : Ticket) (k : LookupKey) (fetch : FetchId) :
    (c.abandon t).slot? k = some (.pending fetch) ↔
      c.slot? k = some (.pending fetch) ∧ (⟨k, fetch⟩ : Ticket) ≠ t :=
  pending_of_used (by nofun) (slot?_abandon c t) k fetch

@[simp] theorem nextFetch_deliver (c : Cache) (t : Ticket) (records : List Record) :
    (c.deliver t records).nextFetch = c.nextFetch := by
  unfold deliver
  split <;> rfl

@[simp] theorem nextFetch_abandon (c : Cache) (t : Ticket) :
    (c.abandon t).nextFetch = c.nextFetch := by
  unfold abandon
  split <;> rfl

@[simp] theorem finished_consult (c : Cache) (k : LookupKey) :
    (c.consult k).2.finished = c.finished := by
  unfold consult
  split <;> rfl

@[simp] theorem finished_deliver (c : Cache) (t : Ticket) (records : List Record) :
    (c.deliver t records).finished = t.fetch :: c.finished := by
  unfold deliver
  split <;> rfl

@[simp] theorem finished_abandon (c : Cache) (t : Ticket) :
    (c.abandon t).finished = t.fetch :: c.finished := by
  unfold abandon
  split <;> rfl

/-- Forgets every key; fetches under way stay under way. -/
def clear (c : Cache) : Cache := { c with slots := [] }

@[simp] theorem slot?_clear (c : Cache) (k : LookupKey) : c.clear.slot? k = none := rfl

/-- The fetch was answered or abandoned. -/
def isReady (c : Cache) (fetch : FetchId) : Bool := c.finished.contains fetch

theorem isReady_iff (c : Cache) (fetch : FetchId) :
    c.isReady fetch = true ↔ fetch ∈ c.finished :=
  List.contains_iff_mem

def lookup (c : Cache) (k : LookupKey) : LookupState :=
  match c.slot? k with
  | some (.resolved (some r)) => .found r
  | some (.resolved none) => .absent
  | some (.pending _) => .pending
  | none => .unknown

/-- The number of keys with an answer. -/
def resolvedCount (c : Cache) : Nat :=
  c.slots.countP fun entry => match entry.2 with
    | .resolved _ => true
    | .pending _ => false

/-- The number of keys with a fetch under way. -/
def pendingCount (c : Cache) : Nat :=
  c.slots.countP fun entry => match entry.2 with
    | .resolved _ => false
    | .pending _ => true

def isEmpty (c : Cache) : Bool := c.slots.isEmpty

end Cache

end RecordExpr
