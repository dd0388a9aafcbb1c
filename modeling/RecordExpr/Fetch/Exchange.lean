import RecordExpr.Fetch.Cache
import RecordExpr.Fetch.Settings

set_option autoImplicit false

namespace RecordExpr

/-- What a source does with a request. -/
inductive Treatment where
  /-- Answers before the lookup returns. -/
  | answer (records : List Record)
  /-- Answers, but not before it is the answer's turn. -/
  | answerLater (records : List Record)
  /-- Never answers, which it shows at once. -/
  | drop
  /-- Keeps the request open. -/
  | hold

/-- A source decides by the number of requests it has received before and by the request. -/
abbrev Source := Nat → Request → Treatment

namespace Source

/-- Keeps every request open. -/
def holding : Source := fun _ _ => .hold

/-- Answers from datasets at once, after dropping the first few requests. -/
def immediate (d : Datasets) (dropFirst : Nat) : Source := fun received q =>
  if received < dropFirst then .drop else .answer (d.select q)

/-- Answers from datasets later, after dropping the first few requests. -/
def deferred (d : Datasets) (dropFirst : Nat) : Source := fun received q =>
  if received < dropFirst then .drop else .answerLater (d.select q)

end Source

/-- An answer on its way. -/
structure Delivery where
  ticket : Ticket
  records : List Record

/-- A cache and its source. -/
structure Exchange where
  cache : Cache := {}
  /-- The requests that the source has received, the latest first. -/
  requests : List Request := []
  /-- The requests that the source answers itself, oldest first. -/
  served : List Request := []
  /-- The requests that the source keeps open, oldest first. -/
  held : List (Ticket × Request) := []
  /-- The answers that are due, oldest first. -/
  due : List Delivery := []

/-- What a lookup returns at once: a record if one is known, and the fetch to wait for if one is
under way. -/
structure Resolution where
  found : Option Record
  waitFor : Option FetchId

namespace Exchange

/-- The number of requests that the source has received. -/
abbrev received (e : Exchange) : Nat := e.requests.length

/-- The request for a reference. -/
def requestFor (settings : Settings) (r : Reference) : Request :=
  ⟨r.dataset, settings.crs, settings.pageSize, [Filter.equals r.attributeName r.value]⟩

/-- Hands a request over to the source. -/
def submit (source : Source) (e : Exchange) (ticket : Ticket) (q : Request) : Exchange :=
  let next := { e with requests := q :: e.requests }
  match source e.received q with
  | .answer records =>
    { next with cache := e.cache.deliver ticket records, served := e.served ++ [q] }
  | .answerLater records =>
    { next with due := e.due ++ [⟨ticket, records⟩], served := e.served ++ [q] }
  | .drop => { next with cache := e.cache.abandon ticket }
  | .hold => { next with held := e.held ++ [(ticket, q)] }

/-- Looks a reference up. Where a fetch is already under way the policy decides whether the caller
waits for it. -/
def resolve (source : Source) (settings : Settings) (r : Reference) (e : Exchange) :
    Resolution × Exchange :=
  let (admission, cache) := e.cache.consult (LookupKey.ofReference r)
  match admission with
  | .hit found => (⟨found, none⟩, e)
  | .underWay fetch =>
    match settings.pendingPolicy with
    | .attach => (⟨none, some fetch⟩, e)
    | .detach => (⟨none, none⟩, e)
  | .dispatch ticket =>
    (⟨none, some ticket.fetch⟩,
      submit source { e with cache := cache } ticket (requestFor settings r))

theorem resolve_resolved {e : Exchange} {r : Reference} {found : Option Record}
    (known : e.cache.slot? (LookupKey.ofReference r) = some (.resolved found)) (source : Source)
    (settings : Settings) : resolve source settings r e = (⟨found, none⟩, e) := by
  simp only [resolve, Cache.consult, known]

theorem resolve_pending {e : Exchange} {r : Reference} {fetch : FetchId}
    (known : e.cache.slot? (LookupKey.ofReference r) = some (.pending fetch)) (source : Source)
    (settings : Settings) :
    resolve source settings r e =
      (⟨none, if settings.pendingPolicy = .attach then some fetch else none⟩, e) := by
  simp only [resolve, Cache.consult, known]
  cases settings.pendingPolicy <;> rfl

theorem resolve_unknown {e : Exchange} {r : Reference}
    (unknown : e.cache.slot? (LookupKey.ofReference r) = none) (source : Source)
    (settings : Settings) :
    resolve source settings r e =
      (⟨none, some e.cache.nextFetch⟩,
        submit source { e with cache := (e.cache.consult (LookupKey.ofReference r)).2 }
          ⟨LookupKey.ofReference r, e.cache.nextFetch⟩ (requestFor settings r)) := by
  simp only [resolve, Cache.consult_unknown unknown]

/-- Lets the first answers that are due arrive, in order. -/
def deliverDue (count : Nat) (e : Exchange) : Exchange :=
  { e with
    cache := (e.due.take count).foldl (fun cache d => cache.deliver d.ticket d.records) e.cache
    due := e.due.drop count }

/-- The most answers that arrive before one who waits for them looks again. -/
def burst : Nat := 61

/-- Lets answers arrive, one burst after the other, until these fetches have finished or nothing is
due. -/
def awaitAll (fetches : List FetchId) (e : Exchange) : Exchange :=
  if fetches.all e.cache.isReady then e
  else if _nothingDue : e.due = [] then e
  else awaitAll fetches (e.deliverDue burst)
termination_by e.due.length
decreasing_by
  have := List.length_pos_iff.mpr _nothingDue
  simp only [deliverDue, burst, List.length_drop]
  omega

end Exchange

end RecordExpr
