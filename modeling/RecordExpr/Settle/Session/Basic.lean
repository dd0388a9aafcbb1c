import RecordExpr.Settle.Session.Agenda
import RecordExpr.Settle.Session.Waiting
import RecordExpr.Settle.Settling

set_option autoImplicit false

namespace RecordExpr

/-- A result that settles when it is polled: of one expression, or of several with names. -/
inductive Future where
  | single (s : Settling Value)
  | batch (s : Settling (List (String × Value)))

/-- The outcome of a future. -/
inductive Settled where
  | single (o : Outcome Value)
  | batch (o : Outcome (List (String × Value)))

/-- What polling a future comes to. -/
inductive Poll where
  | missing
  | waiting
  | ready (outcome : Settled)

/-- A result that is reported when it has settled. -/
structure Callback where
  id : String
  settling : Settling Value
  /-- The rounds after which it began to wait last; none before it does. -/
  waitsSince : Nat := 0

structure Session where
  environment : Environment
  /-- Where the answers to held requests come from. -/
  datasets : Datasets := {}
  exchange : Exchange := {}
  futures : List (String × Future) := []
  handles : List (String × FetchId) := []
  /-- The callbacks that have not settled, by number. -/
  callbacks : List (Nat × Callback) := []
  nextCallback : Nat := 0
  agenda : Agenda := {}
  room : WaitingRoom := {}
  /-- The outcomes of callbacks that were not reported yet. -/
  fired : List (String × Outcome Value) := []

namespace Session

/-- Continues with this exchange; answers that became due go on the agenda. -/
def withExchange (s : Session) (lane : Lane) (e : Exchange) : Session :=
  { s with
    exchange := { e with due := [] }
    agenda := s.agenda.addAnswers lane e.due }

/-- Lets those go on who wait for a fetch. Futures go on when they are polled. -/
def wake (s : Session) (lane : Lane) (fetch : FetchId) : Session :=
  { s with
    agenda := s.agenda.wakeAll lane ((s.room.waitersFor fetch).filterMap Waiter.callback?)
    room := s.room.close fetch }

/-- Answers a ticket. -/
def deliver (s : Session) (lane : Lane) (d : Delivery) : Session :=
  let e := s.exchange
  let answered := { s with exchange := { e with cache := e.cache.deliver d.ticket d.records } }
  answered.wake lane d.ticket.fetch

/-- Gives a ticket back. -/
def abandon (s : Session) (lane : Lane) (t : Ticket) : Session :=
  let e := s.exchange
  { s with exchange := { e with cache := e.cache.abandon t } }.wake lane t.fetch

/-- Takes the held request at a place out of the session. -/
def take? (s : Session) (index : Nat) : Option ((Ticket × Request) × Session) :=
  (s.exchange.held[index]?).map fun entry =>
    (entry, { s with exchange := { s.exchange with held := s.exchange.held.eraseIdx index } })

/-- Completes the held request at a place with records that depend on it. -/
def complete (s : Session) (index : Nat) (records : Request → List Record) :
    Option Request × Session :=
  match s.take? index with
  | some ((ticket, q), s) => (some q, s.deliver .outer ⟨ticket, records q⟩)
  | none => (none, s)

/-- Completes a held request with what the datasets answer. -/
def serve (s : Session) (index : Nat) : Option Request × Session :=
  s.complete index s.datasets.select

/-- Drops the held request at a place. -/
def drop (s : Session) (index : Nat) : Option Request × Session :=
  match s.take? index with
  | some ((ticket, q), s) => (some q, s.abandon .outer ticket)
  | none => (none, s)

end Session

end RecordExpr
