import RecordExpr.Settle.Session.Tasks

set_option autoImplicit false

namespace RecordExpr.Session

/-- Keeps an entry under a name, in place of an older one. -/
private def keep {α : Type} (id : String) (a : α) (entries : List (String × α)) :
    List (String × α) :=
  (id, a) :: entries.filter fun entry => entry.1 != id

/-- Keeps a future under a name. An older one of that name waits no more. -/
private def keepFuture (s : Session) (id : String) (f : Future) : Session :=
  { s with
    futures := keep id f s.futures
    room := s.room.leave (.future id) }

/-- Runs the first round of an expression. The result settles as a future. -/
def evaluate (s : Session) (id : String) (mode : Mode) (subject : Record) (text : String) :
    Outcome Value × Session :=
  let settling := s.environment.single mode subject text
  let (p, e) := settling.first s.exchange
  let future := Future.single (settling.after p)
  (p.outcome, (s.withExchange .outer e).keepFuture id future)

/-- Keeps an expression as a future; nothing runs yet. -/
def evaluateSettled (s : Session) (id : String) (mode : Mode) (subject : Record) (text : String) :
    Session :=
  s.keepFuture id (.single (s.environment.single mode subject text))

/-- Keeps several expressions as one future; nothing runs yet. -/
def batch (s : Session) (id : String) (mode : Mode) (subject : Record)
    (exprs : List (String × String)) : Session :=
  s.keepFuture id (.batch (s.environment.batch mode subject exprs))

/-- Runs the first round of an expression. Unless that settles it, a callback settles it and reports
the outcome. -/
def evaluateWithCallback (s : Session) (id : String) (mode : Mode) (subject : Record)
    (text : String) : Outcome Value × Session :=
  let settling := s.environment.single mode subject text
  let (p, e) := settling.first s.exchange
  let s := s.withExchange .outer e
  if p.outcome.settled then (p.outcome, s)
  else
    let callback : Callback := { id := id, settling := settling.after p }
    (p.outcome,
      { s with
        callbacks := s.callbacks ++ [(s.nextCallback, callback)]
        nextCallback := s.nextCallback + 1
        agenda := s.agenda.add (.resume s.nextCallback) .outer })

/-- Forgets a future, and says whether there was one. -/
def forget (s : Session) (id : String) : Bool × Session :=
  ((s.futures.lookup id).isSome,
    { s with
      futures := s.futures.filter fun entry => entry.1 != id
      room := s.room.leave (.future id) })

/-- Polls a future. One that is ready is removed; one that waits takes seats. -/
def poll (s : Session) (id : String) : Poll × Session :=
  match s.futures.lookup id with
  | none => (.missing, s)
  | some (.single settling) =>
    match settling.poll s.exchange with
    | (.finished outcome, e) => (.ready (.single outcome), ((s.withExchange .outer e).forget id).2)
    | (.waiting p, e) =>
      let future := Future.single (settling.after p)
      let next := { s.withExchange .outer e with futures := keep id future s.futures }
      (.waiting, next.sitFor (.future id) p.round.pending)
  | some (.batch settling) =>
    match settling.poll s.exchange with
    | (.finished outcome, e) => (.ready (.batch outcome), ((s.withExchange .outer e).forget id).2)
    | (.waiting p, e) =>
      let future := Future.batch (settling.after p)
      let next := { s.withExchange .outer e with futures := keep id future s.futures }
      (.waiting, next.sitFor (.future id) p.round.pending)

/-- Looks a reference up. A fetch to wait for is kept as a handle. -/
def resolve (s : Session) (id : String) (r : Reference) : Resolution × Session :=
  let (resolution, e) := Exchange.resolve s.environment.source s.environment.settings r s.exchange
  let s := s.withExchange .outer e
  match resolution.waitFor with
  | some fetch => (resolution, { s with handles := keep id fetch s.handles })
  | none => (resolution, s)

/-- The handle's fetch has finished; nothing without such a handle. -/
def isReady? (s : Session) (id : String) : Option Bool :=
  (s.handles.lookup id).map s.exchange.cache.isReady

/-- Forgets all that was looked up. -/
def clear (s : Session) : Session :=
  { s with exchange := { s.exchange with cache := s.exchange.cache.clear } }

/-- Later evaluations and lookups go by these settings. -/
def configure (s : Session) (settings : Settings) : Session :=
  { s with environment := { s.environment with settings := settings } }

end RecordExpr.Session
