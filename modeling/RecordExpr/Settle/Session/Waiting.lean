import RecordExpr.Fetch.Cache

set_option autoImplicit false

namespace RecordExpr

/-- A future waits under its name, a callback under its number. -/
inductive Waiter where
  | future (id : String)
  | callback (n : Nat)
deriving DecidableEq

/-- The number of a callback that waits. -/
def Waiter.callback? : Waiter → Option Nat
  | future _ => none
  | callback n => some n

/-- A seat that is taken. -/
structure Seat where
  fetch : FetchId
  place : Nat
  waiter : Waiter

/-- Who waits for which fetch. Each fetch has seats of its own, numbered from zero. Whoever begins
to wait takes the seat that was left last, or else a new one behind all others. -/
structure WaitingRoom where
  /-- The seats that are taken, in the order in which they were. -/
  seats : List Seat := []
  /-- The seats that were left, the latest first. -/
  vacant : List (FetchId × Nat) := []

namespace WaitingRoom

def isSeated (room : WaitingRoom) (w : Waiter) : Bool := room.seats.any fun seat => seat.waiter == w

/-- Where the next one sits who waits for a fetch. -/
def freePlace (room : WaitingRoom) (fetch : FetchId) : Nat :=
  match room.vacant.lookup fetch with
  | some place => place
  | none => room.seats.countP fun seat => seat.fetch == fetch

/-- Takes a seat. -/
def sit (room : WaitingRoom) (w : Waiter) (fetch : FetchId) : WaitingRoom :=
  let place := room.freePlace fetch
  { seats := room.seats ++ [⟨fetch, place, w⟩]
    vacant := room.vacant.erase (fetch, place) }

/-- Takes a seat for each of these fetches. Who is seated already keeps the seats. -/
def sitFor (room : WaitingRoom) (w : Waiter) (fetches : List FetchId) : WaitingRoom :=
  if room.isSeated w then room
  else fetches.foldl (fun room fetch => room.sit w fetch) room

/-- Leaves all seats, in the order in which they were taken. -/
def leave (room : WaitingRoom) (w : Waiter) : WaitingRoom :=
  let left := room.seats.filter fun seat => seat.waiter == w
  { seats := room.seats.filter fun seat => seat.waiter != w
    vacant := (left.map fun seat => (seat.fetch, seat.place)).reverse ++ room.vacant }

/-- Those who wait for a fetch, in the order of their seats. -/
def waitersFor (room : WaitingRoom) (fetch : FetchId) : List Waiter :=
  let seats := room.seats.filter fun seat => seat.fetch == fetch
  (seats.mergeSort fun a b => a.place ≤ b.place).map Seat.waiter

/-- Nobody waits any more for a fetch that has finished. -/
def close (room : WaitingRoom) (fetch : FetchId) : WaitingRoom :=
  { seats := room.seats.filter fun seat => seat.fetch != fetch
    vacant := room.vacant.filter fun seat => seat.1 != fetch }

theorem isSeated_leave (room : WaitingRoom) (w : Waiter) : (room.leave w).isSeated w = false := by
  simp only [isSeated, leave, List.any_filter]
  rw [List.any_eq_false]
  intro seat _
  simp

theorem waitersFor_close (room : WaitingRoom) (fetch : FetchId) :
    (room.close fetch).waitersFor fetch = [] := by
  have none_left : (room.close fetch).seats.filter (fun seat => seat.fetch == fetch) = [] := by
    rw [List.filter_eq_nil_iff]
    intro seat kept
    have := (List.mem_filter.mp kept).2
    simpa using this
  simp only [waitersFor, none_left, List.mergeSort_nil, List.map_nil]

end WaitingRoom

end RecordExpr
