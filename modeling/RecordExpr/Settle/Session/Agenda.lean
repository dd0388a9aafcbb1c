import RecordExpr.Fetch.Exchange

set_option autoImplicit false

namespace RecordExpr

/-- An answer that arrives, or a callback that goes on. -/
inductive Task where
  | deliver (d : Delivery)
  | resume (callback : Nat)

namespace Task

def isResume (n : Nat) : Task → Bool
  | deliver _ => false
  | resume m => m == n

def isDelivery : Task → Bool
  | deliver _ => true
  | resume _ => false

end Task

/-- Where a task comes from: from another task, or from outside. -/
inductive Lane where
  | inner
  | outer

/-- The tasks of a session that wait for their turn, in two lanes, each first in, first out. The
inner lane goes first, except that now and then a turn asks the outer one first. -/
structure Agenda where
  inner : List Task := []
  outer : List Task := []
  /-- The number of turns so far. -/
  turns : Nat := 0

namespace Agenda

/-- All tasks that wait. -/
def tasks (a : Agenda) : List Task := a.inner ++ a.outer

/-- Puts a task behind those of its lane. -/
def add (a : Agenda) (t : Task) : Lane → Agenda
  | .inner => { a with inner := a.inner ++ [t] }
  | .outer => { a with outer := a.outer ++ [t] }

/-- Puts answers behind the tasks of a lane. -/
def addAnswers (a : Agenda) (lane : Lane) (ds : List Delivery) : Agenda :=
  ds.foldl (fun a d => a.add (.deliver d) lane) a

/-- Lets a callback go on, unless it is about to. -/
def wake (a : Agenda) (lane : Lane) (n : Nat) : Agenda :=
  if a.tasks.any (Task.isResume n) then a else a.add (.resume n) lane

/-- Lets callbacks go on, one after the other. -/
def wakeAll (a : Agenda) (lane : Lane) (ns : List Nat) : Agenda :=
  ns.foldl (fun a n => a.wake lane n) a

/-- One turn out of this many asks the outer lane first. -/
def outerEvery : Nat := 31

/-- The task whose turn it is, and the agenda after it. -/
def next? (a : Agenda) : Option (Task × Agenda) :=
  let turns := a.turns + 1
  if turns % outerEvery = 0 then
    match a.outer, a.inner with
    | t :: rest, _ => some (t, { a with outer := rest, turns := turns })
    | [], t :: rest => some (t, { a with inner := rest, turns := turns })
    | [], [] => none
  else
    match a.inner, a.outer with
    | t :: rest, _ => some (t, { a with inner := rest, turns := turns })
    | [], t :: rest => some (t, { a with outer := rest, turns := turns })
    | [], [] => none

theorem next?_perm {a rest : Agenda} {t : Task} (taken : a.next? = some (t, rest)) :
    a.tasks.Perm (t :: rest.tasks) := by
  obtain ⟨inner, outer, turns⟩ := a
  unfold next? at taken
  simp only at taken
  split at taken
  · cases outer with
    | cons first others =>
        obtain ⟨rfl, rfl⟩ := by simpa using taken
        exact List.perm_middle
    | nil =>
        cases inner with
        | cons first others =>
            obtain ⟨rfl, rfl⟩ := by simpa using taken
            exact List.Perm.refl _
        | nil => simp at taken
  · cases inner with
    | cons first others =>
        obtain ⟨rfl, rfl⟩ := by simpa using taken
        exact List.Perm.refl _
    | nil =>
        cases outer with
        | cons first others =>
            obtain ⟨rfl, rfl⟩ := by simpa using taken
            exact List.Perm.refl _
        | nil => simp at taken

theorem tasks_add (a : Agenda) (t : Task) (lane : Lane) :
    (a.add t lane).tasks.Perm (t :: a.tasks) := by
  cases lane with
  | inner =>
      simp only [tasks, add, List.append_assoc, List.singleton_append]
      exact List.perm_middle
  | outer =>
      simp only [tasks, add, ← List.append_assoc]
      exact List.perm_append_singleton t _

private theorem countP_wake (a : Agenda) (lane : Lane) (n : Nat) :
    (a.wake lane n).tasks.countP Task.isDelivery = a.tasks.countP Task.isDelivery := by
  unfold wake
  split
  · rfl
  · rw [(tasks_add a (.resume n) lane).countP_eq]
    exact List.countP_cons_of_neg (by simp [Task.isDelivery])

/-- Callbacks that are woken bring no answers. -/
theorem countP_wakeAll (a : Agenda) (lane : Lane) (ns : List Nat) :
    (a.wakeAll lane ns).tasks.countP Task.isDelivery = a.tasks.countP Task.isDelivery := by
  unfold wakeAll
  induction ns generalizing a with
  | nil => rfl
  | cons first rest ih => rw [List.foldl_cons, ih, countP_wake]

theorem countP_addAnswers (a : Agenda) (lane : Lane) (ds : List Delivery) :
    (a.addAnswers lane ds).tasks.countP Task.isDelivery =
      a.tasks.countP Task.isDelivery + ds.length := by
  unfold addAnswers
  induction ds generalizing a with
  | nil => rfl
  | cons first rest ih =>
      rw [List.foldl_cons, ih, (a.tasks_add (.deliver first) lane).countP_eq,
        List.countP_cons_of_pos (by simp [Task.isDelivery]), List.length_cons]
      omega

theorem length_addAnswers (a : Agenda) (lane : Lane) (ds : List Delivery) :
    (a.addAnswers lane ds).tasks.length = a.tasks.length + ds.length := by
  unfold addAnswers
  induction ds generalizing a with
  | nil => rfl
  | cons first rest ih =>
      rw [List.foldl_cons, ih, (a.tasks_add (.deliver first) lane).length_eq, List.length_cons,
        List.length_cons]
      omega

end Agenda

end RecordExpr
