import RecordExpr.Settle.Session.Basic

set_option autoImplicit false

namespace RecordExpr

namespace Callback

/-- Waits for what its latest round has to wait for. -/
def isWaiting (c : Callback) : Bool :=
  match c.settling.latest with
  | some p => p.rounds == c.waitsSince
  | none => false

/-- The same callback, waiting after this round. -/
def waitAfter (c : Callback) (p : Progress Value) : Callback :=
  { c with settling := c.settling.after p, waitsSince := p.rounds }

/-- Twice the rounds that are left, and one more for a wait that has not begun. -/
def stepsLeft (c : Callback) : Nat :=
  2 * c.settling.roundsLeft + if c.isWaiting then 0 else 1

theorem stepsLeft_waitAfter (c : Callback) (p : Progress Value) :
    (c.waitAfter p).stepsLeft = 2 * (c.settling.after p).roundsLeft := by
  simp [stepsLeft, isWaiting, waitAfter, Settling.after]

end Callback

namespace Session

/-- To begin to wait for more fetches than this is long work. -/
def longWait : Nat := 30

/-- Whoever begins a long wait looks at the fetches one after the other and then gives way to other
tasks, unless one that had finished came behind one that is open. -/
def givesWay (s : Session) (fetches : List FetchId) : Bool :=
  let isReady := s.exchange.cache.isReady
  longWait < fetches.length && (fetches.dropWhile isReady).all fun fetch => !isReady fetch

/-- Takes seats for those of the fetches that are open. -/
def sitFor (s : Session) (w : Waiter) (fetches : List FetchId) : Session :=
  { s with
    room := s.room.sitFor w (fetches.filter fun fetch => !s.exchange.cache.isReady fetch) }

/-- Lets a callback go on as far as it can. -/
def resume (s : Session) (n : Nat) : Session :=
  match s.callbacks.lookup n with
  | none => s
  | some callback =>
    let others := s.callbacks.filter fun entry => entry.1 != n
    match callback.settling.poll s.exchange with
    | (.finished outcome, e) =>
      { s.withExchange .inner e with
        callbacks := others
        fired := s.fired ++ [(callback.id, outcome)] }
    | (.waiting p, e) =>
      let next :=
        { s.withExchange .inner e with callbacks := (n, callback.waitAfter p) :: others }
      let seated := next.sitFor (.callback n) p.round.pending
      if callback.waitsSince != p.rounds && seated.givesWay p.round.pending then
        { seated with agenda := seated.agenda.add (.resume n) .inner }
      else seated

/-- Runs the task whose turn it is. -/
def step? (s : Session) : Option Session :=
  match s.agenda.next? with
  | none => none
  | some (.deliver d, agenda) => some ({ s with agenda := agenda }.deliver .inner d)
  | some (.resume n, agenda) => some ({ s with agenda := agenda }.resume n)

/-- The steps that callbacks have left, together. -/
private def stepsLeft (callbacks : List (Nat × Callback)) : Nat :=
  callbacks.foldr (fun entry steps => entry.2.stepsLeft + steps) 0

/-- What is left to do: steps of callbacks, then answers, then tasks. -/
def work (s : Session) : Nat × Nat × Nat :=
  (stepsLeft s.callbacks,
    s.agenda.tasks.countP Task.isDelivery + s.exchange.due.length,
    s.agenda.tasks.length + s.exchange.due.length)

/-- Fewer steps, or as many and fewer answers, or as many of both and fewer tasks. -/
abbrev LessWork (a b : Nat × Nat × Nat) : Prop :=
  Prod.Lex (· < ·) (Prod.Lex (· < ·) (· < ·)) a b

theorem lessWork_of {a b : Nat × Nat × Nat}
    (less : a.1 < b.1 ∨ a.1 ≤ b.1 ∧ (a.2.1 < b.2.1 ∨ a.2.1 = b.2.1 ∧ a.2.2 < b.2.2)) :
    LessWork a b := by
  obtain ⟨a₁, a₂, a₃⟩ := a
  obtain ⟨b₁, b₂, b₃⟩ := b
  simp only [LessWork, Prod.lex_def] at less ⊢
  omega

private theorem stepsLeft_cons (entry : Nat × Callback) (rest : List (Nat × Callback)) :
    stepsLeft (entry :: rest) = entry.2.stepsLeft + stepsLeft rest := rfl

private theorem stepsLeft_filter_le (p : Nat × Callback → Bool)
    (callbacks : List (Nat × Callback)) :
    stepsLeft (callbacks.filter p) ≤ stepsLeft callbacks := by
  induction callbacks with
  | nil => exact Nat.le_refl _
  | cons first rest ih =>
      rw [List.filter_cons]
      split <;> simp only [stepsLeft_cons] <;> omega

/-- Without the entries under `n` the sum is smaller by the steps of the one that is found. -/
private theorem stepsLeft_without (n : Nat) (c : Callback) (callbacks : List (Nat × Callback))
    (found : callbacks.lookup n = some c) :
    stepsLeft (callbacks.filter fun entry => entry.1 != n) + c.stepsLeft ≤
      stepsLeft callbacks := by
  induction callbacks with
  | nil => simp at found
  | cons first rest ih =>
      obtain ⟨m, d⟩ := first
      rw [List.lookup_cons] at found
      by_cases here : n = m
      · subst here
        have same : d = c := by simpa using found
        subst same
        have := stepsLeft_filter_le (fun entry => entry.1 != n) rest
        simp only [List.filter_cons, bne_self_eq_false, Bool.false_eq_true, if_false,
          stepsLeft_cons]
        omega
      · have other : (n == m) = false := beq_eq_false_iff_ne.mpr here
        have kept : (m != n) = true := bne_iff_ne.mpr fun e => here e.symm
        have := ih (by simpa [other] using found)
        simp only [List.filter_cons, kept, if_true, stepsLeft_cons]
        omega

/-- An answer that arrives leaves less to do: it adds no steps and no answers. -/
theorem deliver_lessWork (s : Session) (d : Delivery) (agenda : Agenda)
    (taken : s.agenda.next? = some (.deliver d, agenda)) :
    LessWork (({ s with agenda := agenda }.deliver .inner d).work) s.work := by
  have queued : s.agenda.tasks.countP Task.isDelivery =
      agenda.tasks.countP Task.isDelivery + 1 := by
    rw [(Agenda.next?_perm taken).countP_eq, List.countP_cons_of_pos (by simp [Task.isDelivery])]
  apply lessWork_of
  refine Or.inr ⟨Nat.le_refl _, Or.inl ?_⟩
  simp only [deliver, wake, work, Agenda.countP_wakeAll, queued]
  omega

/-- A callback that goes on leaves less to do: it has fewer steps left, or else it only waits on. -/
theorem resume_lessWork (s : Session) (n : Nat) (agenda : Agenda)
    (taken : s.agenda.next? = some (.resume n, agenda)) :
    LessWork (({ s with agenda := agenda }.resume n).work) s.work := by
  have queued : s.agenda.tasks.countP Task.isDelivery =
      agenda.tasks.countP Task.isDelivery := by
    rw [(Agenda.next?_perm taken).countP_eq, List.countP_cons_of_neg (by simp [Task.isDelivery])]
  have counted : s.agenda.tasks.length = agenda.tasks.length + 1 :=
    (Agenda.next?_perm taken).length_eq
  apply lessWork_of
  unfold resume
  simp only
  cases found : s.callbacks.lookup n with
  | none =>
      refine Or.inr ⟨Nat.le_refl _, Or.inr ⟨?_, ?_⟩⟩
      · simp only [work, queued]
      · simp only [work, counted]
        omega
  | some callback =>
      have without := stepsLeft_without n callback s.callbacks found
      have steps : callback.stepsLeft =
          2 * callback.settling.roundsLeft + if callback.isWaiting then 0 else 1 := rfl
      simp only
      cases polled : callback.settling.poll s.exchange with
      | mk advance after =>
        cases advance with
        | finished outcome =>
            have some_left : 0 < callback.settling.roundsLeft := by
              unfold Settling.roundsLeft
              split <;> omega
            refine Or.inl ?_
            simp only [work, withExchange]
            omega
        | waiting last =>
            simp only
            have begun := callback.stepsLeft_waitAfter last
            rcases Settling.poll_waiting polled with fewer | ⟨known, unchanged⟩
            · refine Or.inl ?_
              split <;> simp only [work, sitFor, withExchange, stepsLeft_cons, begun] <;> omega
            · subst unchanged
              have same : (callback.settling.after last).roundsLeft =
                  callback.settling.roundsLeft := by
                simp only [Settling.roundsLeft, Settling.after, known]
              by_cases begins : callback.waitsSince = last.rounds
              · have idle : callback.isWaiting = true := by
                  simp [Callback.isWaiting, known, begins]
                rw [idle, if_pos rfl] at steps
                rw [if_neg (by simp [begins])]
                refine Or.inr ⟨?_, Or.inr ⟨?_, ?_⟩⟩
                · simp only [work, sitFor, withExchange, stepsLeft_cons, begun]
                  omega
                · simp only [work, sitFor, withExchange, Agenda.countP_addAnswers, queued,
                    List.length_nil]
                  omega
                · simp only [work, sitFor, withExchange, Agenda.length_addAnswers, counted,
                    List.length_nil]
                  omega
              · have busy : callback.isWaiting = false := by
                  simp [Callback.isWaiting, known, Ne.symm begins]
                rw [busy, if_neg Bool.false_ne_true] at steps
                refine Or.inl ?_
                split <;> simp only [work, sitFor, withExchange, stepsLeft_cons, begun] <;> omega

theorem step?_lessWork {s next : Session} (stepped : s.step? = some next) :
    LessWork next.work s.work := by
  unfold step? at stepped
  split at stepped
  · simp at stepped
  · rename_i d agenda taken
    have := by simpa using stepped
    subst this
    exact deliver_lessWork s d agenda taken
  · rename_i n agenda taken
    have := by simpa using stepped
    subst this
    exact resume_lessWork s n agenda taken

/-- Runs tasks until none is left. It ends because each leaves less work behind. -/
def runTasks (s : Session) : Session :=
  match _stepped : s.step? with
  | none => s
  | some next => runTasks next
termination_by s.work
decreasing_by exact step?_lessWork (by assumption)

/-- Runs all tasks and reports the callbacks that have settled since the last time. -/
def run (s : Session) : List (String × Outcome Value) × Session :=
  let s := s.runTasks
  (s.fired, { s with fired := [] })

end Session

end RecordExpr
