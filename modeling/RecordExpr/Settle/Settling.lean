import RecordExpr.Settle.Round

set_option autoImplicit false

namespace RecordExpr

structure Outcome (α : Type) where
  value : α
  /-- The number of rounds so far. -/
  rounds : Nat
  problems : List Problem
  /-- The last round waited for nothing. -/
  settled : Bool

/-- A round, and the number of rounds up to it. -/
structure Progress (α : Type) where
  round : Round α
  rounds : Nat

namespace Progress

/-- How things stand after the round. -/
def outcome {α : Type} (p : Progress α) : Outcome α :=
  ⟨p.round.value, p.rounds, p.round.problems, p.round.pending.isEmpty⟩

/-- The outcome at the limit of rounds. -/
def outOfRounds {α : Type} (p : Progress α) : Outcome α :=
  ⟨p.round.value, p.rounds, p.round.problems ++ [.roundLimit p.rounds], false⟩

end Progress

/-- Still waiting after a round, or finished. -/
inductive Advance (α : Type) where
  | waiting (p : Progress α)
  | finished (o : Outcome α)

/-- Goes on from a round as far as it can without waiting. -/
def Progress.advance {α : Type} (pass : StateM Exchange (Round α)) (limit : Nat)
    (p : Progress α) (e : Exchange) : Advance α × Exchange :=
  if p.round.pending.isEmpty then (.finished p.outcome, e)
  else if _h : limit ≤ p.rounds then (.finished p.outOfRounds, e)
  else if p.round.pending.all e.cache.isReady then
    let (round, e) := pass e
    Progress.advance pass limit ⟨round, p.rounds + 1⟩ e
  else (.waiting p, e)
termination_by limit - p.rounds

section Advance

variable {α : Type} {pass : StateM Exchange (Round α)} {limit : Nat} {p : Progress α} {e : Exchange}

theorem Progress.advance_of_settled (complete : p.round.pending = []) :
    p.advance pass limit e = (.finished p.outcome, e) := by
  rw [Progress.advance, if_pos (List.isEmpty_iff.mpr complete)]

theorem Progress.advance_of_last (waits : p.round.pending ≠ []) (last : limit ≤ p.rounds) :
    p.advance pass limit e = (.finished p.outOfRounds, e) := by
  rw [Progress.advance, if_neg (fun none => waits (List.isEmpty_iff.mp none)), dif_pos last]

theorem Progress.advance_of_ready (waits : p.round.pending ≠ []) (below : p.rounds < limit)
    (ready : p.round.pending.all e.cache.isReady = true) :
    p.advance pass limit e = Progress.advance pass limit ⟨(pass e).1, p.rounds + 1⟩ (pass e).2 := by
  rw [Progress.advance, if_neg (fun none => waits (List.isEmpty_iff.mp none)),
    dif_neg (Nat.not_le_of_lt below), if_pos ready]
  rfl

theorem Progress.advance_of_unready (waits : p.round.pending ≠ []) (below : p.rounds < limit)
    (unready : ¬ p.round.pending.all e.cache.isReady = true) :
    p.advance pass limit e = (.waiting p, e) := by
  rw [Progress.advance, if_neg (fun none => waits (List.isEmpty_iff.mp none)),
    dif_neg (Nat.not_le_of_lt below), if_neg unready]

end Advance

/-- A wait comes below the limit of rounds, and either after more rounds or with nothing changed. -/
theorem Progress.advance_waiting {α : Type} {pass : StateM Exchange (Round α)} {limit : Nat}
    {p last : Progress α} {e after : Exchange}
    (waits : p.advance pass limit e = (.waiting last, after)) :
    last.rounds < limit ∧ (p.rounds < last.rounds ∨ (last = p ∧ after = e)) := by
  fun_induction Progress.advance pass limit p e with
  | case1 => simp at waits
  | case2 => simp at waits
  | case3 p e _ below _ round next _ ih =>
      have further := ih waits
      refine ⟨further.1, Or.inl ?_⟩
      rcases further.2 with more | ⟨same, _⟩
      · exact Nat.lt_of_succ_lt more
      · simp [same]
  | case4 p e _ below _ =>
      obtain ⟨rfl, rfl⟩ := by simpa using waits
      exact ⟨Nat.lt_of_not_le below, Or.inr ⟨rfl, rfl⟩⟩

/-- A result that settles by rounds, each made when the fetches of the one before have finished: how
a round is made, how many there may be, and the last one if there has been one. -/
structure Settling (α : Type) where
  pass : StateM Exchange (Round α)
  limit : Nat
  latest : Option (Progress α) := none

namespace Settling

/-- The first round. -/
def first {α : Type} (s : Settling α) (e : Exchange) : Progress α × Exchange :=
  let (round, e) := s.pass e
  (⟨round, 1⟩, e)

/-- Goes on as far as possible without waiting. -/
def poll {α : Type} (s : Settling α) (e : Exchange) : Advance α × Exchange :=
  match s.latest with
  | some p => p.advance s.pass s.limit e
  | none =>
    let (p, e) := s.first e
    p.advance s.pass s.limit e

/-- The same result, with this as the last round. -/
def after {α : Type} (s : Settling α) (p : Progress α) : Settling α := { s with latest := some p }

/-- The rounds that are left, and one more for having an end. -/
def roundsLeft {α : Type} (s : Settling α) : Nat :=
  match s.latest with
  | some p => s.limit - p.rounds + 1
  | none => s.limit + 1

/-- Polling leaves fewer rounds, unless it changes nothing. -/
theorem poll_waiting {α : Type} {s : Settling α} {last : Progress α} {e next : Exchange}
    (waits : s.poll e = (.waiting last, next)) :
    (s.after last).roundsLeft < s.roundsLeft ∨ (s.latest = some last ∧ next = e) := by
  unfold poll at waits
  unfold roundsLeft after
  cases known : s.latest with
  | none =>
      simp only [known] at waits
      have further := Progress.advance_waiting waits
      have counted : (s.first e).1.rounds = 1 := rfl
      refine Or.inl ?_
      simp only
      rcases further.2 with more | ⟨same, _⟩
      · omega
      · rw [same, counted] at further ⊢
        omega
  | some p =>
      simp only [known] at waits
      have further := Progress.advance_waiting waits
      rcases further.2 with more | ⟨same, unchanged⟩
      · refine Or.inl ?_
        simp only
        omega
      · exact Or.inr ⟨by rw [same], unchanged⟩

end Settling

namespace Environment

/-- One expression. -/
def single (env : Environment) (mode : Mode) (subject : Record) (text : String) : Settling Value :=
  { pass := env.round mode subject text, limit := env.settings.maxRounds }

/-- Several expressions that settle together. -/
def batch (env : Environment) (mode : Mode) (subject : Record) (exprs : List (String × String)) :
    Settling (List (String × Value)) :=
  { pass := env.roundAll mode subject exprs, limit := env.settings.maxRounds }

end Environment

end RecordExpr
