import RecordExpr.Proofs.Conclusion
import RecordExpr.Proofs.Repetition

set_option autoImplicit false

namespace RecordExpr

variable {α : Type} {others : Exchange → Exchange → Prop} {pass : StateM Exchange (Round α)}
  {limit : Nat}

/-- How a result comes to its end after a round: it has settled, or is out of rounds, or others act
until the fetches that it waits for have finished, and it goes on after the next round. -/
inductive Completes (others : Exchange → Exchange → Prop) (pass : StateM Exchange (Round α))
    (limit : Nat) : Progress α → Exchange → Outcome α → Exchange → Prop where
  | settled {p : Progress α} {e : Exchange} (complete : p.round.pending = []) :
      Completes others pass limit p e p.outcome e
  | outOfRounds {p : Progress α} {e : Exchange} (waits : p.round.pending ≠ [])
      (last : limit ≤ p.rounds) : Completes others pass limit p e p.outOfRounds e
  | again {p : Progress α} {e between after : Exchange} {o : Outcome α}
      (waits : p.round.pending ≠ []) (below : p.rounds < limit) (acted : others e between)
      (ready : ∀ fetch ∈ p.round.pending, between.cache.isReady fetch = true)
      (rest : Completes others pass limit ⟨(pass between).1, p.rounds + 1⟩ (pass between).2 o
        after) :
      Completes others pass limit p e o after

namespace Completes

/-- What others do while a result waits is part of what they do before its next round. -/
theorem of_others (compose : ∀ a b c, others a b → others b c → others a c) {p : Progress α}
    (waits : p.round.pending ≠ []) (below : p.rounds < limit) {e between after : Exchange}
    {o : Outcome α} (acted : others e between)
    (completes : Completes others pass limit p between o after) :
    Completes others pass limit p e o after := by
  cases completes with
  | settled complete => exact absurd complete waits
  | outOfRounds _ last => omega
  | again _ _ more ready rest => exact .again waits below (compose _ _ _ acted more) ready rest

/-- What a poll came to leads to this outcome: it is reported, or the result goes on to it. -/
def Leads (others : Exchange → Exchange → Prop) (pass : StateM Exchange (Round α)) (limit : Nat)
    (a : Advance α) (e : Exchange) (o : Outcome α) (after : Exchange) : Prop :=
  match a with
  | .waiting p => Completes others pass limit p e o after
  | .finished outcome => outcome = o ∧ e = after

theorem of_advance (idle : ∀ e, others e e) {p : Progress α} {e after : Exchange} {o : Outcome α}
    (leads : Leads others pass limit (p.advance pass limit e).1 (p.advance pass limit e).2 o
      after) :
    Completes others pass limit p e o after := by
  fun_induction Progress.advance pass limit p e with
  | case1 p e complete =>
      obtain ⟨rfl, rfl⟩ := leads
      exact .settled (List.isEmpty_iff.mp complete)
  | case2 p e waits last =>
      obtain ⟨rfl, rfl⟩ := leads
      exact .outOfRounds (fun none => waits (List.isEmpty_iff.mpr none)) last
  | case3 p e waits below ready round next passed ih =>
      apply Completes.again (fun none => waits (List.isEmpty_iff.mpr none))
        (Nat.lt_of_not_le below) (idle e) (List.all_eq_true.mp ready)
      rw [passed]
      exact ih leads
  | case4 => exact leads

end Completes

/-- A poll that waits has rounds left. -/
theorem Settling.below_of_poll {s : Settling α} {p : Progress α} {e after : Exchange}
    (waiting : s.poll e = (.waiting p, after)) : p.rounds < s.limit := by
  unfold poll at waiting
  split at waiting
  · exact (Progress.advance_waiting waiting).1
  · exact (Progress.advance_waiting waiting).1

theorem Settling.below_of_drive {s : Settling α} {wait : Nat → Exchange → Exchange} {n : Nat}
    {p : Progress α} {e after : Exchange} (waiting : s.drive wait n e = (.waiting p, after)) :
    p.rounds < s.limit := by
  cases n with
  | zero => exact below_of_poll waiting
  | succ n =>
      rw [drive] at waiting
      split at waiting
      · rename_i last between driven
        exact below_of_poll (s := s.after last) waiting
      · cases waiting

/-- A result that is polled after a round, while others act between the polls, completes. -/
theorem Completes.of_drive (idle : ∀ e, others e e)
    (compose : ∀ a b c, others a b → others b c → others a c) {s : Settling α}
    {wait : Nat → Exchange → Exchange} (waits : ∀ n e, others e (wait n e)) (p : Progress α)
    (n : Nat) {e after : Exchange} {o : Outcome α}
    (leads : Leads others s.pass s.limit ((s.after p).drive wait n e).1
      ((s.after p).drive wait n e).2 o after) :
    Completes others s.pass s.limit p e o after := by
  induction n with
  | zero => exact .of_advance idle leads
  | succ n ih =>
      apply ih
      rw [Settling.drive] at leads
      split at leads
      · rename_i last next driven
        rw [driven]
        exact .of_others compose (Settling.waits_of_drive driven) (Settling.below_of_drive driven)
          (waits n next) (.of_advance idle leads)
      · rename_i outcome next driven
        rw [driven]
        exact leads

/-- So does one that is polled from its first round on. -/
theorem Completes.of_fresh (idle : ∀ e, others e e)
    (compose : ∀ a b c, others a b → others b c → others a c) {s : Settling α}
    (fresh : s.latest = none) {wait : Nat → Exchange → Exchange}
    (waits : ∀ n e, others e (wait n e)) {n : Nat} {e after : Exchange} {o : Outcome α}
    (finished : s.drive wait n e = (.finished o, after)) :
    Completes others s.pass s.limit (s.first e).1 (s.first e).2 o after := by
  rw [Settling.drive_of_fresh fresh] at finished
  apply Completes.of_drive idle compose waits _ n
  rw [finished]
  exact ⟨rfl, rfl⟩

theorem Exchange.Recorded.forget {e : Exchange} {fetches : List FetchId}
    (recorded : e.Recorded fetches) : e.Recorded [] := by
  obtain ⟨c, faithful, -⟩ := recorded
  exact ⟨c, faithful, nofun⟩

/-- A result concludes after each of its rounds: whatever it waits for is with the source. The
induction is on the rounds that are left. -/
theorem concludes_of_recorded
    (reaches : ∀ e after, others e after → Exchange.Reaches (fun _ => True) e after)
    (passes : ∀ e, e.Recorded [] → (pass e).2.Recorded (pass e).1.pending) (left : Nat) :
    ∀ {p : Progress α} {start : Exchange}, limit ≤ p.rounds + left →
      start.Recorded p.round.pending →
      Concludes others (fun e round next => pass e = (round, next)) limit (fun _ => True) p
        start := by
  induction left with
  | zero =>
      intro p start last recorded
      by_cases complete : p.round.pending = []
      · exact .settled complete trivial
      · exact .outOfRounds complete last trivial
  | succ left ih =>
      intro p start count recorded
      by_cases complete : p.round.pending = []
      · exact .settled complete trivial
      · by_cases last : limit ≤ p.rounds
        · exact .outOfRounds complete last trivial
        · apply Concludes.goesOn complete (Nat.lt_of_not_le last)
          · intro fetch member
            rcases recorded.held member with ready | ⟨t, outstanding, finishes⟩
            · exact .inl ready
            · exact .inr ⟨t, outstanding,
                fun between acted gone => finishes (reaches _ _ acted) gone⟩
          · intro between round next acted ready made
            have madeRecorded := passes between ((reaches _ _ acted).recorded recorded).forget
            rw [made] at madeRecorded
            apply ih _ madeRecorded
            show limit ≤ p.rounds + 1 + left
            omega

/-- Where a source uses all its tickets at some time, every result has ended after some poll. -/
theorem Settling.finishes_of_served (idle : ∀ e, others e e)
    (compose : ∀ a b c, others a b → others b c → others a c)
    (reaches : ∀ e after, others e after → Exchange.Reaches (fun _ => True) e after)
    {s : Settling α} (fresh : s.latest = none)
    (passes : ∀ e, e.Recorded [] → (s.pass e).2.Recorded (s.pass e).1.pending)
    {wait : Nat → Exchange → Exchange} (waits : ∀ n e, others e (wait n e)) {e : Exchange}
    (recorded : e.Recorded []) (served : s.Served wait e) :
    ∃ n o after, s.drive wait n e = (.finished o, after) := by
  have concludes : Concludes others (fun e round next => s.pass e = (round, next)) s.limit
      (fun _ => True) (s.first e).1 (s.first e).2 :=
    concludes_of_recorded reaches passes s.limit (Nat.le_add_left _ _) (passes e recorded)
  have driven : s.drive wait 0 e = (s.first e).1.advance s.pass s.limit (s.first e).2 := by
    simp only [drive, poll, fresh]
  obtain ⟨n, o, after, finished, -⟩ := concludes.finishes compose idle
    (fun a b fetch acted ready => (reaches a b acted).isReady ready) (fun _ => rfl) waits served
    (idle _) driven
  exact ⟨n, o, after, finished⟩

end RecordExpr
