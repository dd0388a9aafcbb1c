import Mathlib.Data.Nat.Init
import RecordExpr.Proofs.Interleaving

set_option autoImplicit false

namespace RecordExpr

variable {α : Type}

/-- After a round, the result ends with an outcome of this kind: it has settled, or is out of
rounds; or it waits for tickets that the source has, and ends so after whichever round follows when
others have acted and the fetches have finished. -/
inductive Concludes (others : Exchange → Exchange → Prop)
    (makes : Exchange → Round α → Exchange → Prop) (limit : Nat) (good : Outcome α → Prop) :
    Progress α → Exchange → Prop where
  | settled {p : Progress α} {e : Exchange} (complete : p.round.pending = [])
      (fine : good p.outcome) : Concludes others makes limit good p e
  | outOfRounds {p : Progress α} {e : Exchange} (waits : p.round.pending ≠ [])
      (last : limit ≤ p.rounds) (fine : good p.outOfRounds) : Concludes others makes limit good p e
  | goesOn {p : Progress α} {e : Exchange} (waits : p.round.pending ≠ []) (below : p.rounds < limit)
      (held : ∀ fetch ∈ p.round.pending, e.cache.isReady fetch = true ∨
        ∃ t ∈ e.outstanding, ∀ between, others e between → t ∉ between.outstanding →
          between.cache.isReady fetch = true)
      (again : ∀ between round next, others e between →
        (∀ fetch ∈ p.round.pending, between.cache.isReady fetch = true) →
        makes between round next →
        Concludes others makes limit good ⟨round, p.rounds + 1⟩ next) :
      Concludes others makes limit good p e

/-- The source uses each ticket that it has after a poll at some later time. -/
def Settling.Served (s : Settling α) (wait : Nat → Exchange → Exchange) (e : Exchange) : Prop :=
  ∀ n, ∀ t ∈ (s.drive wait n e).2.outstanding,
    ∃ m, n ≤ m ∧ t ∉ (wait m (s.drive wait m e).2).outstanding

section Polling

variable {others : Exchange → Exchange → Prop} {makes : Exchange → Round α → Exchange → Prop}
  {good : Outcome α → Prop} {s : Settling α} {wait : Nat → Exchange → Exchange} {e : Exchange}

theorem Settling.drive_succ_of_waiting {n : Nat} {p : Progress α} {x : Exchange}
    (driven : s.drive wait n e = (.waiting p, x)) :
    s.drive wait (n + 1) e = p.advance s.pass s.limit (wait n x) := by
  rw [Settling.drive, driven]
  rfl

/-- What happens at some time for each of several fetches, and lasts, is so for all at one time. -/
private theorem all_at_once {P : Nat → FetchId → Prop}
    (lasts : ∀ i fetch, P i fetch → P (i + 1) fetch) (fetches : List FetchId)
    (each : ∀ fetch ∈ fetches, ∃ i, P i fetch) : ∃ i, ∀ fetch ∈ fetches, P i fetch := by
  have later : ∀ {i k fetch}, i ≤ k → P i fetch → P k fetch := by
    intro i k fetch le holds
    induction k, le using Nat.le_induction with
    | base => exact holds
    | succ k _ ih => exact lasts k fetch ih
  induction fetches with
  | nil => exact ⟨0, nofun⟩
  | cons first rest ih =>
      obtain ⟨i, here⟩ := each first List.mem_cons_self
      obtain ⟨k, others⟩ := ih fun fetch member => each fetch (List.mem_cons_of_mem _ member)
      refine ⟨max i k, ?_⟩
      intro fetch member
      rcases List.mem_cons.mp member with rfl | behind
      · exact later (Nat.le_max_left i k) here
      · exact later (Nat.le_max_right i k) (others fetch behind)

section Stuck

variable {p : Progress α} {start : Exchange} {j : Nat} {y : Nat → Exchange}
  (stuck : ∀ i, s.drive wait (j + i) e = (.waiting p, y i))

include stuck

/-- Where a result waits with one and the same round after every poll, nothing but the waits in
between changes the exchange. -/
theorem Settling.wait_of_stuck (i : Nat) : y (i + 1) = wait (j + i) (y i) := by
  have polled := (Settling.drive_succ_of_waiting (stuck i)).symm.trans (stuck (i + 1))
  rcases (Progress.advance_waiting polled).2 with more | ⟨-, same⟩
  · exact absurd more (Nat.lt_irrefl _)
  · exact same

/-- All fetches that it waits for have finished at some time, if the source uses their tickets. -/
theorem Settling.ready_of_stuck
    (lasts : ∀ a b fetch, others a b → a.cache.isReady fetch = true →
      b.cache.isReady fetch = true)
    (waits : ∀ n e, others e (wait n e)) (served : s.Served wait e)
    (held : ∀ fetch ∈ p.round.pending, start.cache.isReady fetch = true ∨
      ∃ t ∈ start.outstanding, ∀ between, others start between → t ∉ between.outstanding →
        between.cache.isReady fetch = true)
    (acted : ∀ i, others start (y i)) :
    ∃ i, ∀ fetch ∈ p.round.pending, (y i).cache.isReady fetch = true := by
  have stays : ∀ i fetch, (y i).cache.isReady fetch = true →
      (y (i + 1)).cache.isReady fetch = true := by
    intro i fetch ready
    rw [Settling.wait_of_stuck stuck i]
    exact lasts _ _ fetch (waits (j + i) (y i)) ready
  have each : ∀ fetch ∈ p.round.pending, ∃ i, (y i).cache.isReady fetch = true := by
    intro fetch member
    rcases held fetch member with ready | ⟨t, -, finishes⟩
    · exact ⟨0, lasts _ _ fetch (acted 0) ready⟩
    · by_cases present : t ∈ (y 0).outstanding
      · have polled : (s.drive wait j e).2 = y 0 := congrArg Prod.snd (stuck 0)
        obtain ⟨m, later, gone⟩ := served j t (polled ▸ present)
        obtain ⟨i, rfl⟩ := Nat.exists_eq_add_of_le later
        refine ⟨i + 1, finishes _ (acted (i + 1)) ?_⟩
        rw [Settling.wait_of_stuck stuck i]
        rwa [stuck i] at gone
      · exact ⟨0, finishes _ (acted 0) present⟩
  exact all_at_once stays p.round.pending each

end Stuck

/-- Where a source uses all its tickets at some time, a result that concludes after each of its
rounds has ended after some poll. -/
theorem Concludes.finishes (compose : ∀ a b c, others a b → others b c → others a c)
    (idle : ∀ e, others e e)
    (lasts : ∀ a b fetch, others a b → a.cache.isReady fetch = true →
      b.cache.isReady fetch = true)
    (made : ∀ e, makes e (s.pass e).1 (s.pass e).2) (waits : ∀ n e, others e (wait n e))
    (served : s.Served wait e) {p : Progress α} {start : Exchange}
    (concludes : Concludes others makes s.limit good p start) {j : Nat} {x : Exchange}
    (acted : others start x) (driven : s.drive wait j e = p.advance s.pass s.limit x) :
    ∃ n o after, s.drive wait n e = (.finished o, after) ∧ good o := by
  induction concludes generalizing j x with
  | settled complete fine =>
      rw [Progress.advance_of_settled complete] at driven
      exact ⟨j, _, x, driven, fine⟩
  | outOfRounds unsettled last fine =>
      rw [Progress.advance_of_last unsettled last] at driven
      exact ⟨j, _, x, driven, fine⟩
  | @goesOn p start unsettled below held again ih =>
      -- a poll that finds all fetches finished makes another round
      have next : ∀ k y, others start y → s.drive wait k e = p.advance s.pass s.limit y →
          (∀ fetch ∈ p.round.pending, y.cache.isReady fetch = true) →
          ∃ n o after, s.drive wait n e = (.finished o, after) ∧ good o := by
        intro k y actedBefore polled ready
        rw [Progress.advance_of_ready unsettled below (List.all_eq_true.mpr ready)] at polled
        exact ih y _ _ actedBefore ready (made y) (idle _) polled
      by_contra never
      have waiting : ∀ k y, others start y → s.drive wait k e = p.advance s.pass s.limit y →
          s.drive wait k e = (.waiting p, y) := by
        intro k y actedBefore polled
        by_cases ready : ∀ fetch ∈ p.round.pending, y.cache.isReady fetch = true
        · exact absurd (next k y actedBefore polled ready) never
        · rwa [Progress.advance_of_unready unsettled below
            fun all => ready (List.all_eq_true.mp all)] at polled
      -- so it would wait with every poll from here on
      let y (i : Nat) : Exchange := (s.drive wait (j + i) e).2
      have stuck : ∀ i, others start (y i) ∧ s.drive wait (j + i) e = (.waiting p, y i) := by
        intro i
        induction i with
        | zero =>
            have here := waiting j x acted driven
            have same : y 0 = x := congrArg Prod.snd here
            rw [same]
            exact ⟨acted, here⟩
        | succ i before =>
            have actedNow := compose _ _ _ before.1 (waits (j + i) (y i))
            have here := waiting (j + i + 1) _ actedNow (Settling.drive_succ_of_waiting before.2)
            have same : y (i + 1) = wait (j + i) (y i) := congrArg Prod.snd here
            rw [same]
            exact ⟨actedNow, here⟩
      have polls : ∀ i, s.drive wait (j + i) e = (.waiting p, y i) := fun i => (stuck i).2
      obtain ⟨i, ready⟩ := Settling.ready_of_stuck polls lasts waits served held
        fun i => (stuck i).1
      have polled := Settling.drive_succ_of_waiting (polls i)
      have follows : y (i + 1) = wait (j + i) (y i) := Settling.wait_of_stuck polls i
      rw [← follows] at polled
      refine never (next (j + i + 1) (y (i + 1)) (stuck (i + 1)).1 polled ?_)
      intro fetch member
      rw [follows]
      exact lasts _ _ fetch (waits (j + i) (y i)) (ready fetch member)

end Polling

end RecordExpr
