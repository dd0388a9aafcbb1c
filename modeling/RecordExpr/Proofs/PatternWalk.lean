import RecordExpr.Text.Like

set_option autoImplicit false

namespace RecordExpr

namespace Like

variable {text pattern : Array Char} {steps : Nat} {s next : Scan}

/-- The walk has come to `s` after so many steps. -/
inductive Walked (text pattern : Array Char) : Nat → Scan → Prop where
  | start : Walked text pattern 0 .start
  | further {steps : Nat} {s next : Scan} (earlier : Walked text pattern steps s)
      (stepped : step text pattern s = .more next) : Walked text pattern (steps + 1) next

/-- Each place is one in the text or in the pattern, or the end of it. The last `%` stands in the
pattern, and has not been stretched beyond the place in the text. -/
structure Scan.Inside (text pattern : Array Char) (s : Scan) : Prop where
  textPos : s.textPos ≤ text.size
  patternPos : s.patternPos ≤ pattern.size
  retry : ∀ wild reached, s.retry = some (wild, reached) →
    wild < pattern.size ∧ reached ≤ s.textPos

theorem step_inside (inside : s.Inside text pattern) (stepped : step text pattern s = .more next) :
    next.Inside text pattern := by
  obtain ⟨within, ⟨more, rfl⟩ | ⟨percent, rfl⟩ | ⟨wild, reached, known, rfl⟩⟩ :=
    step_eq_more stepped
  · refine ⟨within, more, ?_⟩
    intro wild reached known
    obtain ⟨stands, behind⟩ := inside.retry wild reached known
    exact ⟨stands, Nat.le_succ_of_le behind⟩
  · refine ⟨inside.textPos, percent, ?_⟩
    rintro _ _ ⟨rfl⟩
    exact ⟨percent, Nat.le_refl _⟩
  · -- the walk is inside of the text, and the `%` has been stretched up to here at most
    obtain ⟨stands, behind⟩ := inside.retry wild reached known
    have shorter : reached + 1 ≤ text.size := by omega
    refine ⟨shorter, stands, ?_⟩
    rintro _ _ ⟨rfl⟩
    exact ⟨stands, Nat.le_refl _⟩

namespace Walked

theorem inside (walked : Walked text pattern steps s) : s.Inside text pattern := by
  induction walked with
  | start => exact ⟨Nat.zero_le _, Nat.zero_le _, nofun⟩
  | further _ stepped ih => exact step_inside ih stepped

theorem sound (walked : Walked text pattern steps s) : s.Sound :=
  fun wild reached known => (walked.inside.retry wild reached known).2

/-- What is left of the budget is at least one less for each step that has been made. -/
theorem spends (walked : Walked text pattern steps s) :
    steps + s.budget text pattern ≤ Scan.start.budget text pattern := by
  induction walked with
  | start => exact Nat.le_of_eq (Nat.zero_add _)
  | further earlier stepped ih =>
      have lowered := (step_lowers earlier.sound stepped).2
      omega

theorem within (walked : Walked text pattern steps s) :
    steps + 1 ≤ (text.size + 1) * (pattern.size + 1) := by
  have spent := walked.spends
  have whole : (text.size + 1) * (pattern.size + 1) =
      text.size * (pattern.size + 1) + (pattern.size + 1) := Nat.succ_mul _ _
  simp only [Scan.budget, Scan.start, Option.map_none, Option.getD_none, Nat.sub_zero] at spent
  omega

/-- A walk that is run from here to its end goes on to a step that ends it. -/
theorem end_of_run {limit : Nat} {matched : Bool} (walked : Walked text pattern steps s)
    (ends : run text pattern limit s = some matched) :
    ∃ steps s, Walked text pattern steps s ∧ step text pattern s = .done matched := by
  induction limit generalizing steps s with
  | zero =>
      rw [run] at ends
      cases ends
  | succ limit ih =>
      rw [run] at ends
      cases stepped : step text pattern s with
      | done found =>
          rw [stepped] at ends
          cases ends
          exact ⟨steps, s, walked, stepped⟩
      | more next =>
          rw [stepped] at ends
          exact ih (walked.further stepped) ends

end Walked

end Like

open Like

/-- The walk ends with what the matcher says, each of its steps is among the first
`(|text| + 1) * (|pattern| + 1)`, and before each of them both places are inside. -/
theorem like_ends (text pattern : String) :
    (∃ steps s, Walked text.toList.toArray pattern.toList.toArray steps s ∧
      step text.toList.toArray pattern.toList.toArray s = .done (like text pattern)) ∧
    ∀ steps s, Walked text.toList.toArray pattern.toList.toArray steps s →
      steps + 1 ≤ (text.length + 1) * (pattern.length + 1) ∧
        s.Inside text.toList.toArray pattern.toList.toArray := by
  constructor
  · obtain ⟨matched, ends⟩ := Option.isSome_iff_exists.mp
      (walk_isSome text.toList.toArray pattern.toList.toArray)
    rw [like, ends]
    exact Walked.start.end_of_run ends
  · intro steps s walked
    exact ⟨walked.within, walked.inside⟩

end RecordExpr
