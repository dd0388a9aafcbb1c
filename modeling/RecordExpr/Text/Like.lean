set_option autoImplicit false

namespace RecordExpr.Like

/-- Where the walk stands in the text and in the pattern. `retry` holds the place of the last `%`
and the place in the text up to which it has been stretched. -/
structure Scan where
  textPos : Nat
  patternPos : Nat
  retry : Option (Nat × Nat)
deriving DecidableEq, Repr

def Scan.start : Scan := ⟨0, 0, none⟩

inductive Step where
  | more (s : Scan)
  | done (matched : Bool)
deriving DecidableEq, Repr

/-- Nothing but `%` is left of the pattern. -/
def restMatches (pattern : Array Char) (position : Nat) : Bool :=
  (pattern.toList.drop position).all (· == '%')

/-- The characters part, so the last `%` is stretched by one, if there is one. -/
def stretch (s : Scan) : Step :=
  match s.retry with
  | some (wild, reached) => .more ⟨reached + 1, wild + 1, some (wild, reached + 1)⟩
  | none => .done false

/-- One step of the walk. A character that stands for itself is tried before a `%`. -/
def step (text pattern : Array Char) (s : Scan) : Step :=
  match text[s.textPos]? with
  | none => .done (restMatches pattern s.patternPos)
  | some c =>
    match pattern[s.patternPos]? with
    | none => stretch s
    | some p =>
      if p = '_' ∨ p = c then .more ⟨s.textPos + 1, s.patternPos + 1, s.retry⟩
      else if p = '%' then .more ⟨s.textPos, s.patternPos + 1, some (s.patternPos, s.textPos)⟩
      else stretch s

/-- What is left to do: every stretch of a `%` pays for a walk over the whole pattern. -/
def Scan.budget (text pattern : Array Char) (s : Scan) : Nat :=
  (text.size - (s.retry.map Prod.snd).getD 0) * (pattern.size + 1) + (pattern.size - s.patternPos)

/-- The last `%` has not been stretched beyond the place in the text. -/
def Scan.Sound (s : Scan) : Prop :=
  ∀ wild reached, s.retry = some (wild, reached) → reached ≤ s.textPos

/-- A stretch begins anew behind the last `%`, which then takes one character more. -/
private theorem stretch_eq_more {s next : Scan} (stretched : stretch s = .more next) :
    ∃ wild reached, s.retry = some (wild, reached) ∧
      next = ⟨reached + 1, wild + 1, some (wild, reached + 1)⟩ := by
  unfold stretch at stretched
  cases retry_eq : s.retry with
  | none =>
      rw [retry_eq] at stretched
      cases stretched
  | some place =>
      rw [retry_eq] at stretched
      cases stretched
      exact ⟨place.1, place.2, rfl, rfl⟩

/-- A step that does not end the walk is made inside of the text. It reads a character with the
pattern, passes a `%`, or stretches the last one. -/
theorem step_eq_more {text pattern : Array Char} {s next : Scan}
    (stepped : step text pattern s = .more next) :
    s.textPos < text.size ∧
      (s.patternPos < pattern.size ∧ next = ⟨s.textPos + 1, s.patternPos + 1, s.retry⟩ ∨
        s.patternPos < pattern.size ∧
          next = ⟨s.textPos, s.patternPos + 1, some (s.patternPos, s.textPos)⟩ ∨
        ∃ wild reached, s.retry = some (wild, reached) ∧
          next = ⟨reached + 1, wild + 1, some (wild, reached + 1)⟩) := by
  unfold step at stepped
  cases text_eq : text[s.textPos]? with
  | none => simp [text_eq] at stepped
  | some c =>
      have inside : s.textPos < text.size := (Array.getElem?_eq_some_iff.mp text_eq).1
      refine ⟨inside, ?_⟩
      simp only [text_eq] at stepped
      cases pattern_eq : pattern[s.patternPos]? with
      | none =>
          simp only [pattern_eq] at stepped
          exact .inr (.inr (stretch_eq_more stepped))
      | some p =>
          have within : s.patternPos < pattern.size := (Array.getElem?_eq_some_iff.mp pattern_eq).1
          simp only [pattern_eq] at stepped
          split at stepped
          · cases stepped
            exact .inl ⟨within, rfl⟩
          · split at stepped
            · cases stepped
              exact .inr (.inl ⟨within, rfl⟩)
            · exact .inr (.inr (stretch_eq_more stepped))

/-- Where a `%` has just been passed or stretched, it has been stretched up to this place. -/
private theorem Scan.sound_here (textPos patternPos wild : Nat) :
    (Scan.mk textPos patternPos (some (wild, textPos))).Sound := by
  rintro _ _ ⟨rfl⟩
  exact Nat.le_refl _

theorem step_lowers {text pattern : Array Char} {s next : Scan} (sound : s.Sound)
    (stepped : step text pattern s = .more next) :
    next.Sound ∧ next.budget text pattern < s.budget text pattern := by
  obtain ⟨inside, ⟨within, rfl⟩ | ⟨within, rfl⟩ | ⟨wild, reached, retry_eq, rfl⟩⟩ :=
    step_eq_more stepped
  · refine ⟨?_, ?_⟩
    · intro wild reached same
      exact Nat.le_succ_of_le (sound wild reached same)
    · simp only [Scan.budget]
      omega
  · refine ⟨Scan.sound_here _ _ _, ?_⟩
    have further : (s.retry.map Prod.snd).getD 0 ≤ s.textPos := by
      cases retry_eq : s.retry with
      | none => exact Nat.zero_le _
      | some place => exact sound place.1 place.2 retry_eq
    have fewer := Nat.mul_le_mul_right (pattern.size + 1)
      (Nat.sub_le_sub_left further text.size)
    simp only [Scan.budget, Option.map_some, Option.getD_some]
    omega
  · -- one character more for the `%` pays for a walk over the whole pattern
    refine ⟨Scan.sound_here _ _ _, ?_⟩
    have behind := sound wild reached retry_eq
    simp only [Scan.budget, retry_eq, Option.map_some, Option.getD_some]
    obtain ⟨rest, rest_eq⟩ : ∃ rest, text.size - reached = rest + 1 :=
      ⟨text.size - (reached + 1), by omega⟩
    have less : text.size - (reached + 1) = rest := by omega
    rw [rest_eq, less, Nat.succ_mul]
    omega

/-- At most this many steps from `s`. -/
def run (text pattern : Array Char) : Nat → Scan → Option Bool
  | 0, _ => none
  | limit + 1, s =>
    match step text pattern s with
    | .done matched => some matched
    | .more next => run text pattern limit next

/-- The walk from the start, within `(|text| + 1) * (|pattern| + 1)` steps. -/
def walk (text pattern : Array Char) : Option Bool :=
  run text pattern ((text.size + 1) * (pattern.size + 1)) Scan.start

theorem run_isSome {text pattern : Array Char} {limit : Nat} {s : Scan} (sound : s.Sound)
    (enough : s.budget text pattern < limit) : (run text pattern limit s).isSome = true := by
  induction limit generalizing s with
  | zero => exact absurd enough (Nat.not_lt_zero _)
  | succ limit ih =>
      unfold run
      cases stepped : step text pattern s with
      | done matched => rfl
      | more next =>
          have lowered := step_lowers sound stepped
          exact ih lowered.1 (by omega)

theorem walk_isSome (text pattern : Array Char) : (walk text pattern).isSome = true := by
  apply run_isSome
  · intro _ _ same
    cases same
  · have whole : (text.size + 1) * (pattern.size + 1) =
        text.size * (pattern.size + 1) + (pattern.size + 1) := Nat.succ_mul _ _
    simp only [Scan.budget, Scan.start, Option.map_none, Option.getD_none, Nat.sub_zero, whole]
    omega

end RecordExpr.Like

namespace RecordExpr

/-- The text matches the pattern, in which `%` stands for any run of characters and `_` for any
one. -/
def like (text pattern : String) : Bool :=
  (Like.walk text.toList.toArray pattern.toList.toArray).getD false

end RecordExpr
