import RecordExpr.Text.Like
import Mathlib.Data.List.Forall2

set_option autoImplicit false

namespace RecordExpr.Like

/-- The text can be split to fit the pattern. -/
inductive Fits : List Char → List Char → Prop where
  | nil : Fits [] []
  | run {cs ps : List Char} (front : List Char) (rest : Fits cs ps) : Fits (front ++ cs) ('%' :: ps)
  | any {cs ps : List Char} (c : Char) (rest : Fits cs ps) : Fits (c :: cs) ('_' :: ps)
  | same {c : Char} {cs ps : List Char} (percent : c ≠ '%') (underscore : c ≠ '_')
      (rest : Fits cs ps) : Fits (c :: cs) (c :: ps)

/-- The character of the pattern stands for this one of the text alone. -/
def Stands (p c : Char) : Prop := p = '_' ∨ p = c

instance (p c : Char) : Decidable (Stands p c) := inferInstanceAs (Decidable (_ ∨ _))

/-- The pattern takes the text, where a `%` stands for a run of any length unless it meets a `%`. -/
def Takes : List Char → List Char → Prop
  | [], cs => cs = []
  | p :: ps, [] => p = '%' ∧ Takes ps []
  | p :: ps, c :: cs =>
    if Stands p c then Takes ps cs else p = '%' ∧ ∃ rest, rest <:+ c :: cs ∧ Takes ps rest

variable {p c : Char} {ps cs : List Char}

theorem takes_nil_iff : Takes ps [] ↔ ps.all (· == '%') = true := by
  induction ps with
  | nil => simp [Takes]
  | cons p ps ih => simp [Takes, ih]

theorem takes_cons_of_stands (stands : Stands p c) : Takes (p :: ps) (c :: cs) ↔ Takes ps cs := by
  rw [Takes, if_pos stands]

theorem takes_cons_of_parts (parts : ¬Stands p c) :
    Takes (p :: ps) (c :: cs) ↔ p = '%' ∧ ∃ rest, rest <:+ c :: cs ∧ Takes ps rest := by
  rw [Takes, if_neg parts]

/-- What follows a character of a pattern takes what is left of the text behind it. -/
theorem takes_tail (takes : Takes (p :: ps) cs) : ∃ rest, rest <:+ cs ∧ Takes ps rest := by
  cases cs with
  | nil => exact ⟨[], List.suffix_refl [], takes.2⟩
  | cons c cs =>
      by_cases stands : Stands p c
      · exact ⟨cs, List.suffix_cons c cs, (takes_cons_of_stands stands).mp takes⟩
      · exact ((takes_cons_of_parts stands).mp takes).2

/-- Stretching an earlier `%` gains nothing. Where a stretch of the pattern has taken `front` one by
one, and the whole pattern takes some later part of the text, its rest takes a part of the text
behind `front`. -/
theorem takes_behind {stretch front : List Char} (stands : List.Forall₂ Stands stretch front)
    {part : List Char} (later : part <:+ front ++ cs) (takes : Takes (stretch ++ ps) part) :
    ∃ rest, rest <:+ cs ∧ Takes ps rest := by
  induction stands generalizing part with
  | nil => exact ⟨part, later, takes⟩
  | @cons p c stretch front here _ ih =>
      rcases List.suffix_cons_iff.mp later with rfl | shorter
      · exact ih (List.suffix_refl _) ((takes_cons_of_stands here).mp takes)
      · obtain ⟨rest, behind, taken⟩ := takes_tail takes
        exact ih (behind.trans shorter) taken

theorem fits_of_takes (takes : Takes ps cs) : Fits cs ps := by
  induction ps generalizing cs with
  | nil =>
      rw [Takes] at takes
      rw [takes]
      exact .nil
  | cons p ps ih =>
      cases cs with
      | nil =>
          obtain ⟨rfl, rest⟩ := takes
          exact .run [] (ih rest)
      | cons c cs =>
          by_cases stands : Stands p c
          · have rest := ih ((takes_cons_of_stands stands).mp takes)
            by_cases underscore : p = '_'
            · rw [underscore]
              exact .any c rest
            · obtain rfl : p = c := stands.resolve_left underscore
              by_cases percent : p = '%'
              · rw [percent]
                exact .run ['%'] rest
              · exact .same percent underscore rest
          · obtain ⟨rfl, rest, ⟨front, split⟩, taken⟩ := (takes_cons_of_parts stands).mp takes
            rw [← split]
            exact .run front (ih taken)

theorem takes_of_fits (fits : Fits cs ps) (apart : '%' ∉ cs ∨ '%' ∉ ps) : Takes ps cs := by
  induction fits with
  | nil => rfl
  | @run cs ps front _ ih =>
      have absent : '%' ∉ front ++ cs := apart.resolve_right (not_not_intro List.mem_cons_self)
      have rest := ih (.inl fun member => absent (List.mem_append_right front member))
      cases text : front ++ cs with
      | nil => exact ⟨rfl, (List.append_eq_nil_iff.mp text).2 ▸ rest⟩
      | cons c more =>
          have parts : ¬Stands '%' c := by
            rintro (wrong | rfl)
            · exact absurd wrong (by decide)
            · exact absent (text ▸ List.mem_cons_self)
          exact (takes_cons_of_parts parts).mpr ⟨rfl, cs, text ▸ List.suffix_append front cs, rest⟩
  | any c _ ih =>
      apply (takes_cons_of_stands (.inl rfl)).mpr
      apply ih
      simp only [List.mem_cons, not_or] at apart
      exact apart.imp And.right And.right
  | same _ _ _ ih =>
      apply (takes_cons_of_stands (.inr rfl)).mpr
      apply ih
      simp only [List.mem_cons, not_or] at apart
      exact apart.imp And.right And.right

/-- The last `%` that was passed has been stretched up to some place, and from there on pattern and
text have been read one by one. -/
def Scan.Reads (text pattern : List Char) (s : Scan) : Prop :=
  ∀ wild reached, s.retry = some (wild, reached) →
    ∃ stretch front, pattern.drop (wild + 1) = stretch ++ pattern.drop s.patternPos ∧
      text.drop reached = front ++ text.drop s.textPos ∧ List.Forall₂ Stands stretch front

/-- The text can still be taken by stretching the last `%` further. -/
def Scan.Retries (text pattern : List Char) (s : Scan) : Prop :=
  ∃ wild reached rest, s.retry = some (wild, reached) ∧ rest <:+ text.drop (reached + 1) ∧
    Takes (pattern.drop (wild + 1)) rest

/-- The text can still be taken, from here or by stretching the last `%` further. -/
def Scan.Open (text pattern : List Char) (s : Scan) : Prop :=
  Takes (pattern.drop s.patternPos) (text.drop s.textPos) ∨ s.Retries text pattern

section Walk

variable {text pattern : List Char} {s next : Scan}

/-- What is reached by stretching the last `%` further can be reached from here as well, if this is
the place of another `%`, or the end of the text. -/
theorem Scan.Reads.behind (reads : s.Reads text pattern) (retries : s.Retries text pattern) :
    ∃ rest, rest <:+ text.drop s.textPos ∧ Takes (pattern.drop s.patternPos) rest := by
  obtain ⟨wild, reached, part, retry, later, takes⟩ := retries
  obtain ⟨stretch, front, patternSplit, textSplit, stands⟩ := reads wild reached retry
  have whole : part <:+ front ++ text.drop s.textPos := by
    rw [← textSplit]
    apply later.trans
    rw [← List.drop_drop]
    exact List.drop_suffix 1 _
  rw [patternSplit] at takes
  exact takes_behind stands whole takes

/-- Right behind a `%` that has just been stretched up to some place, all that lies behind this
place is open. -/
theorem open_stretched (wild reached : Nat) :
    (Scan.mk reached (wild + 1) (some (wild, reached))).Open text pattern ↔
      ∃ rest, rest <:+ text.drop reached ∧ Takes (pattern.drop (wild + 1)) rest := by
  have further : text.drop (reached + 1) = (text.drop reached).drop 1 := by rw [List.drop_drop]
  constructor
  · rintro (here | ⟨_, _, rest, ⟨rfl⟩, later, takes⟩)
    · exact ⟨_, List.suffix_refl _, here⟩
    · rw [further] at later
      exact ⟨rest, later.trans (List.drop_suffix 1 _), takes⟩
  · rintro ⟨rest, behind, takes⟩
    cases left : text.drop reached with
    | nil =>
        rw [left, List.suffix_nil] at behind
        rw [behind, ← left] at takes
        exact .inl takes
    | cons c more =>
        rw [left] at behind
        rcases List.suffix_cons_iff.mp behind with rfl | shorter
        · rw [← left] at takes
          exact .inl takes
        · refine .inr ⟨wild, reached, rest, rfl, ?_, takes⟩
          rwa [further, left]

theorem reads_stretched (wild reached : Nat) :
    (Scan.mk reached (wild + 1) (some (wild, reached))).Reads text pattern := by
  rintro _ _ ⟨rfl⟩
  exact ⟨[], [], rfl, rfl, .nil⟩

/-- A step says what is so, or keeps what there is to try. -/
def Step.Keeps (text pattern : List Char) (s : Scan) : Step → Prop
  | .done matched => matched = true ↔ s.Open text pattern
  | .more next => next.Reads text pattern ∧ (next.Open text pattern ↔ s.Open text pattern)

theorem stretch_keeps (lost : ¬Takes (pattern.drop s.patternPos) (text.drop s.textPos)) :
    (stretch s).Keeps text pattern s := by
  have only : s.Open text pattern ↔ s.Retries text pattern := or_iff_right lost
  unfold stretch
  cases retry : s.retry with
  | none =>
      have never : ¬s.Retries text pattern := by
        rintro ⟨_, _, _, known, -⟩
        rw [retry] at known
        cases known
      simp only [Step.Keeps, only, never, Bool.false_eq_true]
  | some place =>
      obtain ⟨wild, reached⟩ := place
      apply And.intro (reads_stretched wild (reached + 1))
      rw [open_stretched, only]
      constructor
      · rintro ⟨rest, later, takes⟩
        exact ⟨wild, reached, rest, retry, later, takes⟩
      · rintro ⟨_, _, rest, known, later, takes⟩
        rw [retry] at known
        cases known
        exact ⟨rest, later, takes⟩

theorem drop_of_getElem? {α : Type} {xs : List α} {i : Nat} {x : α} (here : xs[i]? = some x) :
    xs.drop i = x :: xs.drop (i + 1) := by
  obtain ⟨inside, rfl⟩ := List.getElem?_eq_some_iff.mp here
  exact List.drop_eq_getElem_cons inside

/-- The end of the text decides: no stretch of an earlier `%` gets any further. -/
theorem end_keeps (reads : s.Reads text pattern) (ended : text.drop s.textPos = []) :
    (Step.done (restMatches pattern.toArray s.patternPos)).Keeps text pattern s := by
  have here : s.Open text pattern ↔ Takes (pattern.drop s.patternPos) [] := by
    rw [Scan.Open, ended, or_iff_left_iff_imp]
    intro retries
    obtain ⟨rest, behind, takes⟩ := reads.behind retries
    rw [ended, List.suffix_nil] at behind
    rwa [behind] at takes
  simp only [Step.Keeps, restMatches, here, takes_nil_iff]

/-- A character that stands for the one of the text is read. -/
theorem read_keeps (reads : s.Reads text pattern) (stands : Stands p c)
    (textHere : text.drop s.textPos = c :: text.drop (s.textPos + 1))
    (patternHere : pattern.drop s.patternPos = p :: pattern.drop (s.patternPos + 1)) :
    (Step.more ⟨s.textPos + 1, s.patternPos + 1, s.retry⟩).Keeps text pattern s := by
  constructor
  · intro wild reached retry
    obtain ⟨stretch, front, patternSplit, textSplit, pairs⟩ := reads wild reached retry
    refine ⟨stretch ++ [p], front ++ [c], ?_, ?_, List.rel_append pairs (.cons stands .nil)⟩
    · rw [patternSplit, patternHere, List.append_assoc, List.singleton_append]
    · rw [textSplit, textHere, List.append_assoc, List.singleton_append]
  · apply or_congr
    · rw [textHere, patternHere, takes_cons_of_stands stands]
    · exact Iff.rfl

/-- A `%` is remembered, and the earlier one forgotten. -/
theorem wild_keeps (reads : s.Reads text pattern) (parts : ¬Stands '%' c)
    (textHere : text.drop s.textPos = c :: text.drop (s.textPos + 1))
    (patternHere : pattern.drop s.patternPos = '%' :: pattern.drop (s.patternPos + 1)) :
    (Step.more ⟨s.textPos, s.patternPos + 1, some (s.patternPos, s.textPos)⟩).Keeps text pattern
      s := by
  apply And.intro (reads_stretched s.patternPos s.textPos)
  rw [open_stretched]
  constructor
  · intro taken
    apply Or.inl
    rw [patternHere, textHere, takes_cons_of_parts parts, ← textHere]
    exact ⟨rfl, taken⟩
  · rintro (here | retries)
    · rw [patternHere] at here
      exact takes_tail here
    · obtain ⟨later, behind, takes⟩ := reads.behind retries
      rw [patternHere] at takes
      obtain ⟨rest, further, taken⟩ := takes_tail takes
      exact ⟨rest, further.trans behind, taken⟩

theorem step_keeps (reads : s.Reads text pattern) :
    (step text.toArray pattern.toArray s).Keeps text pattern s := by
  unfold step
  rw [List.getElem?_toArray]
  cases textHere : text[s.textPos]? with
  | none =>
      apply end_keeps reads
      exact List.drop_eq_nil_iff.mpr (List.getElem?_eq_none_iff.mp textHere)
  | some c =>
      have textSplit := drop_of_getElem? textHere
      simp only [List.getElem?_toArray]
      cases patternHere : pattern[s.patternPos]? with
      | none =>
          have ended : pattern.drop s.patternPos = [] :=
            List.drop_eq_nil_iff.mpr (List.getElem?_eq_none_iff.mp patternHere)
          apply stretch_keeps
          rw [ended, textSplit, Takes]
          exact List.cons_ne_nil _ _
      | some p =>
          have patternSplit := drop_of_getElem? patternHere
          by_cases stands : Stands p c
          · simp only [if_pos (show p = '_' ∨ p = c from stands)]
            exact read_keeps reads stands textSplit patternSplit
          · simp only [if_neg (show ¬(p = '_' ∨ p = c) from stands)]
            by_cases percent : p = '%'
            · simp only [if_pos percent]
              subst percent
              exact wild_keeps reads stands textSplit patternSplit
            · simp only [if_neg percent]
              apply stretch_keeps
              rw [textSplit, patternSplit, takes_cons_of_parts stands]
              exact fun takes => percent takes.1

/-- Where a walk ends, it says whether there was anything left to try where it began. -/
theorem run_eq_some {limit : Nat} {matched : Bool} (reads : s.Reads text pattern)
    (ends : run text.toArray pattern.toArray limit s = some matched) :
    matched = true ↔ s.Open text pattern := by
  induction limit generalizing s with
  | zero =>
      rw [run] at ends
      cases ends
  | succ limit ih =>
      have kept := step_keeps reads
      rw [run] at ends
      cases stepped : step text.toArray pattern.toArray s with
      | done found =>
          simp only [stepped, Option.some.injEq] at ends kept
          rw [← ends]
          exact kept
      | more next =>
          simp only [stepped] at ends kept
          exact (ih kept.1 ends).trans kept.2

end Walk

end RecordExpr.Like

namespace RecordExpr

open Like

/-- The matcher accepts exactly what the pattern takes. -/
theorem like_iff_takes (text pattern : String) :
    like text pattern = true ↔ Takes pattern.toList text.toList := by
  have fresh : Scan.start.Reads text.toList pattern.toList := by
    rintro _ _ ⟨⟩
  have beginning : Scan.start.Open text.toList pattern.toList ↔
      Takes pattern.toList text.toList := by
    rw [Scan.Open, or_iff_left]
    · rfl
    · rintro ⟨_, _, _, ⟨⟩, -⟩
  obtain ⟨matched, ends⟩ := Option.isSome_iff_exists.mp
    (walk_isSome text.toList.toArray pattern.toList.toArray)
  rw [like, ends, Option.getD_some, ← beginning]
  exact run_eq_some fresh ends

/-- A text that is accepted can be split to fit the pattern; and where not both of them have a `%`,
every text that can be split so is accepted. With a `%` in both, what is accepted are the splits in
which no `%` of the pattern takes a run that begins with a `%` of the text, unless it is this
character alone. -/
theorem like_iff_fits (text pattern : String) :
    (like text pattern = true ↔ Takes pattern.toList text.toList) ∧
      (like text pattern = true → Fits text.toList pattern.toList) ∧
      ('%' ∉ text.toList ∨ '%' ∉ pattern.toList →
        (like text pattern = true ↔ Fits text.toList pattern.toList)) := by
  have accepts := like_iff_takes text pattern
  refine ⟨accepts, ?_, ?_⟩
  · intro accepted
    exact fits_of_takes (accepts.mp accepted)
  · intro apart
    constructor
    · intro accepted
      exact fits_of_takes (accepts.mp accepted)
    · intro fits
      exact accepts.mpr (takes_of_fits fits apart)

/-- A `%` of the text that a `%` of the pattern meets is taken for itself alone. -/
theorem percent_sign_not_matched :
    like "100% wool" "100%" = false ∧ Fits "100% wool".toList "100%".toList := by
  constructor
  · decide +kernel
  · have wool : Fits ("% wool".toList ++ []) ['%'] := .run "% wool".toList .nil
    exact .same (by decide) (by decide) (.same (by decide) (by decide)
      (.same (by decide) (by decide) wool))

end RecordExpr
