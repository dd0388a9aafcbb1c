import RecordExpr.Eval.Basic

set_option autoImplicit false

namespace RecordExpr

/-- A question with the answer to it. -/
structure Answered where
  question : Reference
  answer : Option Record

namespace Dialogue

variable {α β σ τ : Type}

/-- The dialogue can be answered so, and ends with this result then. -/
inductive Course {α : Type} : Dialogue α → List Answered → α → Prop where
  | done (result : α) : Course (.done result) [] result
  | ask (question : Reference) {next : Option Record → Dialogue α} {answer : Option Record}
      {answered : List Answered} {result : α} (rest : Course (next answer) answered result) :
      Course (.ask question next) (⟨question, answer⟩ :: answered) result

theorem Course.bind {d : Dialogue α} {f : α → Dialogue β} {earlier later : List Answered} {a : α}
    {b : β} (first : d.Course earlier a) (second : (f a).Course later b) :
    (d.bind f).Course (earlier ++ later) b := by
  induction first with
  | done result => exact second
  | ask question _ ih => exact .ask question (ih second)

theorem Course.of_bind {d : Dialogue α} {f : α → Dialogue β} {answered : List Answered} {b : β}
    (course : (d.bind f).Course answered b) :
    ∃ earlier a later, d.Course earlier a ∧ (f a).Course later b ∧ earlier ++ later = answered := by
  induction d generalizing answered with
  | done result => exact ⟨[], result, answered, .done result, course, rfl⟩
  | ask question next ih =>
      cases course with
      | ask _ rest =>
          obtain ⟨earlier, a, later, first, second, rfl⟩ := ih _ rest
          exact ⟨_ :: earlier, a, later, .ask question first, second, rfl⟩

/-- The answers of a state, with the questions written down. -/
private def noting (answer : Reference → StateM σ (Option Record)) (question : Reference) :
    StateM (σ × List Reference) (Option Record) :=
  fun (s, asked) => ((answer question s).1, ((answer question s).2, asked ++ [question]))

/-- What is written down already stays in front. -/
private theorem run_noting (answer : Reference → StateM σ (Option Record)) (d : Dialogue α) (s : σ)
    (asked : List Reference) :
    (d.run (noting answer) (s, asked)).1 = (d.run (noting answer) (s, [])).1 ∧
      (d.run (noting answer) (s, asked)).2.2 =
        asked ++ (d.run (noting answer) (s, [])).2.2 := by
  induction d generalizing s asked with
  | done result => exact ⟨rfl, (List.append_nil asked).symm⟩
  | ask question next ih =>
      obtain ⟨result, questions⟩ := ih _ (answer question s).2 (asked ++ [question])
      obtain ⟨result', questions'⟩ := ih _ (answer question s).2 [question]
      rw [run_ask, run_ask]
      refine ⟨result.trans result'.symm, questions.trans ?_⟩
      rw [List.append_assoc]
      exact congrArg (asked ++ ·) questions'.symm

variable (answer : Reference → StateM σ (Option Record)) (s : σ)

theorem transcript_ask (question : Reference) (next : Option Record → Dialogue α) :
    (ask question next).transcript answer s =
      let rest := (next (answer question s).1).transcript answer (answer question s).2
      (question :: rest.1, rest.2) := by
  obtain ⟨result, questions⟩ :=
    run_noting answer (next (answer question s).1) (answer question s).2 [question]
  exact Prod.ext questions result

theorem transcript_result (d : Dialogue α) : (d.transcript answer s).2 = (d.run answer s).1 := by
  induction d generalizing s with
  | done result => rfl
  | ask question next ih =>
      rw [transcript_ask, run_ask]
      exact ih _ _

/-- Every transcript is a course. -/
theorem course_transcript (d : Dialogue α) :
    ∃ answered, d.Course answered (d.transcript answer s).2 ∧
      answered.map Answered.question = (d.transcript answer s).1 := by
  induction d generalizing s with
  | done result => exact ⟨[], .done result, rfl⟩
  | ask question next ih =>
      obtain ⟨answered, course, questions⟩ := ih _ (answer question s).2
      rw [transcript_ask]
      exact ⟨_ :: answered, .ask question course, congrArg (question :: ·) questions⟩

/-- The answers to questions that are put one after the other. -/
def replies (asked : List Reference) : List (Option Record) := (asked.mapM answer s).1

@[simp] theorem replies_nil : replies answer s [] = [] := rfl

@[simp] theorem replies_cons (question : Reference) (rest : List Reference) :
    replies answer s (question :: rest) =
      (answer question s).1 :: replies answer (answer question s).2 rest := by
  rw [replies, List.mapM_cons]
  rfl

variable {answer : Reference → StateM σ (Option Record)} {s : σ}
  {other : Reference → StateM τ (Option Record)} {t : τ}

/-- After as many answers as are alike the next question is the same. -/
theorem transcript_take (d : Dialogue α) {n : Nat}
    (alike : replies answer s ((d.transcript answer s).1.take n) =
      replies other t ((d.transcript other t).1.take n)) :
    (d.transcript answer s).1.take (n + 1) = (d.transcript other t).1.take (n + 1) := by
  induction d generalizing s t n with
  | done result => rfl
  | ask question next ih =>
      rw [transcript_ask, transcript_ask] at alike ⊢
      rw [List.take_succ_cons, List.take_succ_cons, List.cons.injEq]
      refine ⟨rfl, ?_⟩
      cases n with
      | zero => rw [List.take_zero, List.take_zero]
      | succ n =>
          rw [List.take_succ_cons, List.take_succ_cons, replies_cons, replies_cons,
            List.cons.injEq] at alike
          obtain ⟨same, later⟩ := alike
          rw [← same] at later ⊢
          exact ih _ later

/-- Whoever answers all questions of a run as they were answered there leads to the same run. -/
theorem transcript_eq_of_replies (d : Dialogue α)
    (alike : replies other t (d.transcript answer s).1 =
      replies answer s (d.transcript answer s).1) :
    d.transcript other t = d.transcript answer s := by
  induction d generalizing s t with
  | done result => rfl
  | ask question next ih =>
      rw [transcript_ask] at alike
      rw [replies_cons, replies_cons, List.cons.injEq] at alike
      obtain ⟨same, later⟩ := alike
      rw [transcript_ask, transcript_ask, same]
      rw [ih _ later]

end Dialogue

namespace Evaluation

variable {α β : Type} {answered : List Answered} {x : Evaluation α}

theorem course_pure_iff {a : α} {result : Except EvalError α} :
    (pure a : Evaluation α).run.Course answered result ↔ answered = [] ∧ result = .ok a := by
  constructor
  · rintro ⟨⟩
    exact ⟨rfl, rfl⟩
  · rintro ⟨rfl, rfl⟩
    exact .done _

theorem course_throw_iff {problem : EvalError} {result : Except EvalError α} :
    (throw problem : Evaluation α).run.Course answered result ↔
      answered = [] ∧ result = .error problem := by
  constructor
  · rintro ⟨⟩
    exact ⟨rfl, rfl⟩
  · rintro ⟨rfl, rfl⟩
    exact .done _

/-- The second of two evaluations is reached with a value of the first only. -/
theorem course_bind_iff {f : α → Evaluation β} {result : Except EvalError β} :
    (x >>= f).run.Course answered result ↔
      (∃ problem, x.run.Course answered (.error problem) ∧ result = .error problem) ∨
      ∃ earlier a later, x.run.Course earlier (.ok a) ∧ (f a).run.Course later result ∧
        earlier ++ later = answered := by
  rw [run_bind]
  constructor
  · intro course
    obtain ⟨earlier, given, later, first, second, rfl⟩ := course.of_bind
    cases given with
    | ok a => exact .inr ⟨earlier, a, later, first, second, rfl⟩
    | error problem =>
        cases second
        rw [List.append_nil]
        exact .inl ⟨problem, first, rfl⟩
  · rintro (⟨problem, first, rfl⟩ | ⟨earlier, a, later, first, second, rfl⟩)
    · rw [← List.append_nil answered]
      exact first.bind (.done _)
    · exact first.bind second

theorem course_map_iff {f : α → β} {result : Except EvalError β} :
    Dialogue.Course (do return f (← x) : Evaluation β).run answered result ↔
      ∃ given, x.run.Course answered given ∧ given.map f = result := by
  rw [course_bind_iff]
  constructor
  · rintro (⟨problem, first, rfl⟩ | ⟨earlier, a, later, first, second, rfl⟩)
    · exact ⟨.error problem, first, rfl⟩
    · obtain ⟨rfl, rfl⟩ := course_pure_iff.mp second
      rw [List.append_nil]
      exact ⟨.ok a, first, rfl⟩
  · rintro ⟨given, first, rfl⟩
    cases given with
    | ok a => exact .inr ⟨answered, a, [], first, .done _, List.append_nil answered⟩
    | error problem => exact .inl ⟨problem, first, rfl⟩

/-- A lookup puts one question at most, and does not fail. -/
theorem course_getFeature {args : List Value} {result : Except EvalError Value}
    (course : (getFeature args).run.Course answered result) :
    ∃ asked : Option Answered, asked.toList = answered ∧ ∃ v, result = .ok v := by
  unfold getFeature at course
  split at course
  · rename_i dataset attributeName value
    split at course
    · obtain ⟨rfl, rfl⟩ := course_pure_iff.mp course
      exact ⟨none, rfl, _, rfl⟩
    · obtain ⟨given, put, rfl⟩ := course_map_iff.mp course
      cases put with
      | ask _ rest =>
          cases rest
          exact ⟨some ⟨_, _⟩, rfl, _, rfl⟩
  · obtain ⟨rfl, rfl⟩ := course_pure_iff.mp course
    exact ⟨none, rfl, _, rfl⟩

end Evaluation

end RecordExpr
