import RecordExpr.Fault
import RecordExpr.Proofs.Growth

set_option autoImplicit false

namespace RecordExpr

namespace Dialogue

variable {α β : Type} {before after c later : Cache}

/-- The cache has a result for everything that the dialogue asks, and this is where it ends. -/
inductive Final (c : Cache) {α : Type} : Dialogue α → α → Prop where
  | done (result : α) : Final c (.done result) result
  | ask {question : Reference} {next : Option Record → Dialogue α} {found : Option Record}
      {result : α} (known : c.slot? (LookupKey.ofReference question) = some (.resolved found))
      (rest : Final c (next found) result) : Final c (.ask question next) result

/-- A pass through the dialogue between two states of the cache: what was known before it is what it
is told, and whatever it asks for is known after it. -/
inductive Pass (before after : Cache) {α : Type} : Dialogue α → α → Prop where
  | done (result : α) : Pass before after (.done result) result
  | ask {question : Reference} {next : Option Record → Dialogue α} {given found : Option Record}
      {result : α}
      (told : ∀ known, before.slot? (LookupKey.ofReference question) = some (.resolved known) →
        given = known)
      (later : after.slot? (LookupKey.ofReference question) = some (.resolved found))
      (rest : Pass before after (next given) result) : Pass before after (.ask question next) result

theorem Final.grows {d : Dialogue α} {result : α} (final : Final c d result)
    (grows : c.Grows later) : Final later d result := by
  induction final with
  | done result => exact .done result
  | ask known _ ih => exact .ask (grows.resolved known) ih

theorem Final.bind {d : Dialogue α} {f : α → Dialogue β} {a : α} {b : β} (first : Final c d a)
    (second : Final c (f a) b) : Final c (d.bind f) b := by
  induction first with
  | done => exact second
  | ask known _ ih => exact .ask known (ih second)

/-- A pass through a longer dialogue is one through its first part and one through what follows. -/
theorem Pass.of_bind {d : Dialogue α} {f : α → Dialogue β} {b : β}
    (pass : Pass before after (d.bind f) b) :
    ∃ a, Pass before after d a ∧ Pass before after (f a) b := by
  induction d with
  | done a => exact ⟨a, .done a, pass⟩
  | ask question next ih =>
      cases pass with
      | ask told later rest =>
          obtain ⟨a, first, second⟩ := ih _ rest
          exact ⟨a, .ask told later first, second⟩

/-- A pass after which a dialogue was final already ends where that does. -/
theorem Pass.eq_of_final {d : Dialogue α} {a b : α} (pass : Pass before after d b)
    (final : Final before d a) : b = a := by
  induction final with
  | done result =>
      cases pass
      rfl
  | ask known _ ih =>
      cases pass with
      | ask told _ rest =>
          rw [told _ known] at rest
          exact ih rest

/-- After one pass a question is final. -/
theorem Pass.final_ask {question : Reference} {f : Option Record → α} {a : α}
    (pass : Pass before after (.ask question fun found => .done (f found)) a) :
    ∃ r, Final after (.ask question fun found => .done (f found)) r := by
  cases pass with
  | ask _ later _ => exact ⟨_, .ask later (.done _)⟩

end Dialogue

namespace Evaluation

variable {α β γ : Type} {c later : Cache} {n m : Nat}

/-- So many passes were made through an evaluation, none of which failed, and the cache has grown to
this between them. -/
inductive Passed (x : Evaluation α) : Nat → Cache → Prop where
  | none (c : Cache) : Passed x 0 c
  | next {n : Nat} {c later : Cache} {v : α} (earlier : Passed x n c) (grows : c.Grows later)
      (pass : Dialogue.Pass c later x.run (.ok v)) : Passed x (n + 1) later

/-- The cache has everything that the evaluation asks for. -/
def Settled (c : Cache) (x : Evaluation α) : Prop := ∃ result, Dialogue.Final c x.run result

/-- After so many passes an evaluation asks for nothing that is not known. -/
def FinalAfter (n : Nat) (x : Evaluation α) : Prop := ∀ c, Passed x n c → Settled c x

theorem Settled.grows {x : Evaluation α} (settled : Settled c x) (grows : c.Grows later) :
    Settled later x := by
  obtain ⟨result, final⟩ := settled
  exact ⟨result, final.grows grows⟩

theorem FinalAfter.of_pure (a : α) (n : Nat) : FinalAfter n (pure a : Evaluation α) :=
  fun _ _ => ⟨_, .done _⟩

theorem FinalAfter.of_throw (e : EvalError) (n : Nat) : FinalAfter n (throw e : Evaluation α) :=
  fun _ _ => ⟨_, .done _⟩

theorem Passed.earlier {x : Evaluation α} (passed : Passed x (n + m) c) :
    ∃ before, Passed x n before ∧ before.Grows c := by
  induction m generalizing c with
  | zero => exact ⟨c, passed, .refl c⟩
  | succ m ih =>
      cases passed with
      | next earlier grows pass =>
          obtain ⟨before, passedBefore, grown⟩ := ih earlier
          exact ⟨before, passedBefore, grown.trans grows⟩

/-- What is final stays final. -/
theorem FinalAfter.mono {x : Evaluation α} (final : FinalAfter n x) (more : n ≤ m) :
    FinalAfter m x := by
  obtain ⟨extra, rfl⟩ := Nat.exists_eq_add_of_le more
  intro c passed
  obtain ⟨before, passedBefore, grows⟩ := passed.earlier
  exact (final before passedBefore).grows grows

/-- A pass that does not fail is one through each part, and none of them fails. -/
theorem pass_of_bind {x : Evaluation α} {f : α → Evaluation β} {v : β}
    (pass : Dialogue.Pass c later (x >>= f).run (.ok v)) :
    ∃ a, Dialogue.Pass c later x.run (.ok a) ∧ Dialogue.Pass c later (f a).run (.ok v) := by
  rw [run_bind] at pass
  obtain ⟨result, first, second⟩ := pass.of_bind
  cases result with
  | ok a => exact ⟨a, first, second⟩
  | error e => cases second

theorem Passed.of_bind {x : Evaluation α} {f : α → Evaluation β} (passed : Passed (x >>= f) n c) :
    Passed x n c := by
  induction passed with
  | none c => exact .none c
  | next earlier grows pass ih =>
      obtain ⟨a, first, -⟩ := pass_of_bind pass
      exact ih.next grows first

theorem final_bind_of_ok {x : Evaluation α} {f : α → Evaluation β} {a : α}
    (first : Dialogue.Final c x.run (.ok a)) (second : Settled c (f a)) : Settled c (x >>= f) := by
  obtain ⟨result, final⟩ := second
  refine ⟨result, ?_⟩
  rw [run_bind]
  exact first.bind final

theorem final_bind_of_error {x : Evaluation α} {f : α → Evaluation β} {e : EvalError}
    (first : Dialogue.Final c x.run (.error e)) : Settled c (x >>= f) := by
  refine ⟨.error e, ?_⟩
  rw [run_bind]
  exact first.bind (.done _)

/-- From when the first part is final on, the passes are passes through what follows it. -/
theorem Passed.rest {x : Evaluation α} {f : α → Evaluation β} (final : FinalAfter n x)
    (passed : Passed (x >>= f) (n + m) c) :
    (∃ e, Dialogue.Final c x.run (.error e)) ∨
      ∃ a, Dialogue.Final c x.run (.ok a) ∧ Passed (f a) m c := by
  induction m generalizing c with
  | zero =>
      obtain ⟨result, known⟩ := final c passed.of_bind
      cases result with
      | error e => exact .inl ⟨e, known⟩
      | ok a => exact .inr ⟨a, known, .none c⟩
  | succ m ih =>
      cases passed with
      | next earlier grows pass =>
          rcases ih earlier with ⟨e, known⟩ | ⟨a, known, passedRest⟩
          · exact .inl ⟨e, known.grows grows⟩
          · obtain ⟨b, first, second⟩ := pass_of_bind pass
            have same : b = a := Except.ok.inj (first.eq_of_final known)
            subst same
            exact .inr ⟨b, known.grows grows, passedRest.next grows second⟩

/-- One after the other: the passes add up. -/
theorem FinalAfter.then {x : Evaluation α} {f : α → Evaluation β} (first : FinalAfter n x)
    (second : ∀ a, FinalAfter m (f a)) : FinalAfter (n + m) (x >>= f) := by
  intro c passed
  rcases passed.rest first with ⟨e, known⟩ | ⟨a, known, passedRest⟩
  · exact final_bind_of_error known
  · exact final_bind_of_ok known (second a c passedRest)

/-- A result that is only worked on takes no pass more. -/
theorem FinalAfter.map {x : Evaluation α} (final : FinalAfter n x) (f : α → β) :
    FinalAfter n (do return f (← x)) :=
  final.then fun a => .of_pure (f a) 0

/-- Side by side: both parts are final after the same passes, since the second is asked for the same
whatever the first one gives. -/
theorem FinalAfter.both {x : Evaluation α} {y : Evaluation β} (first : FinalAfter n x)
    (second : FinalAfter n y) (f : α → β → γ) :
    FinalAfter n (do
      let a ← x
      let b ← y
      return f a b) := by
  intro c passed
  have passedSecond : Passed y n c := by
    clear first second
    induction passed with
    | none c => exact .none c
    | next earlier grows pass ih =>
        obtain ⟨a, -, rest⟩ := pass_of_bind pass
        obtain ⟨b, through, -⟩ := pass_of_bind rest
        exact ih.next grows through
  obtain ⟨result, known⟩ := first c passed.of_bind
  cases result with
  | error e => exact final_bind_of_error known
  | ok a =>
      refine final_bind_of_ok known ?_
      obtain ⟨result, knownToo⟩ := second c passedSecond
      cases result with
      | error e => exact final_bind_of_error knownToo
      | ok b => exact final_bind_of_ok knownToo ⟨_, .done _⟩

/-- A question is final after one pass. -/
theorem finalAfter_ask (question : Reference) : FinalAfter 1 (ask question) := by
  intro c passed
  cases passed with
  | next earlier grows pass => exact pass.final_ask

/-- A lookup takes one pass more than its arguments. -/
theorem finalAfter_getFeature (args : List Value) : FinalAfter 1 (getFeature args) := by
  unfold getFeature
  split
  · split
    · exact .of_pure Value.null 1
    · exact (finalAfter_ask _).map Value.ofRecord?
  · exact .of_pure Value.null 1

end Evaluation

namespace Expr

mutual

/-- The length of the longest chain of lookups that depend on one another. The arguments of a call
are evaluated side by side; a branch is not chosen before the condition is known, so both depths add
up. -/
def depth : Expr → Nat
  | literal _ _ => 0
  | field _ _ => 0
  | member _ target _ => target.depth
  | call _ name args =>
    match Callee.named? name, args with
    | some .getFeature, args => 1 + deepest args
    | some .conditional, [condition, thenBranch, elseBranch] =>
      condition.depth + max thenBranch.depth elseBranch.depth
    | _, args => deepest args
  | unary _ _ operand => operand.depth
  | binary _ _ lhs rhs => max lhs.depth rhs.depth

/-- The largest depth of several trees. -/
def deepest : List Expr → Nat
  | [] => 0
  | e :: rest => max e.depth (deepest rest)

end

variable {mode : Mode} {subject : Record}

theorem depth_getFeature {name : String} (named : Callee.named? name = some .getFeature)
    (token : Token) (args : List Expr) : (call token name args).depth = deepest args + 1 := by
  simp only [depth, named, Nat.add_comm]

theorem depth_conditional {name : String} (named : Callee.named? name = some .conditional)
    (token : Token) (condition thenBranch elseBranch : Expr) :
    (call token name [condition, thenBranch, elseBranch]).depth =
      condition.depth + max thenBranch.depth elseBranch.depth := by
  simp only [depth, named]

theorem depth_builtin {name : String} {function : Builtin}
    (named : Callee.named? name = some (.builtin function)) (token : Token) (args : List Expr) :
    (call token name args).depth = deepest args := by
  rw [depth.eq_def]
  simp only [named]

/-- Which branch is evaluated is settled with the condition, and from then on it is the same one. -/
theorem finalAfter_choice {condition thenBranch elseBranch : Expr}
    (decides : (condition.evaluate mode subject).FinalAfter condition.depth)
    (first : (thenBranch.evaluate mode subject).FinalAfter thenBranch.depth)
    (second : (elseBranch.evaluate mode subject).FinalAfter elseBranch.depth) :
    (evaluateChoice mode subject [condition, thenBranch, elseBranch]).FinalAfter
      (condition.depth + max thenBranch.depth elseBranch.depth) := by
  rw [evaluateChoice]
  refine decides.then ?_
  intro v
  split
  · exact first.mono (Nat.le_max_left _ _)
  · exact second.mono (Nat.le_max_right _ _)

/-- Trees that are evaluated one after the other are done when each of them is. -/
theorem finalAfter_deepest {args : List Expr}
    (each : ∀ arg ∈ args, (arg.evaluate mode subject).FinalAfter arg.depth) :
    (evaluateAll mode subject args).FinalAfter (deepest args) := by
  induction args with
  | nil =>
      rw [evaluateAll]
      exact .of_pure _ _
  | cons first rest ih =>
      obtain ⟨here, later⟩ := List.forall_mem_cons.mp each
      rw [evaluateAll, deepest]
      exact (here.mono (Nat.le_max_left _ _)).both ((ih later).mono (Nat.le_max_right _ _))
        List.cons

theorem finalAfter_call {name : String} {args : List Expr}
    (each : ∀ arg ∈ args, (arg.evaluate mode subject).FinalAfter arg.depth) (token : Token) :
    ((call token name args).evaluate mode subject).FinalAfter (call token name args).depth := by
  rw [Expr.evaluate]
  cases named : Callee.named? name with
  | none => exact .of_throw _ _
  | some callee =>
      by_cases accepted : callee.arity.accepts args.length = true
      · simp only [accepted, if_true]
        cases callee with
        | getFeature =>
            rw [depth_getFeature named]
            exact (finalAfter_deepest each).then Evaluation.finalAfter_getFeature
        | conditional =>
            by_cases three : ∃ condition thenBranch elseBranch,
                args = [condition, thenBranch, elseBranch]
            · obtain ⟨condition, thenBranch, elseBranch, rfl⟩ := three
              rw [depth_conditional named]
              exact finalAfter_choice (each condition (by simp)) (each thenBranch (by simp))
                (each elseBranch (by simp))
            · rw [evaluateChoice]
              · exact .of_pure _ _
              · intro condition thenBranch elseBranch same
                exact three ⟨condition, thenBranch, elseBranch, same⟩
        | builtin function =>
            rw [depth_builtin named]
            exact (finalAfter_deepest each).map function.apply
      · simp only [accepted]
        exact .of_throw _ _

/-- An operator needs what its two sides need; a comparison that becomes a filter needs only its
right side. -/
theorem finalAfter_binary {lhs rhs : Expr}
    (left : (lhs.evaluate mode subject).FinalAfter lhs.depth)
    (right : (rhs.evaluate mode subject).FinalAfter rhs.depth) (token : Token) (op : BinaryOp) :
    ((binary token op lhs rhs).evaluate mode subject).FinalAfter
      (binary token op lhs rhs).depth := by
  have here := left.mono (Nat.le_max_left lhs.depth rhs.depth)
  have later := right.mono (Nat.le_max_right lhs.depth rhs.depth)
  unfold Expr.evaluate
  rw [depth]
  split
  · rename_i relation _ name
    exact later.map fun v => Value.filter (.compare name relation v)
  · exact here.both later (Value.binary op)

/-- A cache that resolves between the passes what they ask for has all that a tree asks for after as
many passes as the tree is deep. -/
theorem finalAfter_depth (mode : Mode) (subject : Record) (e : Expr) :
    (e.evaluate mode subject).FinalAfter e.depth := by
  induction e using tree_induction with
  | literal token l =>
      rw [Expr.evaluate]
      exact .of_pure l.value _
  | field token name =>
      rw [Expr.evaluate]
      exact .of_pure _ _
  | member token target name ih =>
      rw [Expr.evaluate, depth]
      exact ih.map fun v => v.get name
  | call token name args ih => exact finalAfter_call ih token
  | unary token op operand ih =>
      rw [Expr.evaluate, depth]
      exact ih.map fun v => Value.unary mode op v
  | binary token op lhs rhs left right => exact finalAfter_binary left right token op

end Expr

end RecordExpr
