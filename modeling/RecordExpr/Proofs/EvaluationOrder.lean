import RecordExpr.Proofs.EvaluationRules
import RecordExpr.Proofs.Nodes

set_option autoImplicit false

namespace RecordExpr

namespace Expr

/-- The tree at a place, which is given by the numbers of the children on the way to it. -/
def at? : Expr → List Nat → Option Expr
  | e, [] => some e
  | e, i :: rest => e.children[i]?.bind fun child => child.at? rest

theorem at?_append (e : Expr) (above below : List Nat) :
    e.at? (above ++ below) = (e.at? above).bind fun d => d.at? below := by
  induction above generalizing e with
  | nil => rfl
  | cons i rest ih =>
      rw [List.cons_append, at?, at?, Option.bind_assoc]
      congr 1
      funext child
      exact ih child

theorem at?_child {root parent : Expr} {place : List Nat} (here : root.at? place = some parent)
    (i : Nat) : root.at? (place ++ [i]) = parent.children[i]? := by
  rw [at?_append, here, Option.bind_some, at?]
  cases parent.children[i]? <;> rfl

theorem mem_nodes_of_at? {root e : Expr} {place : List Nat} (here : root.at? place = some e) :
    e ∈ root.nodes := by
  induction place generalizing root with
  | nil =>
      cases here
      exact mem_nodes_self e
  | cons i rest ih =>
      obtain ⟨child, isChild, below⟩ := Option.bind_eq_some_iff.mp here
      exact mem_nodes_of_child (List.mem_of_getElem? isChild) (ih below)

/-- The tree is a call of the conditional. -/
def isConditional : Expr → Bool
  | call _ name _ => Callee.named? name == some .conditional
  | _ => false

/-- What stands at the one place is over before what stands at the other begins. At the node where
the two part it is further to the left; where this node is a conditional it is in the condition,
since whoever is in one branch has nothing to do with the other. -/
def Before (root : Expr) (first second : List Nat) : Prop :=
  ∃ above parent i j rest rest', root.at? above = some parent ∧ first = above ++ i :: rest ∧
    second = above ++ j :: rest' ∧ i < j ∧ (parent.isConditional = true → i = 0)

/-- The node at the one place is left before that at the other: it comes before, or is below. -/
def LeftBefore (root : Expr) (first second : List Nat) : Prop :=
  root.Before first second ∨ second <+: first ∧ second ≠ first

theorem Before.not_prefix {root : Expr} {first second : List Nat}
    (before : root.Before first second) : ¬first <+: second := by
  obtain ⟨above, parent, i, j, rest, rest', -, rfl, rfl, earlier, -⟩ := before
  rw [List.prefix_append_right_inj, List.cons_prefix_cons]
  rintro ⟨same, -⟩
  exact Nat.ne_of_lt earlier same

theorem LeftBefore.ne {root : Expr} {first second : List Nat}
    (before : root.LeftBefore first second) : first ≠ second := by
  rintro rfl
  rcases before with before | ⟨-, other⟩
  · exact before.not_prefix (List.prefix_refl first)
  · exact other rfl

/-- The place is in the child of this number or one further to the right. -/
def Under (place : List Nat) (i : Nat) (p : List Nat) : Prop :=
  ∃ j rest, i ≤ j ∧ p = place ++ j :: rest

theorem under_of_prefix {place p : List Nat} {i j : Nat} (inside : place ++ [j] <+: p)
    (right : i ≤ j) : Under place i p := by
  obtain ⟨rest, rfl⟩ := inside
  exact ⟨j, rest, right, List.append_assoc place [j] rest⟩

theorem Under.isBelow {place p : List Nat} {i : Nat} (under : Under place i p) :
    place <+: p ∧ place ≠ p := by
  obtain ⟨j, rest, -, rfl⟩ := under
  refine ⟨List.prefix_append place _, ?_⟩
  intro same
  have lengths := congrArg List.length same
  rw [List.length_append, List.length_cons] at lengths
  omega

theorem before_of_under {root parent : Expr} {place first second : List Nat} {i : Nat}
    (here : root.at? place = some parent) (lazy : parent.isConditional = true → i = 0)
    (inside : place ++ [i] <+: first) (under : Under place (i + 1) second) :
    root.Before first second := by
  obtain ⟨rest, rfl⟩ := inside
  obtain ⟨j, rest', right, rfl⟩ := under
  exact ⟨place, parent, i, j, rest, rest', here, List.append_assoc place [i] rest, rfl, right, lazy⟩

/-- A lookup with its three arguments stands at the place. -/
def LookupAt (root : Expr) (place : List Nat) : Prop :=
  ∃ token name args, root.at? place = some (call token name args) ∧
    Callee.named? name = some .getFeature ∧ args.length = 3

/-- The call at the place of the failure is refused for its problem. -/
def FaultAt (root : Expr) (failure : Failure) : Prop :=
  ∃ token name args, root.at? failure.place = some (call token name args) ∧
    Refuses token name args failure.problem

/-- The part of a run that goes on in this region of the tree: it keeps to the order of evaluation,
asks at lookups only, and blames a call that comes after all that have asked. -/
structure InOrder (root : Expr) (region : List Nat → Prop) (visits : List Visit) {α : Type}
    (ending : Ending α) : Prop where
  inside : ∀ v ∈ visits, region v.place
  ordered : visits.Pairwise fun v w => root.LeftBefore v.place w.place
  lookups : ∀ v ∈ visits, v.answered ≠ none → root.LookupAt v.place
  fault : ∀ failure, ending = .error failure → region failure.place ∧ root.FaultAt failure ∧
    ∀ v ∈ visits, v.answered ≠ none → root.Before v.place failure.place

namespace InOrder

variable {α β : Type} {root parent : Expr} {region : List Nat → Prop} {place : List Nat} {i : Nat}
  {visits more : List Visit} {ending : Ending α}

theorem nil (root : Expr) (region : List Nat → Prop) (a : α) :
    InOrder root region [] (.ok a : Ending α) where
  inside := nofun
  ordered := .nil
  lookups := nofun
  fault := nofun

theorem map (run : InOrder root region visits ending) (f : α → β) :
    InOrder root region visits (ending.map f) where
  inside := run.inside
  ordered := run.ordered
  lookups := run.lookups
  fault failure failed := by
    cases ending with
    | ok a => cases failed
    | error other =>
        cases failed
        exact run.fault failure rfl

/-- A failure ends whatever it is part of. -/
theorem fails {failure : Failure} (run : InOrder root region visits (.error failure : Ending α)) :
    InOrder root region visits (.error failure : Ending β) where
  inside := run.inside
  ordered := run.ordered
  lookups := run.lookups
  fault other failed := by
    cases failed
    exact run.fault failure rfl

theorem mono {wider : List Nat → Prop} (run : InOrder root region visits ending)
    (wide : ∀ p, region p → wider p) : InOrder root wider visits ending where
  inside v visited := wide _ (run.inside v visited)
  ordered := run.ordered
  lookups := run.lookups
  fault failure failed := by
    obtain ⟨inside, fault, before⟩ := run.fault failure failed
    exact ⟨wide _ inside, fault, before⟩

/-- The run in a child is part of the run of its parent. -/
theorem child (run : InOrder root (place ++ [i] <+: ·) visits ending) :
    InOrder root (Under place i) visits ending :=
  run.mono fun _ inside => under_of_prefix inside (Nat.le_refl i)

/-- After a child come those to its right. In a conditional this is only so after the condition. -/
theorem next {a : β} (here : root.at? place = some parent)
    (lazy : parent.isConditional = true → i = 0)
    (first : InOrder root (place ++ [i] <+: ·) visits (.ok a : Ending β))
    (others : InOrder root (Under place (i + 1)) more ending) :
    InOrder root (Under place i) (visits ++ more) ending where
  inside v visited := by
    rcases List.mem_append.mp visited with early | late
    · exact under_of_prefix (first.inside v early) (Nat.le_refl i)
    · obtain ⟨j, rest, right, same⟩ := others.inside v late
      exact ⟨j, rest, Nat.le_of_succ_le right, same⟩
  ordered := by
    refine List.pairwise_append.mpr ⟨first.ordered, others.ordered, ?_⟩
    intro v early w late
    exact .inl (before_of_under here lazy (first.inside v early) (others.inside w late))
  lookups v visited := by
    rcases List.mem_append.mp visited with early | late
    · exact first.lookups v early
    · exact others.lookups v late
  fault failure failed := by
    obtain ⟨under, fault, before⟩ := others.fault failure failed
    obtain ⟨j, rest, right, same⟩ := under
    -- all of the child is over before a failure to its right
    refine ⟨⟨j, rest, Nat.le_of_succ_le right, same⟩, fault, ?_⟩
    intro v visited asked
    rcases List.mem_append.mp visited with early | late
    · exact before_of_under here lazy (first.inside v early) ⟨j, rest, right, same⟩
    · exact before v late asked

/-- The node is left after all that is below it. If it asks for anything, it is a lookup, and has
not failed. -/
theorem leave (run : InOrder root (Under place 0) visits ending) {asked : Option Answered}
    (looks : asked ≠ none → root.LookupAt place ∧ ∀ failure, ending ≠ .error failure) :
    InOrder root (place <+: ·) (visits ++ [⟨place, asked⟩]) ending where
  inside v visited := by
    rcases List.mem_append.mp visited with below | here
    · exact (run.inside v below).isBelow.1
    · obtain rfl := List.mem_singleton.mp here
      exact List.prefix_refl place
  ordered := by
    refine List.pairwise_append.mpr ⟨run.ordered, List.pairwise_singleton _ _, ?_⟩
    intro v below w here
    rw [List.mem_singleton.mp here]
    exact .inr (run.inside v below).isBelow
  lookups v visited := by
    rcases List.mem_append.mp visited with below | here
    · exact run.lookups v below
    · rw [List.mem_singleton.mp here]
      exact fun asks => (looks asks).1
  fault failure failed := by
    obtain ⟨under, fault, before⟩ := run.fault failure failed
    refine ⟨under.isBelow.1, fault, ?_⟩
    intro v visited asks
    rcases List.mem_append.mp visited with below | here
    · exact before v below asks
    · rw [List.mem_singleton.mp here] at asks
      exact absurd failed ((looks asks).2 failure)

/-- Most nodes ask nothing themselves. -/
theorem leave_quietly (run : InOrder root (Under place 0) visits ending) :
    InOrder root (place <+: ·) (visits ++ [⟨place, none⟩]) ending :=
  run.leave fun asks => absurd rfl asks

theorem refused {token : Token} {name : String} {args : List Expr} {problem : EvalError}
    (here : root.at? place = some (call token name args))
    (refuses : Refuses token name args problem) :
    InOrder root (place <+: ·) [⟨place, none⟩] (.error ⟨place, problem⟩ : Ending α) where
  inside v visited := by
    obtain rfl := List.mem_singleton.mp visited
    exact List.prefix_refl place
  ordered := List.pairwise_singleton _ _
  lookups v visited asks := by
    rw [List.mem_singleton.mp visited] at asks
    exact absurd rfl asks
  fault failure failed := by
    cases failed
    refine ⟨List.prefix_refl place, ⟨token, name, args, here, refuses⟩, ?_⟩
    intro v visited asks
    rw [List.mem_singleton.mp visited] at asks
    exact absurd rfl asks

end InOrder

variable {mode : Mode} {subject : Record} {root : Expr}

theorem not_conditional (token : Token) {name : String} (args : List Expr) {callee : Callee}
    (named : Callee.named? name = some callee) (other : callee ≠ .conditional) :
    ¬(call token name args).isConditional = true := by
  rw [isConditional, named, beq_iff_eq, Option.some.injEq]
  exact other

/-- The arguments of a call are numbered from the left. -/
theorem children_call (token : Token) (name : String) (args : List Expr) (k : Nat) :
    (call token name args).children[0 + k]? = args[k]? := by
  rw [Nat.zero_add, children]

mutual

/-- A run by the rules keeps to the order of evaluation, wherever its tree stands. -/
theorem Runs.ordered {place : List Nat} {e : Expr} {visits : List Visit} {ending : Ending Value} :
    Runs mode subject place e visits ending → root.at? place = some e →
      InOrder root (place <+: ·) visits ending
  | .literal _ token l, _ => (InOrder.nil root _ l.value).leave_quietly
  | .field _ token name, _ => (InOrder.nil root _ _).leave_quietly
  | .member token name inside, here =>
      ((inside.ordered (at?_child here 0)).child.map _).leave_quietly
  | .unary token op inside, here =>
      ((inside.ordered (at?_child here 0)).child.map _).leave_quietly
  | .filter token relation nameToken name filters right, here => by
      -- the field is not gone to: the first child to be reached is the second
      have ordered := (right.ordered (at?_child here 1)).mono fun _ inside =>
        under_of_prefix inside (Nat.zero_le 1)
      exact (ordered.map _).leave_quietly
  | .leftFails token rhs operates left, here =>
      (left.ordered (at?_child here 0)).child.leave_quietly
  | .binary token operates left right, here => by
      have first := left.ordered (at?_child here 0)
      have second := (right.ordered (at?_child here 1)).child
      exact ((first.next here (fun _ => rfl) second).map _).leave_quietly
  | .refused place refuses, here => .refused here refuses
  | .builtin token named accepted inside, here => by
      have ordered := inside.ordered here (not_conditional token _ named nofun)
        (children_call token _ _)
      exact (ordered.map _).leave_quietly
  | .keyFails token named three inside, here => by
      have ordered := inside.ordered here (not_conditional token _ named nofun)
        (children_call token _ _)
      exact ordered.fails.leave_quietly
  | .lookup token named three inside looks, here => by
      have ordered := inside.ordered here (not_conditional token _ named nofun)
        (children_call token _ _)
      exact (ordered.map fun _ => _).leave fun _ => ⟨⟨token, _, _, here, named, three⟩, nofun⟩
  | .conditionFails token thenBranch elseBranch named decides, here =>
      (decides.ordered (at?_child here 0)).child.leave_quietly
  | .thenBranch token elseBranch named decides holds chosen, here => by
      have first := decides.ordered (at?_child here 0)
      have second := (chosen.ordered (at?_child here 1)).child
      exact (first.next here (fun _ => rfl) second).leave_quietly
  | .elseBranch token thenBranch named decides fails chosen, here => by
      have first := decides.ordered (at?_child here 0)
      have second := (chosen.ordered (at?_child here 2)).mono fun _ inside =>
        under_of_prefix inside (Nat.le_succ 1)
      exact (first.next here (fun _ => rfl) second).leave_quietly

theorem RunsAll.ordered {place : List Nat} {i : Nat} {args : List Expr} {visits : List Visit}
    {ending : Ending (List Value)} {parent : Expr} :
    RunsAll mode subject place i args visits ending → root.at? place = some parent →
      ¬parent.isConditional = true → (∀ k, parent.children[i + k]? = args[k]?) →
      InOrder root (Under place i) visits ending
  | .nil place i, _, _, _ => .nil root _ []
  | .fails rest first, here, eager, numbered => by
      have ordered := first.ordered ((at?_child here _).trans (numbered 0))
      exact ordered.child.fails
  | .cons first others, here, eager, numbered => by
      have ordered := first.ordered ((at?_child here _).trans (numbered 0))
      have later := others.ordered here eager fun k => by
        rw [Nat.succ_add_eq_add_succ]
        exact numbered (k + 1)
      exact (ordered.next here (fun lazy => absurd lazy eager) later).map _

end

/-- No node is evaluated twice. -/
theorem Runs.nodup {e : Expr} {visits : List Visit} {ending : Ending Value}
    (runs : Runs mode subject [] e visits ending) : (visits.map Visit.place).Nodup :=
  List.pairwise_map.mpr ((runs.ordered rfl).ordered.imp LeftBefore.ne)

/-- The run that a lookup leads to. -/
theorem exists_runs_of_transcript {σ : Type} (answer : Reference → StateM σ (Option Record)) (s : σ)
    (mode : Mode) (subject : Record) (e : Expr) :
    ∃ visits ending, Runs mode subject [] e visits ending ∧
      (answers visits).map Answered.question =
        ((e.evaluate mode subject).run.transcript answer s).1 ∧
      Ending.result ending = ((e.evaluate mode subject).run.transcript answer s).2 := by
  obtain ⟨answered, course, questions⟩ :=
    Dialogue.course_transcript answer s (e.evaluate mode subject).run
  obtain ⟨visits, ending, runs, rfl, result⟩ := (course_iff_runs []).mp course
  exact ⟨visits, ending, runs, questions, result⟩

end Expr

/-- Two lookups, whatever they remember of earlier calls, are asked the same up to and including the
first question that they answer differently. If the one answers as the other has, the runs have the
same questions and the same result. And no run comes to a node of the tree twice. -/
theorem runs_part_at_answers {σ τ : Type} (first : Reference → StateM σ (Option Record)) (s : σ)
    (second : Reference → StateM τ (Option Record)) (t : τ) (mode : Mode) (subject : Record)
    (e : Expr) :
    let one := (e.evaluate mode subject).run.transcript first s
    let other := (e.evaluate mode subject).run.transcript second t
    (∀ n, Dialogue.replies first s (one.1.take n) = Dialogue.replies second t (other.1.take n) →
        one.1.take (n + 1) = other.1.take (n + 1)) ∧
      (Dialogue.replies second t one.1 = Dialogue.replies first s one.1 → other = one) ∧
      (∃ visits ending, Expr.Runs mode subject [] e visits ending ∧
        (answers visits).map Answered.question = one.1 ∧ Ending.result ending = one.2) ∧
      ∀ visits ending, Expr.Runs mode subject [] e visits ending →
        (visits.map Visit.place).Nodup := by
  refine ⟨?_, ?_, ?_, ?_⟩
  · intro n alike
    exact Dialogue.transcript_take _ alike
  · intro alike
    exact Dialogue.transcript_eq_of_replies _ alike
  · exact Expr.exists_runs_of_transcript first s mode subject e
  · intro visits ending runs
    exact runs.nodup

end RecordExpr
