import RecordExpr.Proofs.Conclusion
import RecordExpr.Proofs.DecidableOutcomes
import RecordExpr.Proofs.DependencyDepth

set_option autoImplicit false

namespace RecordExpr

namespace Environment

variable {env : Environment} {others : Exchange → Exchange → Prop} {α : Type} {d : Dialogue α}
  {state after : Exchange × List FetchId} {result : α} {before next : Cache}

/-- The source drops no request of the environment. -/
def Serves (env : Environment) : Prop := ∀ r, Action.Serves (.resolve env.source env.settings r)

theorem Answers.grows (serves : env.Serves)
    (acts : ∀ e after, others e after → e.cache.Grows after.cache)
    (answers : env.Answers others d state result after) : state.1.cache.Grows after.1.cache := by
  induction answers with
  | done result state => exact .refl state.1.cache
  | @ask question next e between pending result after acted rest ih =>
      have asked : between.cache.Grows (env.answer question (between, pending)).2.1.cache :=
        Exchange.grows_resolve (serves question)
      exact (acts e between acted).trans (asked.trans ih)

/-- A dialogue goes through a pass: from a state of the cache before it to any state after it in
which no key waits any more for what the dialogue has noted. -/
theorem Answers.pass (attach : env.settings.pendingPolicy = .attach) (serves : env.Serves)
    (acts : ∀ e after, others e after → e.cache.Grows after.cache)
    (answers : env.Answers others d state result after) (begins : before.Grows state.1.cache)
    (goes_on : after.1.cache.Grows next)
    (finished : ∀ fetch ∈ after.2, ∀ k, next.slot? k ≠ some (.pending fetch)) :
    Dialogue.Pass before next d result := by
  induction answers with
  | done result state => exact .done result
  | @ask question more e between pending result after acted rest ih =>
      have asked : between.cache.Grows (env.answer question (between, pending)).2.1.cache :=
        Exchange.grows_resolve (serves question)
      have grown : before.Grows between.cache := begins.trans (acts e between acted)
      have remains : (env.answer question (between, pending)).2.1.cache.Grows next :=
        (rest.grows serves acts).trans goes_on
      have onward := ih (grown.trans asked) goes_on finished
      rcases Exchange.resolve_attached attach (serves question) between with
        ⟨found, known, resolved⟩ | ⟨fetch, unknown, handed, waits⟩
      · -- the key has its result already
        have given : (env.answer question (between, pending)).1 = found := by
          simp only [answer, resolved]
        refine .ask ?_ (remains.resolved (asked.resolved known)) onward
        intro earlier knownEarlier
        have same := grown.resolved knownEarlier
        rw [known] at same
        rw [given]
        exact Slot.resolved.inj (Option.some.inj same)
      · -- the key waits for a fetch, which is noted and so is over in the end
        have noted : fetch ∈ after.2 := by
          apply rest.pending_prefix.subset
          simp only [answer, handed, Option.toList_some, List.mem_append, List.mem_singleton,
            or_true]
        have resolvedLater : ∃ found,
            next.slot? (LookupKey.ofReference question) = some (.resolved found) := by
          rcases waits with waiting | ⟨found, known⟩
          · rcases remains.pending waiting with still | known
            · exact absurd still (finished fetch noted _)
            · exact known
          · exact ⟨found, remains.resolved known⟩
        obtain ⟨found, knownLater⟩ := resolvedLater
        refine .ask ?_ knownLater onward
        intro earlier knownEarlier
        exact absurd (grown.resolved knownEarlier) (unknown earlier)

/-- A dialogue for which the cache has everything notes nothing to wait for. -/
theorem Answers.of_final (acts : ∀ e after, others e after → e.cache.Grows after.cache)
    {known : α} (final : Dialogue.Final before d known) (begins : before.Grows state.1.cache)
    (answers : env.Answers others d state result after) :
    result = known ∧ after.2 = state.2 := by
  induction answers with
  | done result state =>
      cases final
      exact ⟨rfl, rfl⟩
  | @ask question more e between pending result after acted rest ih =>
      cases final with
      | @ask _ _ found _ resolved final =>
          have grown : before.Grows between.cache := begins.trans (acts e between acted)
          have answered :
              env.answer question (between, pending) = (found, (between, pending)) := by
            simp only [answer, Exchange.resolve_resolved (grown.resolved resolved),
              Option.toList_none, List.append_nil]
          rw [answered] at ih
          exact ih final grown

section Rounds

variable {mode : Mode} {subject : Record} {text : String} {tree : Expr} {start next : Exchange}
  {round : Round Value}

/-- A round that has something to wait for has not failed, so it is one more pass through the
expression, up to any later state of the cache in which the wait is over. -/
theorem RoundAmong.passed (attach : env.settings.pendingPolicy = .attach) (serves : env.Serves)
    (acts : ∀ e after, others e after → e.cache.Grows after.cache)
    (parsed : Expr.ofText (env.settings.newlines.normalize text) = .ok tree) {n : Nat}
    (earlier : Evaluation.Passed (tree.evaluate mode subject) n start.cache)
    (made : env.RoundAmong others mode subject text start round next)
    (waits : round.pending ≠ []) {later : Cache} (goes_on : next.cache.Grows later)
    (finished : ∀ fetch ∈ round.pending, ∀ k, later.slot? k ≠ some (.pending fetch)) :
    Evaluation.Passed (tree.evaluate mode subject) (n + 1) later := by
  obtain ⟨result, pending, answers, rfl⟩ := made
  cases result with
  | error problem => exact absurd rfl waits
  | ok v =>
      have grown : start.cache.Grows later := (answers.grows serves acts).trans goes_on
      have pass := answers.pass attach serves acts (.refl start.cache) goes_on finished
      rw [Expr.evaluateText_of_parsed mode subject parsed] at pass
      obtain ⟨evaluated, through, ends⟩ := pass.of_bind
      cases evaluated with
      | error e => cases ends
      | ok w => exact earlier.next grown through

/-- When the cache has all that the expression asks for, a round waits for nothing. -/
theorem RoundAmong.complete (acts : ∀ e after, others e after → e.cache.Grows after.cache)
    (parsed : Expr.ofText (env.settings.newlines.normalize text) = .ok tree)
    (settled : Evaluation.Settled start.cache (tree.evaluate mode subject))
    (made : env.RoundAmong others mode subject text start round next) : round.pending = [] := by
  obtain ⟨result, pending, answers, rfl⟩ := made
  obtain ⟨evaluated, final⟩ := settled
  have finalText := final.bind (f := fun result => .done (result.mapError fun e =>
    (⟨.eval e, env.settings.newlines.normalize text⟩ : ExprError))) (.done _)
  rw [← Expr.evaluateText_of_parsed mode subject parsed] at finalText
  obtain ⟨-, nothing⟩ := answers.of_final acts finalText (.refl start.cache)
  cases result with
  | ok v => exact nothing
  | error problem => rfl

end Rounds

/-- What others may do while an expression settles: look up, with sources that do not drop what they
are asked, and answer. -/
abbrev ServingOthers : Exchange → Exchange → Prop := Exchange.Reaches Action.Serves

/-- The rounds that are left after `n` of them, where each round gets one further and none that has
got as far as `bound` waits for anything: the result settles with the next round at `bound`. The
induction is on what is left up to `bound`. -/
theorem concludes_of_further {makes : Exchange → Round α → Exchange → Prop} {limit bound : Nat}
    {P : Nat → Cache → Prop}
    (records : ∀ e round next, makes e round next → e.Recorded [] → next.Recorded round.pending)
    (further : ∀ n e round next later, P n e.cache → makes e round next → round.pending ≠ [] →
      next.cache.Grows later →
      (∀ fetch ∈ round.pending, ∀ k, later.slot? k ≠ some (.pending fetch)) → P (n + 1) later)
    (complete : ∀ e round next, P bound e.cache → makes e round next → round.pending = [])
    (room : bound < limit) (left : Nat) :
    ∀ {n : Nat} {start next : Exchange} {round : Round α}, n + left = bound → P n start.cache →
      start.Recorded [] → makes start round next →
      Concludes ServingOthers makes limit (fun o => o.settled = true ∧ o.rounds ≤ bound + 1)
        ⟨round, n + 1⟩ next := by
  induction left with
  | zero =>
      intro n start next round count got recorded made
      have nothing := complete start round next (count ▸ got) made
      refine .settled nothing ⟨List.isEmpty_iff.mpr nothing, ?_⟩
      exact Nat.succ_le_succ (Nat.le_of_eq count)
  | succ left ih =>
      intro n start next round count got recorded made
      have below : n + 1 ≤ bound := by omega
      by_cases nothing : round.pending = []
      · refine .settled nothing ⟨List.isEmpty_iff.mpr nothing, ?_⟩
        exact Nat.le_succ_of_le below
      · have waitsFor : next.Recorded round.pending := records start round next made recorded
        apply Concludes.goesOn nothing (Nat.lt_of_le_of_lt below room)
        · intro fetch member
          rcases waitsFor.held member with ready | ⟨t, outstanding, finishes⟩
          · exact .inl ready
          · exact .inr ⟨t, outstanding, fun between acted gone => finishes acted gone⟩
        · intro between again later acted ready madeAgain
          have recordedLater : between.Recorded round.pending := acted.recorded waitsFor
          have gotMore := further n start round next between.cache got made nothing acted.grows
            fun fetch member => recordedLater.not_pending_of_ready (ready fetch member)
          have fresh : between.Recorded [] := by
            obtain ⟨c, faithful, -⟩ := recordedLater
            exact ⟨c, faithful, nofun⟩
          exact ih (show n + 1 + left = bound by omega) gotMore fresh madeAgain

/-- The rounds that are left to an expression after `n` of them, none of which has failed: each of
them is one pass more, and after as many passes as the expression is deep nothing is left to wait
for. -/
theorem concludes_of_passed (attach : env.settings.pendingPolicy = .attach) (serves : env.Serves)
    {mode : Mode} {subject : Record} {text : String} {tree : Expr}
    (parsed : Expr.ofText (env.settings.newlines.normalize text) = .ok tree)
    (room : tree.depth < env.settings.maxRounds) (left : Nat) :
    ∀ {n : Nat} {start next : Exchange} {round : Round Value}, n + left = tree.depth →
      Evaluation.Passed (tree.evaluate mode subject) n start.cache → start.Recorded [] →
      env.RoundAmong ServingOthers mode subject text start round next →
      Concludes ServingOthers (env.RoundAmong ServingOthers mode subject text)
        env.settings.maxRounds (fun o => o.settled = true ∧ o.rounds ≤ tree.depth + 1)
        ⟨round, n + 1⟩ next := by
  have acts : ∀ e after, ServingOthers e after → e.cache.Grows after.cache :=
    fun _ _ acted => acted.grows
  intro n start next round
  refine concludes_of_further (P := Evaluation.Passed (tree.evaluate mode subject)) ?_ ?_ ?_ room
    left
  · intro e round next made recorded
    exact made.recorded (fun acted => acted.recorded) recorded
  · intro n e round next later passed made waits goes_on finished
    exact made.passed attach serves acts parsed passed waits goes_on finished
  · intro e round next passed made
    have settled := Expr.finalAfter_depth mode subject tree e.cache passed
    exact made.complete acts parsed settled

/-- An expression whose lookups are `depth` deep settles after at most `depth + 1` rounds, from any
exchange on that actions lead to, with a source that does not drop what it is asked, if that many
rounds are allowed. Others may look up and answer meanwhile, between any two lookups of a round too;
and where the result is polled again and again, and the source uses each of its tickets at some
time, it has ended so after some poll. -/
theorem settles_within_depth (attach : env.settings.pendingPolicy = .attach) (serves : env.Serves)
    (mode : Mode) (subject : Record) (text : String) {depth : Nat}
    (parsed : (Expr.ofText (env.settings.newlines.normalize text)).map Expr.depth = .ok depth)
    (room : depth < env.settings.maxRounds) (before : List Action) :
    let e := (History.ofActions before).exchange
    let good := fun o : Outcome Value => o.settled = true ∧ o.rounds ≤ depth + 1
    (∀ round next, env.RoundAmong ServingOthers mode subject text e round next →
      Concludes ServingOthers (env.RoundAmong ServingOthers mode subject text)
        env.settings.maxRounds good ⟨round, 1⟩ next) ∧
    ∀ wait, (∀ n x, ServingOthers x (wait n x)) →
      (env.single mode subject text).Served wait e →
      ∃ n o after, (env.single mode subject text).drive wait n e = (.finished o, after) ∧
        good o := by
  intro e good
  cases known : Expr.ofText (env.settings.newlines.normalize text) with
  | error problem =>
      rw [known] at parsed
      cases parsed
  | ok tree =>
      rw [known] at parsed
      obtain rfl : tree.depth = depth := Except.ok.inj parsed
      have concludes : ∀ round next,
          env.RoundAmong ServingOthers mode subject text e round next →
          Concludes ServingOthers (env.RoundAmong ServingOthers mode subject text)
            env.settings.maxRounds good ⟨round, 1⟩ next := by
        intro round next made
        exact concludes_of_passed attach serves known room tree.depth (Nat.zero_add _) (.none _)
          (Exchange.recorded_ofActions before) made
      refine ⟨concludes, ?_⟩
      intro wait waits served
      have idle := Exchange.Reaches.refl Action.Serves
      have made := env.roundAmong_round idle mode subject text
      exact (concludes _ _ (made e)).finishes (fun _ _ _ => .trans) idle
        (fun _ _ _ acted => acted.isReady) made waits served (j := 0) (idle _) rfl

/-- Exactly as many rounds are allowed as a chain of two lookups needs. -/
def chainEnvironment : Environment := ⟨Source.holding, { maxRounds := 3 }⟩

theorem chainEnvironment_serves : chainEnvironment.Serves := by
  intro r received
  exact Treatment.noConfusion

def ownedArea : String := "getFeature('parcels', 'id', getFeature('owners', 'id', '7').parcel).area"

def ownedAnswers (k : LookupKey) : List Record :=
  if k = ⟨"owners", "id", "7"⟩ then [Record.ofList [("parcel", .string "42")]]
  else if k = ⟨"parcels", "id", "42"⟩ then [Record.ofList [("area", .string "150")]]
  else []

/-- Answers everything that was asked since the last poll. -/
def answerAll (_poll : Nat) (e : Exchange) : Exchange :=
  e.useAll (e.outstanding.map fun t => (t, some (ownedAnswers t.key)))

theorem answerAll_serves (n : Nat) (e : Exchange) : ServingOthers e (answerAll n e) := by
  refine ⟨_, ?_, rfl⟩
  intro a member
  obtain ⟨u, used, rfl⟩ := List.mem_map.mp member
  obtain ⟨t, -, rfl⟩ := List.mem_map.mp used
  exact trivial

/-- Whatever is asked, every ticket is used after the next poll. -/
theorem served_answerAll {α : Type} (s : Settling α) : s.Served answerAll {} := by
  intro n t _
  refine ⟨n, Nat.le_refl n, ?_⟩
  rw [answerAll, Exchange.outstanding_useAll, List.mem_filter]
  rintro ⟨outstanding, unused⟩
  rw [decide_eq_true_eq, List.map_map] at unused
  exact unused (List.mem_map.mpr ⟨t, outstanding, rfl⟩)

theorem owned_area_settles :
    (Expr.ofText (chainEnvironment.settings.newlines.normalize ownedArea)).map Expr.depth = .ok 2 ∧
      2 < chainEnvironment.settings.maxRounds ∧
      ((chainEnvironment.single .value .empty ownedArea).drive answerAll 2 {}).1 =
        .finished ⟨.string "150", 3, [], true⟩ ∧
      ∃ n o after,
        (chainEnvironment.single .value .empty ownedArea).drive answerAll n {} =
          (.finished o, after) ∧ o.settled = true ∧ o.rounds ≤ 3 := by
  have parsed : (Expr.ofText (chainEnvironment.settings.newlines.normalize ownedArea)).map
      Expr.depth = .ok 2 := by
    decide +kernel
  have room : 2 < chainEnvironment.settings.maxRounds := by decide
  have ends := settles_within_depth rfl chainEnvironment_serves .value .empty ownedArea parsed
    room []
  refine ⟨parsed, room, ?_, ends.2 answerAll answerAll_serves (served_answerAll _)⟩
  decide +kernel

end Environment

end RecordExpr
