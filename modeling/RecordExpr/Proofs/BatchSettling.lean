import RecordExpr.Proofs.DirectBatch
import RecordExpr.Proofs.LookupCount
import RecordExpr.Proofs.SettlingDepth

set_option autoImplicit false

namespace RecordExpr

namespace Environment

variable {env : Environment} {others : Exchange → Exchange → Prop} {mode : Mode} {subject : Record}
  {exprs : List (String × String)}

/-- The number of lookups of an expression; of one that cannot be read there are none. -/
def lookupsOf (env : Environment) (text : String) : Nat :=
  match Expr.ofText (env.settings.newlines.normalize text) with
  | .ok tree => tree.lookups
  | .error _ => 0

/-- The largest number of lookups of one of these expressions. Their depth bounds no batch: an
expression that has failed may go on, with a result that it has noted before it failed, to lookups
that no round has come to yet. -/
def mostLookups (env : Environment) (exprs : List (String × String)) : Nat :=
  exprs.foldr (fun expr most => max (env.lookupsOf expr.2) most) 0

theorem lookupsOf_le_most {expr : String × String} (member : expr ∈ exprs) :
    env.lookupsOf expr.2 ≤ env.mostLookups exprs := by
  induction exprs with
  | nil => cases member
  | cons first rest ih =>
      rcases List.mem_cons.mp member with rfl | later
      · exact Nat.le_max_left _ _
      · exact Nat.le_trans (ih later) (Nat.le_max_right _ _)

/-- The dialogue of one of the expressions. -/
def dialogue (env : Environment) (mode : Mode) (subject : Record) (text : String) :
    Dialogue (Except ExprError Value) :=
  Expr.evaluateText mode subject (env.settings.newlines.normalize text)

theorem asksAtMost_dialogue (env : Environment) (mode : Mode) (subject : Record) (text : String) :
    Dialogue.AsksAtMost (env.lookupsOf text) (env.dialogue mode subject text) := by
  unfold lookupsOf dialogue
  cases parsed : Expr.ofText (env.settings.newlines.normalize text) with
  | error problem =>
      rw [Expr.evaluateText_of_unparsed parsed]
      exact .done 0 _
  | ok tree =>
      rw [Expr.evaluateText_of_parsed mode subject parsed]
      have asks : Dialogue.AsksAtMost tree.lookups (tree.evaluate mode subject).run :=
        Expr.asksAtMost_lookups mode subject tree
      exact asks.bind fun result => .done 0 _

/-- The cache has results for the first `n` questions of each expression, or up to its end. -/
def KnownAll (env : Environment) (mode : Mode) (subject : Record) (exprs : List (String × String))
    (n : Nat) (c : Cache) : Prop :=
  ∀ expr ∈ exprs, Dialogue.Known c n (env.dialogue mode subject expr.2)

variable {round last : Round (List (String × Value))} {e after : Exchange} {before later : Cache}
  {n : Nat}

theorem AnswersAll.grows (serves : env.Serves)
    (acts : ∀ e after, others e after → e.cache.Grows after.cache)
    (answers : env.AnswersAll others mode subject exprs round e last after) :
    e.cache.Grows after.cache := by
  induction answers with
  | done round e => exact .refl e.cache
  | next evaluated _ ih => exact (evaluated.grows serves acts).trans ih

/-- A round is a pass through each of its expressions. Whatever one of them has noted is waited for,
whether it fails or not. -/
theorem AnswersAll.known (attach : env.settings.pendingPolicy = .attach) (serves : env.Serves)
    (acts : ∀ e after, others e after → e.cache.Grows after.cache)
    (answers : env.AnswersAll others mode subject exprs round e last after)
    (begins : before.Grows e.cache) (goes_on : after.cache.Grows later)
    (finished : ∀ fetch ∈ last.pending, ∀ k, later.slot? k ≠ some (.pending fetch))
    (known : env.KnownAll mode subject exprs n before) :
    env.KnownAll mode subject exprs (n + 1) later := by
  induction answers with
  | done => exact nofun
  | @next name text rest round last e between after pending result evaluated others_follow ih =>
      obtain ⟨here, others_known⟩ := List.forall_mem_cons.mp known
      have reached : before.Grows between.cache := begins.trans (evaluated.grows serves acts)
      have remains : between.cache.Grows later :=
        (others_follow.grows serves acts).trans goes_on
      have noted : pending <+: last.pending := by
        have follows := others_follow.pending_prefix
        rwa [pending_addResult] at follows
      have pass := evaluated.pass attach serves acts begins remains
        fun fetch member => finished fetch (noted.subset member)
      exact List.forall_mem_cons.mpr
        ⟨here.pass pass (reached.trans remains), ih reached goes_on finished others_known⟩

/-- Where the cache has all that the expressions ask for, nothing is noted to wait for. -/
theorem AnswersAll.complete (serves : env.Serves)
    (acts : ∀ e after, others e after → e.cache.Grows after.cache)
    (answers : env.AnswersAll others mode subject exprs round e last after)
    (begins : before.Grows e.cache)
    (final : ∀ expr ∈ exprs, ∃ result, Dialogue.Final before (env.dialogue mode subject expr.2)
      result) : last.pending = round.pending := by
  induction answers with
  | done => rfl
  | @next name text rest round last e between after pending result evaluated others_follow ih =>
      obtain ⟨⟨known, here⟩, others_final⟩ := List.forall_mem_cons.mp final
      have nothing : pending = round.pending := (evaluated.of_final acts here begins).2
      have follows := ih (begins.trans (evaluated.grows serves acts)) others_final
      rw [pending_addResult] at follows
      exact follows.trans nothing

/-- A batch settles after at most one round more than its longest expression has lookups, from any
exchange on that actions lead to, with a source that does not drop what it is asked, if that many
rounds are allowed. Others may look up and answer meanwhile, between any two lookups of a round too;
and where the result is polled again and again, and the source uses each of its tickets at some
time, it has ended so after some poll. -/
theorem batch_settles_within_lookups (attach : env.settings.pendingPolicy = .attach)
    (serves : env.Serves) (mode : Mode) (subject : Record) (exprs : List (String × String))
    (room : env.mostLookups exprs < env.settings.maxRounds) (before : List Action) :
    let e := (History.ofActions before).exchange
    let good := fun o : Outcome (List (String × Value)) =>
      o.settled = true ∧ o.rounds ≤ env.mostLookups exprs + 1
    (∀ round next, env.RoundAllAmong ServingOthers mode subject exprs e round next →
      Concludes ServingOthers (env.RoundAllAmong ServingOthers mode subject exprs)
        env.settings.maxRounds good ⟨round, 1⟩ next) ∧
    ∀ wait, (∀ n x, ServingOthers x (wait n x)) →
      (env.batch mode subject exprs).Served wait e →
      ∃ n o after, (env.batch mode subject exprs).drive wait n e = (.finished o, after) ∧
        good o := by
  intro e good
  have acts : ∀ e after, ServingOthers e after → e.cache.Grows after.cache :=
    fun _ _ acted => acted.grows
  have concludes : ∀ round next, env.RoundAllAmong ServingOthers mode subject exprs e round next →
      Concludes ServingOthers (env.RoundAllAmong ServingOthers mode subject exprs)
        env.settings.maxRounds good ⟨round, 1⟩ next := by
    intro round next made
    refine concludes_of_further (P := env.KnownAll mode subject exprs) ?_ ?_ ?_ room
      (env.mostLookups exprs) (Nat.zero_add _) (fun _ _ => .start _)
      (Exchange.recorded_ofActions before) made
    · intro e round next made recorded
      exact made.recorded (fun acted => acted.recorded) recorded
    · intro n e round next later known made _ goes_on finished
      exact made.known attach serves acts (.refl e.cache) goes_on finished known
    · intro e round next known made
      apply made.complete serves acts (.refl e.cache)
      intro expr member
      have asks := (env.asksAtMost_dialogue mode subject expr.2).mono (lookupsOf_le_most member)
      exact (known expr member).final asks
  refine ⟨concludes, ?_⟩
  intro wait waits served
  have idle := Exchange.Reaches.refl Action.Serves
  have made := env.roundAllAmong_round idle mode subject exprs
  exact (concludes _ _ (made e)).finishes (fun _ _ _ => .trans) idle
    (fun _ _ _ acted => acted.isReady) made waits served (j := 0) (idle _) rfl

/-- Each condition lets the first expression go on to the next lookup, past a call that fails; the
other two have no value at all. -/
def sharedExprs : List (String × String) :=
  [("shared", "if(getFeature('owners', 'id', '7').parcel, 'a', zones()) = " ++
      "if(getFeature('parcels', 'id', '42').area, 'a', zones())"),
    ("zone", "zones()"), ("area", "area +")]

/-- What is reported for an operator without its right operand. -/
def missingOperand : Problem :=
  .expression ⟨.parse (.unexpectedEnd ⟨.endOfText, ⟨⟨1, 7⟩, ⟨1, 7⟩⟩⟩), "area +"⟩

theorem shared_settles :
    chainEnvironment.mostLookups sharedExprs = 2 ∧ 2 < chainEnvironment.settings.maxRounds ∧
      ((chainEnvironment.batch .value .empty sharedExprs).drive answerAll 2 {}).1 =
        .finished ⟨[("shared", .bool true)], 3, [unknownCall "zones" 6, missingOperand], true⟩ ∧
      ∃ n o after,
        (chainEnvironment.batch .value .empty sharedExprs).drive answerAll n {} =
          (.finished o, after) ∧ o.settled = true ∧ o.rounds ≤ 3 := by
  have most : chainEnvironment.mostLookups sharedExprs = 2 := by
    decide +kernel
  have room : 2 < chainEnvironment.settings.maxRounds := by decide
  have ends := batch_settles_within_lookups rfl chainEnvironment_serves .value .empty sharedExprs
    (most.symm ▸ room) []
  rw [most] at ends
  refine ⟨most, room, ?_, ends.2 answerAll answerAll_serves (served_answerAll _)⟩
  decide +kernel

end Environment

end RecordExpr
