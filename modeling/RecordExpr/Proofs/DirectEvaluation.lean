import RecordExpr.Proofs.DecidableOutcomes
import RecordExpr.Proofs.Interleaving

set_option autoImplicit false

namespace RecordExpr

variable {ans : LookupKey → List Record}

/-- The sources that take part answer each request as the function says for its key. -/
def Action.Follows (ans : LookupKey → List Record) : Action → Prop
  | .resolve source settings r => ∀ received records,
      source received (Exchange.requestFor settings r) = .answer records ∨
        source received (Exchange.requestFor settings r) = .answerLater records →
      records = ans (LookupKey.ofReference r)
  | .answer t records => records = ans t.key
  | .drop _ => True
  | .clear => True

/-- The only record of the answer for a reference. -/
def onlyAnswer (ans : LookupKey → List Record) (r : Reference) : Option Record :=
  Datasets.only? (ans (LookupKey.ofReference r))

/-- The result of a text that is evaluated once, with every lookup answered at once. -/
def Environment.direct (env : Environment) (ans : LookupKey → List Record) (mode : Mode)
    (subject : Record) (text : String) : Except ExprError Value :=
  (Expr.evaluateText mode subject (env.settings.newlines.normalize text)).answerBy (onlyAnswer ans)

namespace Cache

/-- Each result is the only record of the answer for its key. -/
def Knows (ans : LookupKey → List Record) (c : Cache) : Prop :=
  ∀ k found, c.slot? k = some (.resolved found) → found = Datasets.only? (ans k)

theorem knows_consult {c : Cache} (knows : c.Knows ans) (k : LookupKey) :
    (c.consult k).2.Knows ans := by
  cases seen : c.slot? k with
  | some slot => rwa [consult_known (by rw [seen]; nofun)]
  | none =>
      intro other found resolved
      rw [slot?_consult seen] at resolved
      split at resolved
      · cases resolved
      · exact knows other found resolved

theorem knows_deliver {c : Cache} (knows : c.Knows ans) {t : Ticket} {records : List Record}
    (answer : records = ans t.key) : (c.deliver t records).Knows ans := by
  intro other found resolved
  rw [slot?_deliver] at resolved
  split at resolved
  · rename_i taken
    cases resolved
    rw [answer, taken.2]
  · exact knows other found resolved

theorem knows_abandon {c : Cache} (knows : c.Knows ans) (t : Ticket) :
    (c.abandon t).Knows ans := by
  intro other found resolved
  rw [slot?_abandon] at resolved
  split at resolved
  · cases resolved
  · exact knows other found resolved

theorem knows_clear (c : Cache) : c.clear.Knows ans := by
  intro k found resolved
  cases resolved

end Cache

namespace Exchange

theorem knows_resolve {e : Exchange} (knows : e.cache.Knows ans) {source : Source}
    {settings : Settings} {r : Reference}
    (follows : Action.Follows ans (.resolve source settings r)) :
    (resolve source settings r e).2.cache.Knows ans := by
  cases seen : e.cache.slot? (LookupKey.ofReference r) with
  | some slot =>
      cases slot with
      | resolved found => rwa [resolve_resolved seen]
      | pending fetch => rwa [resolve_pending seen]
  | none =>
      have asked := Cache.knows_consult knows (LookupKey.ofReference r)
      rw [resolve_unknown seen]
      cases treated : source e.received (requestFor settings r) with
      | answer records =>
          simp only [submit, treated]
          exact Cache.knows_deliver asked (follows _ _ (.inl treated))
      | answerLater records =>
          simp only [submit, treated]
          exact asked
      | drop =>
          simp only [submit, treated]
          exact Cache.knows_abandon asked _
      | hold =>
          simp only [submit, treated]
          exact asked

theorem knows_perform (e : Exchange) (a : Action) (follows : a.Follows ans)
    (knows : e.cache.Knows ans) : (e.perform a).cache.Knows ans := by
  cases a with
  | resolve source settings r => exact knows_resolve knows follows
  | answer t records =>
      rw [perform]
      split
      · exact Cache.knows_deliver knows follows
      · exact knows
  | drop t =>
      rw [perform]
      split
      · exact Cache.knows_abandon knows t
      · exact knows
  | clear => exact Cache.knows_clear _

theorem Reaches.knows {e after : Exchange} (reaches : Reaches (Action.Follows ans) e after)
    (knows : e.cache.Knows ans) : after.cache.Knows ans :=
  reaches.keeps knows_perform knows

/-- A lookup that has nothing to wait for gives what the key's answer says. -/
theorem found_of_resolve {e : Exchange} (knows : e.cache.Knows ans) {source : Source}
    {settings : Settings} (attach : settings.pendingPolicy = .attach) {r : Reference}
    (complete : (resolve source settings r e).1.waitFor = none) :
    (resolve source settings r e).1.found = onlyAnswer ans r := by
  cases seen : e.cache.slot? (LookupKey.ofReference r) with
  | some slot =>
      cases slot with
      | resolved found =>
          rw [resolve_resolved seen]
          exact knows _ _ seen
      | pending fetch =>
          rw [resolve_pending seen, if_pos attach] at complete
          cases complete
  | none =>
      rw [resolve_unknown seen] at complete
      cases complete

end Exchange

namespace Environment

variable {env : Environment} {others : Exchange → Exchange → Prop}

/-- The source answers all lookups of the environment as the function says for their keys. -/
def Follows (env : Environment) (ans : LookupKey → List Record) : Prop :=
  ∀ r, Action.Follows ans (.resolve env.source env.settings r)

theorem Answers.knows (follows : env.Follows ans)
    (acts : ∀ e after, others e after → e.cache.Knows ans → after.cache.Knows ans) {α : Type}
    {d : Dialogue α} {state after : Exchange × List FetchId} {result : α}
    (answers : env.Answers others d state result after) (knows : state.1.cache.Knows ans) :
    after.1.cache.Knows ans := by
  induction answers with
  | done => exact knows
  | @ask question next e between pending result after acted rest ih =>
      exact ih (Exchange.knows_resolve (acts _ _ acted knows) (follows question))

/-- A dialogue that adds nothing to wait for has met nothing but final answers. -/
theorem Answers.result_eq_direct (attach : env.settings.pendingPolicy = .attach)
    (follows : env.Follows ans)
    (acts : ∀ e after, others e after → e.cache.Knows ans → after.cache.Knows ans) {α : Type}
    {d : Dialogue α} {state after : Exchange × List FetchId} {result : α}
    (answers : env.Answers others d state result after) (knows : state.1.cache.Knows ans)
    (complete : after.2 = []) : result = d.answerBy (onlyAnswer ans) := by
  induction answers with
  | done => rfl
  | @ask question next e between pending result after acted rest ih =>
      have known := acts _ _ acted knows
      have none_added : (env.answer question (between, pending)).2.2 = [] :=
        List.prefix_nil.mp (complete ▸ rest.pending_prefix)
      have final : (Exchange.resolve env.source env.settings question between).1.waitFor = none :=
        Option.toList_eq_nil_iff.mp (List.append_eq_nil_iff.mp none_added).2
      have found : (env.answer question (between, pending)).1 = onlyAnswer ans question :=
        Exchange.found_of_resolve known attach final
      rw [ih (Exchange.knows_resolve known (follows question)) complete, found, Dialogue.answerBy]

theorem RoundAmong.knows (follows : env.Follows ans)
    (acts : ∀ e after, others e after → e.cache.Knows ans → after.cache.Knows ans) {mode : Mode}
    {subject : Record} {text : String} {e after : Exchange} {round : Round Value}
    (made : env.RoundAmong others mode subject text e round after) (knows : e.cache.Knows ans) :
    after.cache.Knows ans := by
  obtain ⟨result, pending, answers, -⟩ := made
  exact answers.knows follows acts knows

/-- A round that waits for nothing has the result of direct evaluation. -/
theorem RoundAmong.eq_direct (attach : env.settings.pendingPolicy = .attach)
    (follows : env.Follows ans)
    (acts : ∀ e after, others e after → e.cache.Knows ans → after.cache.Knows ans) {mode : Mode}
    {subject : Record} {text : String} {e after : Exchange} {round : Round Value}
    (made : env.RoundAmong others mode subject text e round after) (knows : e.cache.Knows ans)
    (complete : round.pending = []) (clean : round.problems = []) :
    (env.direct ans mode subject text).map mode.wrap = .ok round.value := by
  obtain ⟨result, pending, answers, rfl⟩ := made
  cases result with
  | error problem => cases clean
  | ok v =>
      have same := answers.result_eq_direct attach follows acts knows complete
      rw [direct, ← same]
      rfl

/-- Where every source answers by a fixed function of the key, an evaluation that settles without a
problem, at once or in the end, has the value of direct evaluation. Meanwhile others may look up,
answer, drop and clear in any order. -/
theorem settled_value_eq_direct (attach : env.settings.pendingPolicy = .attach)
    (follows : env.Follows ans) (mode : Mode) (subject : Record) (text : String)
    {e after : Exchange} (before : Exchange.Reaches (Action.Follows ans) {} e) {o : Outcome Value}
    (reports : Reports (Exchange.Reaches (Action.Follows ans))
      (env.RoundAmong (Exchange.Reaches (Action.Follows ans)) mode subject text)
      env.settings.maxRounds e o after)
    (settled : o.settled = true) (clean : o.problems = []) :
    (env.direct ans mode subject text).map mode.wrap = .ok o.value := by
  have acts : ∀ e after, Exchange.Reaches (Action.Follows ans) e after → e.cache.Knows ans →
      after.cache.Knows ans := fun _ _ => Exchange.Reaches.knows
  have begins : e.cache.Knows ans := before.knows (Cache.knows_clear {})
  obtain ⟨start, next, round, count, knows, made, complete, rfl⟩ :=
    reports.last_round acts (fun _ _ _ => RoundAmong.knows follows acts) settled begins
  exact made.eq_direct attach follows acts knows complete clean

/-- The answers of a source that knows one parcel by its id. -/
def parcelAnswers (k : LookupKey) : List Record :=
  if k = ⟨"parcels", "id", "42"⟩ then [Record.ofList [("area", .string "150")]] else []

def parcelEnvironment : Environment := ⟨Source.holding, {}⟩

theorem parcelEnvironment_follows : parcelEnvironment.Follows parcelAnswers := by
  intro r received records answered
  rcases answered with now | later
  · cases now
  · cases later

def parcelArea : String := "getFeature('parcels', 'id', '42').area"

/-- A batch looks the parcel up too before the only request is answered. -/
def answerParcel (_poll : Nat) (e : Exchange) : Exchange :=
  let (_, e) := (parcelEnvironment.batch .value .empty [("area", parcelArea)]).poll e
  e.perform (.answer ⟨⟨"parcels", "id", "42"⟩, 0⟩ (parcelAnswers ⟨"parcels", "id", "42"⟩))

theorem reaches_answerParcel (n : Nat) (e : Exchange) :
    Exchange.Reaches (Action.Follows parcelAnswers) e (answerParcel n e) := by
  have looked := Settling.reaches_poll
    (s := parcelEnvironment.batch .value .empty [("area", parcelArea)])
    (reaches_roundAll parcelEnvironment_follows .value .empty [("area", parcelArea)]) e
  have answered : Action.Follows parcelAnswers
      (.answer ⟨⟨"parcels", "id", "42"⟩, 0⟩ (parcelAnswers ⟨"parcels", "id", "42"⟩)) := rfl
  exact looked.trans (.single answered _)

theorem parcel_area_eq_direct :
    ((parcelEnvironment.single .value .empty parcelArea).drive answerParcel 1 {}).1 =
        .finished ⟨.string "150", 2, [], true⟩ ∧
      (parcelEnvironment.direct parcelAnswers .value .empty parcelArea).map Mode.value.wrap =
        .ok (.string "150") := by
  have finished : ((parcelEnvironment.single .value .empty parcelArea).drive answerParcel 1 {}).1 =
      .finished ⟨.string "150", 2, [], true⟩ := by
    decide +kernel
  have idle := Exchange.Reaches.refl (Action.Follows parcelAnswers)
  have reports := reports_of_drive idle (fun _ _ _ => .trans) rfl
    (parcelEnvironment.roundAmong_round idle .value .empty parcelArea) reaches_answerParcel
    (Prod.ext finished rfl)
  refine ⟨finished, ?_⟩
  exact settled_value_eq_direct rfl parcelEnvironment_follows .value .empty parcelArea (idle {})
    reports rfl rfl

end Environment

end RecordExpr
