import RecordExpr.Command.Options
import RecordExpr.Data
import RecordExpr.Settle.Settling

set_option autoImplicit false

namespace RecordExpr

/-- Why the command prints nothing. -/
inductive CommandError where
  | usage (e : UsageError)
  | noExpression
  | data (e : DataError)
deriving DecidableEq

namespace CommandError

/-- The message; mistakes in the arguments have one where a value was refused. -/
def message? : CommandError → Option String
  | usage (.invalidValue message) => some message
  | usage _ => none
  | noExpression => some "No expression given. Pass EXPR arguments or --batch NAME=EXPR"
  | data e => some e.message

end CommandError

/-- Goes on to the end, letting the answers arrive that each round has to wait for. -/
def Progress.settle {α : Type} (pass : StateM Exchange (Round α)) (limit : Nat)
    (p : Progress α) (e : Exchange) : Outcome α × Exchange :=
  if p.round.pending.isEmpty then (p.outcome, e)
  else if _h : limit ≤ p.rounds then (p.outOfRounds, e)
  else
    let (round, e) := pass (e.awaitAll p.round.pending)
    Progress.settle pass limit ⟨round, p.rounds + 1⟩ e
termination_by limit - p.rounds

/-- The outcome for a source that answers everything. -/
def Settling.settle {α : Type} (s : Settling α) : StateM Exchange (Outcome α) := fun e =>
  let (p, e) := s.first e
  p.settle s.pass s.limit e

namespace Command

/-- The settings with what the options say about them. At least one round is run. -/
def settings (o : Options) (base : Settings) : Settings :=
  { crs := o.crs.getD base.crs
    pageSize := o.pageSize <|> base.pageSize
    pendingPolicy := o.pendingPolicy.getD base.pendingPolicy
    newlines := o.newlines.getD base.newlines
    maxRounds := (o.maxRounds.map (max 1)).getD base.maxRounds }

/-- What a file holds, read as data. -/
private def load {α : Type} (file? : String → Option String)
    (read : String → Except DataError α) (default : α) : Option String → Except CommandError α
  | none => .ok default
  | some path =>
    match file? path with
    | none => .error (.data (.unreadable path))
    | some text => (read text).mapError .data

private def resultMembers (rounds : Nat) (settled : Bool) : List (String × Json) :=
  [("rounds", .integer rounds), ("settled", .bool settled)]

/-- What is printed for a result: a line, and the problems that are reported beside it. -/
structure Report where
  line : String
  problems : List Problem

/-- The report of one expression. -/
def reportOne (text : String) (o : Outcome Value) : Report :=
  ⟨(Json.object
    (("expression", .string text) :: ("value", o.value.toJson) ::
      resultMembers o.rounds o.settled)).text, o.problems⟩

/-- The report of the expressions with names. -/
def reportAll (o : Outcome (List (String × Value))) : Report :=
  ⟨(Json.object
    (("values", .object (attributesToJson o.value)) :: resultMembers o.rounds o.settled)).text,
    o.problems⟩

/-- The reports of expressions, one after the other. -/
def exprReports (env : Environment) (mode : Mode) (subject : Record) :
    List String → StateM Exchange (List Report)
  | [] => return []
  | text :: rest => do
    let outcome ← (env.single mode subject text).settle
    let reports ← exprReports env mode subject rest
    return reportOne text outcome :: reports

/-- The reports that the options ask for: each expression in order, then those with names, all with
one cache. -/
def reports (env : Environment) (o : Options) (subject : Record) :
    StateM Exchange (List Report) := do
  let mode : Mode := if o.filter then .filter else .value
  let first ← exprReports env mode subject o.exprs
  if o.batch.isEmpty then return first
  let outcome ← (env.batch mode subject o.batch).settle
  return first ++ [reportAll outcome]

/-- Runs the command. -/
def run (environment file? : String → Option String) (args : List String) :
    Except CommandError (List Report) := do
  let o ← (Options.read args).mapError .usage
  if o.exprs.isEmpty && o.batch.isEmpty then throw .noExpression
  let datasets ← load file? Datasets.read {} o.data
  let subject ← load file? Record.read Record.empty o.record
  let env : Environment :=
    ⟨Source.deferred datasets 0, settings o (Settings.ofVariables environment)⟩
  return (reports env o subject {}).1

end Command

end RecordExpr
