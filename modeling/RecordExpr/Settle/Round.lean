import RecordExpr.Fault
import RecordExpr.Fetch.Exchange

set_option autoImplicit false

namespace RecordExpr

namespace Mode

/-- In filter mode a result is the only entry of an array. -/
def wrap : Mode → Value → Value
  | value, v => v
  | filter, v => .array [v]

/-- The result of an expression that has none. -/
def neutral : Mode → Value
  | value => .null
  | filter => .array []

end Mode

/-- What is reported along with a result. -/
inductive Problem where
  | expression (e : ExprError)
  | roundLimit (rounds : Nat)
deriving DecidableEq

namespace Problem

def message : Problem → String
  | expression e => e.message
  | roundLimit rounds => "Evaluation did not settle within " ++ toString rounds ++ " rounds"

def help? : Problem → Option String
  | expression e => e.help?
  | roundLimit _ =>
    some ("The expression keeps discovering new dependencies. Raise \x60max_rounds\x60 or check " ++
      "for lookups whose key changes every round.")

end Problem

/-- What is made of expressions with what the cache knows. Lookups that are under way count as
missing, and `pending` holds the fetches that had to be waited for. -/
structure Round (α : Type) where
  value : α
  pending : List FetchId
  problems : List Problem

/-- The round of one expression that had to wait for these fetches. An error is final, whatever was
still under way. -/
def Round.ofResult (mode : Mode) (pending : List FetchId) : Except ExprError Value → Round Value
  | .ok v => ⟨mode.wrap v, pending, []⟩
  | .error problem => ⟨mode.neutral, [], [.expression problem]⟩

/-- Where evaluations take place: the source they ask and the settings they go by. -/
structure Environment where
  source : Source
  settings : Settings

namespace Environment

/-- Answers a question from the cache and notes what to wait for. -/
def answer (env : Environment) (r : Reference) : StateM (Exchange × List FetchId) (Option Record) :=
  fun (e, pending) =>
    let (resolution, e) := Exchange.resolve env.source env.settings r e
    (resolution.found, (e, pending ++ resolution.waitFor.toList))

/-- Evaluates a text once. -/
def evaluate (env : Environment) (mode : Mode) (subject : Record) (text : String) :
    StateM (Exchange × List FetchId) (Except ExprError Value) :=
  (Expr.evaluateText mode subject (env.settings.newlines.normalize text)).run env.answer

/-- A round of one expression. -/
def round (env : Environment) (mode : Mode) (subject : Record) (text : String) :
    StateM Exchange (Round Value) := fun e =>
  let (result, (e, pending)) := env.evaluate mode subject text (e, [])
  (Round.ofResult mode pending result, e)

/-- Adds the result of one of several expressions: a value under its name, or a problem. -/
def addResult (mode : Mode) (name : String) (round : Round (List (String × Value))) :
    Except ExprError Value → Round (List (String × Value))
  | .ok v => { round with value := ByName.place name (mode.wrap v) round.value }
  | .error problem => { round with problems := round.problems ++ [.expression problem] }

/-- A round of several expressions, each with its name, one after the other. What any of them waits
for, all of them wait for, also if that one failed. -/
def roundAll (env : Environment) (mode : Mode) (subject : Record) (exprs : List (String × String)) :
    StateM Exchange (Round (List (String × Value))) := fun e =>
  exprs.foldl
    (fun (round, e) (name, text) =>
      let (result, (e, pending)) := env.evaluate mode subject text (e, round.pending)
      (addResult mode name { round with pending := pending } result, e))
    (⟨[], [], []⟩, e)

end Environment

end RecordExpr
