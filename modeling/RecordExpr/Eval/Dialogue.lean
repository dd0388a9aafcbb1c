import RecordExpr.Value.Basic

set_option autoImplicit false

namespace RecordExpr

/-- Asks for the record of `dataset` whose attribute has this value. -/
structure Reference where
  dataset : String
  attributeName : String
  value : Value

/-- An evaluation that needs records does not fetch them: it has finished, or it asks for one and
can go on with each possible answer. -/
inductive Dialogue (α : Type) where
  | done (result : α)
  | ask (question : Reference) (next : Option Record → Dialogue α)

namespace Dialogue

/-- Goes on with `f` where the dialogue ends. -/
def bind {α β : Type} (d : Dialogue α) (f : α → Dialogue β) : Dialogue β :=
  match d with
  | done result => f result
  | ask question next => ask question fun answer => (next answer).bind f

instance : Monad Dialogue where
  pure := done
  bind := bind

/-- The dialogue with every question answered from a state that may change with each. -/
def run {σ α : Type} (answer : Reference → StateM σ (Option Record)) : Dialogue α → StateM σ α
  | done result => pure result
  | ask question next => do
    let given ← answer question
    run answer (next given)

@[simp] theorem run_done {σ α : Type} (answer : Reference → StateM σ (Option Record)) (a : α) :
    run answer (done a) = pure a := rfl

@[simp] theorem run_ask {σ α : Type} (answer : Reference → StateM σ (Option Record))
    (question : Reference) (next : Option Record → Dialogue α) (s : σ) :
    run answer (ask question next) s =
      run answer (next (answer question s).1) (answer question s).2 := rfl

theorem run_bind {σ α β : Type} (answer : Reference → StateM σ (Option Record)) (d : Dialogue α)
    (f : α → Dialogue β) (s : σ) :
    run answer (d.bind f) s = run answer (f (run answer d s).1) (run answer d s).2 := by
  induction d generalizing s with
  | done result => rfl
  | ask question next ih => exact ih _ _

/-- Answers by a fixed rule. -/
def answerBy {α : Type} (rule : Reference → Option Record) : Dialogue α → α
  | done result => result
  | ask question next => answerBy rule (next (rule question))

/-- The questions of the dialogue and how it ends, with a state that answers. -/
def transcript {σ α : Type} (answer : Reference → StateM σ (Option Record)) (d : Dialogue α)
    (s : σ) : List Reference × α :=
  let record (question : Reference) : StateM (σ × List Reference) (Option Record) :=
    fun (s, asked) =>
      let (given, s) := answer question s
      (given, (s, asked ++ [question]))
  let (result, (_, asked)) := d.run record (s, [])
  (asked, result)

end Dialogue

end RecordExpr
