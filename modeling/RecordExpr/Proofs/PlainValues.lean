import RecordExpr.Proofs.EvaluationRules

set_option autoImplicit false

namespace RecordExpr

namespace Dialogue

variable {α β γ δ : Type} {allowed : Record → Prop}

/-- An answer brings no record but an allowed one. -/
def Allows (allowed : Record → Prop) (answer : Option Record) : Prop :=
  ∀ r, answer = some r → allowed r

/-- Two dialogues that ask the same as long as the answers are allowed, and that end in related
results. -/
inductive Agree (allowed : Record → Prop) {α β : Type} (related : α → β → Prop) :
    Dialogue α → Dialogue β → Prop where
  | done {a : α} {b : β} (ends : related a b) : Agree allowed related (.done a) (.done b)
  | ask (question : Reference) {next : Option Record → Dialogue α}
      {next' : Option Record → Dialogue β}
      (rest : ∀ answer, Allows allowed answer →
        Agree allowed related (next answer) (next' answer)) :
      Agree allowed related (.ask question next) (.ask question next')

theorem Agree.imp {related wider : α → β → Prop} {d : Dialogue α} {d' : Dialogue β}
    (agree : Agree allowed related d d') (weaker : ∀ a b, related a b → wider a b) :
    Agree allowed wider d d' := by
  induction agree with
  | done ends => exact .done (weaker _ _ ends)
  | ask question _ ih => exact .ask question ih

theorem Agree.bind {related : α → β → Prop} {after : γ → δ → Prop} {d : Dialogue α}
    {d' : Dialogue β} {f : α → Dialogue γ} {f' : β → Dialogue δ}
    (agree : Agree allowed related d d')
    (later : ∀ a b, related a b → Agree allowed after (f a) (f' b)) :
    Agree allowed after (d.bind f) (d'.bind f') := by
  induction agree with
  | done ends => exact later _ _ ends
  | ask question _ ih => exact .ask question ih

/-- Whoever answers both dialogues from the same state is asked the same by both. -/
theorem Agree.transcript {related : α → β → Prop} {d : Dialogue α} {d' : Dialogue β}
    (agree : Agree allowed related d d') {σ : Type} {answer : Reference → StateM σ (Option Record)}
    (allows : ∀ question s, Allows allowed (answer question s).1) (s : σ) :
    (d.transcript answer s).1 = (d'.transcript answer s).1 ∧
      related (d.transcript answer s).2 (d'.transcript answer s).2 := by
  induction agree generalizing s with
  | done ends => exact ⟨rfl, ends⟩
  | ask question _ ih =>
      obtain ⟨asked, ends⟩ := ih _ (allows question s) (answer question s).2
      rw [transcript_ask, transcript_ask]
      exact ⟨congrArg (question :: ·) asked, ends⟩

end Dialogue

namespace Evaluation

variable {α β γ δ : Type} {allowed : Record → Prop}

/-- Two evaluations end with the same error, or with related values. -/
inductive Alike {α β : Type} (related : α → β → Prop) :
    Except EvalError α → Except EvalError β → Prop where
  | ok {a : α} {b : β} (values : related a b) : Alike related (.ok a) (.ok b)
  | error (problem : EvalError) : Alike related (.error problem) (.error problem)

theorem Alike.error_iff {related : α → β → Prop} {first : Except EvalError α}
    {second : Except EvalError β} (alike : Alike related first second) (problem : EvalError) :
    first = .error problem ↔ second = .error problem := by
  cases alike with
  | ok values => exact ⟨nofun, nofun⟩
  | error other => simp only [Except.error.injEq]

theorem Alike.of_ok {related : α → β → Prop} {first : Except EvalError α}
    {second : Except EvalError β} (alike : Alike related first second) {a : α}
    (given : first = .ok a) : ∃ b, second = .ok b ∧ related a b := by
  cases alike with
  | ok values =>
      cases given
      exact ⟨_, rfl, values⟩
  | error problem => cases given

/-- Two evaluations with the same questions that end alike. -/
def Agree (allowed : Record → Prop) (related : α → β → Prop) (x : Evaluation α)
    (y : Evaluation β) : Prop :=
  Dialogue.Agree allowed (Alike related) x.run y.run

theorem Agree.of_pure {related : α → β → Prop} {a : α} {b : β} (values : related a b) :
    Agree allowed related (pure a) (pure b) :=
  .done (.ok values)

theorem Agree.of_throw {related : α → β → Prop} (problem : EvalError) :
    Agree allowed related (throw problem) (throw problem) :=
  .done (.error problem)

theorem Agree.bind {related : α → β → Prop} {after : γ → δ → Prop} {x : Evaluation α}
    {y : Evaluation β} {f : α → Evaluation γ} {g : β → Evaluation δ}
    (agree : Agree allowed related x y)
    (later : ∀ a b, related a b → Agree allowed after (f a) (g b)) :
    Agree allowed after (x >>= f) (y >>= g) := by
  rw [Agree, run_bind, run_bind]
  refine Dialogue.Agree.bind agree ?_
  intro first second ends
  cases ends with
  | ok values => exact later _ _ values
  | error problem => exact .done (.error problem)

theorem Agree.imp {related wider : α → β → Prop} {x : Evaluation α} {y : Evaluation β}
    (agree : Agree allowed related x y) (weaker : ∀ a b, related a b → wider a b) :
    Agree allowed wider x y := by
  refine Dialogue.Agree.imp agree ?_
  intro first second ends
  cases ends with
  | ok values => exact .ok (weaker _ _ values)
  | error problem => exact .error problem

theorem agree_ask (allowed : Record → Prop) (question : Reference) :
    Agree allowed (fun a b => a = b ∧ Dialogue.Allows allowed a) (ask question) (ask question) :=
  .ask question fun _ allows => .done (.ok ⟨rfl, allows⟩)

end Evaluation

/-- No filter can be reached in the value, however deep. -/
inductive Value.Plain : Value → Prop where
  | null : Plain .null
  | bool (b : Bool) : Plain (.bool b)
  | number (n : Number) : Plain (.number n)
  | string (s : String) : Plain (.string s)
  | array {items : List Value} (each : ∀ v ∈ items, Plain v) : Plain (.array items)
  | record {r : Record} (each : ∀ name v, r.get? name = some v → Plain v) : Plain (.record r)

/-- No attribute of the record holds a filter. -/
def Record.Plain (r : Record) : Prop := ∀ name v, r.get? name = some v → v.Plain

namespace Value

variable {v w : Value}

theorem Plain.ne_filter (plain : v.Plain) (f : Filter) : v ≠ .filter f := by
  rintro rfl
  cases plain

theorem plain_getD {found : Option Value} (each : ∀ v, found = some v → v.Plain) :
    (found.getD .null).Plain := by
  cases found with
  | none => exact .null
  | some v => exact each v rfl

theorem plain_field {subject : Record} (plain : subject.Plain) (name : String) :
    ((subject.get? name).getD .null).Plain :=
  plain_getD (plain name)

theorem Plain.get (plain : v.Plain) (name : String) : (v.get name).Plain := by
  cases plain with
  | record each => exact plain_field each name
  | _ => exact .null

theorem plain_ofRecord? {found : Option Record} (allows : Dialogue.Allows Record.Plain found) :
    (Value.ofRecord? found).Plain := by
  cases found with
  | none => exact .null
  | some r => exact .record (allows r rfl)

theorem plain_literal (l : Literal) : l.value.Plain := by
  cases l with
  | number n => exact .number n
  | string s => exact .string s
  | bool b => exact .bool b
  | null => exact .null

/-- The mode of a negation shows only in filters. -/
theorem Plain.unary_eq (plain : v.Plain) (mode : Mode) (op : UnaryOp) :
    Value.unary mode op v = Value.unary .value op v := by
  cases op with
  | negate => rfl
  | not => cases plain <;> rfl

theorem Plain.unary (plain : v.Plain) (mode : Mode) (op : UnaryOp) :
    (Value.unary mode op v).Plain := by
  cases op with
  | negate => cases plain <;> constructor
  | not => cases plain <;> constructor

theorem plain_arithmetic (op : Number → Number → Option Number) (v w : Value) :
    (Value.arithmetic op v w).Plain := by
  unfold arithmetic
  split
  · refine plain_getD ?_
    intro result found
    obtain ⟨n, -, rfl⟩ := Option.map_eq_some_iff.mp found
    exact .number n
  · exact .null

theorem plain_add (v w : Value) : (v.add w).Plain := by
  unfold add
  split <;> constructor

theorem Plain.binary (left : v.Plain) (right : w.Plain) (op : BinaryOp) :
    (Value.binary op v w).Plain := by
  cases op with
  | or => cases left <;> cases right <;> constructor
  | and => cases left <;> cases right <;> constructor
  | compare relation => exact .bool _
  | add => exact plain_add v w
  | subtract => exact plain_arithmetic _ v w
  | multiply => exact plain_arithmetic _ v w
  | divide => exact plain_arithmetic _ v w
  | modulo => exact plain_arithmetic _ v w

/-- A function gives back one of its arguments or something new, which is no filter. -/
theorem plain_apply (function : Builtin) {args : List Value} (each : ∀ v ∈ args, v.Plain) :
    (function.apply args).Plain := by
  unfold Builtin.apply
  split
  · refine plain_getD ?_
    intro v found
    exact each v (List.mem_of_find?_eq_some found)
  all_goals try constructor
  refine plain_getD ?_
  intro v found
  obtain ⟨n, -, rfl⟩ := Option.map_eq_some_iff.mp found
  exact .number n

end Value

namespace Expr

/-- No comparison in the tree has a field on its left. -/
inductive ComparesNoField : Expr → Prop where
  | literal (token : Token) (l : Literal) : ComparesNoField (literal token l)
  | field (token : Token) (name : String) : ComparesNoField (field token name)
  | member {target : Expr} (inside : ComparesNoField target) (token : Token) (name : String) :
      ComparesNoField (member token target name)
  | call {args : List Expr} (inside : ∀ arg ∈ args, ComparesNoField arg) (token : Token)
      (name : String) : ComparesNoField (call token name args)
  | unary {operand : Expr} (inside : ComparesNoField operand) (token : Token) (op : UnaryOp) :
      ComparesNoField (unary token op operand)
  | binary {lhs rhs : Expr} (left : ComparesNoField lhs) (right : ComparesNoField rhs)
      (token : Token) {op : BinaryOp}
      (other : ∀ relation nameToken name, op = .compare relation → lhs ≠ field nameToken name) :
      ComparesNoField (binary token op lhs rhs)

/-- The same value, which is plain. -/
def SamePlain (v w : Value) : Prop := v = w ∧ v.Plain

/-- In both modes the trees ask the same and have the same plain values. -/
def ModeFree (subject : Record) (e : Expr) : Prop :=
  Evaluation.Agree Record.Plain SamePlain (e.evaluate .filter subject) (e.evaluate .value subject)

variable {subject : Record}

theorem agree_evaluateAll {args : List Expr} (each : ∀ arg ∈ args, arg.ModeFree subject) :
    Evaluation.Agree Record.Plain (fun vs ws => vs = ws ∧ ∀ v ∈ vs, v.Plain)
      (evaluateAll .filter subject args) (evaluateAll .value subject args) := by
  induction args with
  | nil =>
      rw [evaluateAll, evaluateAll]
      exact .of_pure ⟨rfl, nofun⟩
  | cons first rest ih =>
      obtain ⟨here, later⟩ := List.forall_mem_cons.mp each
      rw [evaluateAll, evaluateAll]
      refine here.bind ?_
      rintro v _ ⟨rfl, plain⟩
      refine (ih later).bind ?_
      rintro vs _ ⟨rfl, plains⟩
      exact .of_pure ⟨rfl, List.forall_mem_cons.mpr ⟨plain, plains⟩⟩

theorem agree_evaluateChoice {args : List Expr} (each : ∀ arg ∈ args, arg.ModeFree subject) :
    Evaluation.Agree Record.Plain SamePlain (evaluateChoice .filter subject args)
      (evaluateChoice .value subject args) := by
  by_cases three : ∃ condition thenBranch elseBranch, args = [condition, thenBranch, elseBranch]
  · obtain ⟨condition, thenBranch, elseBranch, rfl⟩ := three
    rw [evaluateChoice, evaluateChoice]
    refine (each condition (by simp)).bind ?_
    rintro v _ ⟨rfl, -⟩
    split
    · exact each thenBranch (by simp)
    · exact each elseBranch (by simp)
  · have other : ∀ condition thenBranch elseBranch, args = [condition, thenBranch, elseBranch] →
        False := fun condition thenBranch elseBranch same => three ⟨_, _, _, same⟩
    rw [evaluateChoice, evaluateChoice]
    · exact .of_pure ⟨rfl, .null⟩
    · exact other
    · exact other

theorem agree_getFeature {args : List Value} (each : ∀ v ∈ args, v.Plain) :
    Evaluation.Agree Record.Plain SamePlain (Evaluation.getFeature args)
      (Evaluation.getFeature args) := by
  unfold Evaluation.getFeature
  split
  · split
    · exact .of_pure ⟨rfl, .null⟩
    · refine (Evaluation.agree_ask Record.Plain _).bind ?_
      rintro found _ ⟨rfl, allows⟩
      exact .of_pure ⟨rfl, Value.plain_ofRecord? allows⟩
  · exact .of_pure ⟨rfl, .null⟩

theorem agree_call {args : List Expr} (each : ∀ arg ∈ args, arg.ModeFree subject) (token : Token)
    (name : String) : (call token name args).ModeFree subject := by
  rw [ModeFree, Expr.evaluate, Expr.evaluate]
  cases Callee.named? name with
  | none => exact .of_throw _
  | some callee =>
      by_cases accepted : callee.arity.accepts args.length = true
      · simp only [accepted, if_true]
        cases callee with
        | getFeature =>
            refine (agree_evaluateAll each).bind ?_
            rintro vs _ ⟨rfl, plain⟩
            exact agree_getFeature plain
        | conditional => exact agree_evaluateChoice each
        | builtin function =>
            refine (agree_evaluateAll each).bind ?_
            rintro vs _ ⟨rfl, plain⟩
            exact .of_pure ⟨rfl, Value.plain_apply function plain⟩
      · simp only [accepted]
        exact .of_throw _

/-- In value mode an operator takes the values of both its sides. -/
theorem evaluate_binary_value (token : Token) (op : BinaryOp) (lhs rhs : Expr) :
    (binary token op lhs rhs).evaluate .value subject = do
      let v ← lhs.evaluate .value subject
      let w ← rhs.evaluate .value subject
      return Value.binary op v w := rfl

/-- So it does in filter mode, unless it compares a field. -/
theorem evaluate_binary_filter (token : Token) (op : BinaryOp) {lhs rhs : Expr}
    (other : ∀ relation nameToken name, op = .compare relation → lhs ≠ field nameToken name) :
    (binary token op lhs rhs).evaluate .filter subject = do
      let v ← lhs.evaluate .filter subject
      let w ← rhs.evaluate .filter subject
      return Value.binary op v w := by
  apply evaluate_binary
  rintro ⟨relation, nameToken, name, -, compares, isField⟩
  exact other relation nameToken name compares isField

/-- Without comparisons of fields and without filters in records the mode makes no difference. -/
theorem agree_evaluate (plain : subject.Plain) {e : Expr} (compares : e.ComparesNoField) :
    e.ModeFree subject := by
  induction compares with
  | literal token l =>
      rw [ModeFree, Expr.evaluate, Expr.evaluate]
      exact .of_pure ⟨rfl, Value.plain_literal l⟩
  | field token name =>
      rw [ModeFree, Expr.evaluate, Expr.evaluate]
      exact .of_pure ⟨rfl, Value.plain_field plain name⟩
  | member _ token name ih =>
      rw [ModeFree, Expr.evaluate, Expr.evaluate]
      refine ih.bind ?_
      rintro v _ ⟨rfl, plain⟩
      exact .of_pure ⟨rfl, plain.get name⟩
  | call _ token name ih => exact agree_call ih token name
  | unary _ token op ih =>
      rw [ModeFree, Expr.evaluate, Expr.evaluate]
      refine ih.bind ?_
      rintro v _ ⟨rfl, plain⟩
      exact .of_pure ⟨plain.unary_eq .filter op, plain.unary .filter op⟩
  | binary _ _ token other left right =>
      rw [ModeFree, evaluate_binary_filter token _ other, evaluate_binary_value]
      refine left.bind ?_
      rintro v _ ⟨rfl, plain⟩
      refine right.bind ?_
      rintro w _ ⟨rfl, plainToo⟩
      exact .of_pure ⟨rfl, plain.binary plainToo _⟩

end Expr

end RecordExpr
