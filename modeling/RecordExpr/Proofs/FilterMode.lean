import RecordExpr.Proofs.PlainValues

set_option autoImplicit false

namespace RecordExpr

namespace Filter

variable (r : Record)

theorem acceptsAll_append (parts more : List Filter) :
    acceptsAll r (parts ++ more) = (acceptsAll r parts && acceptsAll r more) := by
  induction parts with
  | nil => rfl
  | cons f rest ih => rw [List.cons_append, acceptsAll, acceptsAll, ih, Bool.and_assoc]

theorem acceptsAny_append (parts more : List Filter) :
    acceptsAny r (parts ++ more) = (acceptsAny r parts || acceptsAny r more) := by
  induction parts with
  | nil => rfl
  | cons f rest ih => rw [List.cons_append, acceptsAny, acceptsAny, ih, Bool.or_assoc]

private theorem acceptsAll_single (f : Filter) : acceptsAll r [f] = accepts r f := by
  rw [acceptsAll, acceptsAll, Bool.and_true]

private theorem acceptsAny_single (f : Filter) : acceptsAny r [f] = accepts r f := by
  rw [acceptsAny, acceptsAny, Bool.or_false]

/-- Flattening shows nothing of itself: both parts have to accept the record. -/
theorem accepts_and (f g : Filter) : accepts r (f.and g) = (accepts r f && accepts r g) := by
  unfold Filter.and
  split
  · rw [accepts, acceptsAll_append, accepts, accepts]
  · rw [accepts, acceptsAll_append, acceptsAll_single, accepts]
  · rw [accepts, acceptsAll, acceptsAll_single]

theorem accepts_or (f g : Filter) : accepts r (f.or g) = (accepts r f || accepts r g) := by
  unfold Filter.or
  split
  · rw [accepts, acceptsAny_append, accepts, accepts]
  · rw [accepts, acceptsAny_append, acceptsAny_single, accepts]
  · rw [accepts, acceptsAny, acceptsAny_single]

/-- Null stands in no relation to anything, so a record without an attribute is not accepted, as if
it had null there. -/
theorem holds_null (relation : Comparison) (v : Value) : relation.holds .null v = false := by
  cases relation <;> cases v <;> rfl

theorem accepts_compare (name : String) (relation : Comparison) (v : Value) :
    accepts r (.compare name relation v) = relation.holds ((r.get? name).getD .null) v := by
  rw [accepts]
  cases r.get? name with
  | none => exact (holds_null relation v).symm
  | some found => rfl

end Filter

namespace Value

variable {v w : Value}

theorem Plain.and_eq (left : v.Plain) (right : w.Plain) :
    v.and w = .bool (v.isTruthy && w.isTruthy) := by
  cases left <;> cases right <;> rfl

theorem Plain.or_eq (left : v.Plain) (right : w.Plain) :
    v.or w = .bool (v.isTruthy || w.isTruthy) := by
  cases left <;> cases right <;> rfl

theorem Plain.and_filter (left : v.Plain) (f : Filter) :
    v.and (.filter f) = if v.isTruthy then .filter f else .bool false := by
  cases left <;> rfl

theorem Plain.or_filter (left : v.Plain) (f : Filter) :
    v.or (.filter f) = if v.isTruthy then .bool true else .filter f := by
  cases left <;> rfl

theorem Plain.filter_and (right : w.Plain) (f : Filter) :
    (Value.filter f).and w = if w.isTruthy then .filter f else .bool false := by
  cases right <;> rfl

theorem Plain.filter_or (right : w.Plain) (f : Filter) :
    (Value.filter f).or w = if w.isTruthy then .bool true else .filter f := by
  cases right <;> rfl

/-- How a condition in filter mode stands to its value for one candidate: a filter has decided to
accept it or not, and what is no filter is that value itself. -/
inductive Mirrors (candidate : Record) : Value → Value → Prop where
  | filter (f : Filter) : Mirrors candidate (.filter f) (.bool (f.accepts candidate))
  | plain {v : Value} (plain : v.Plain) : Mirrors candidate v v

variable {candidate : Record} {x y : Value}

/-- A filter is never null, so its negation is no null either. -/
theorem Mirrors.not (mirrors : Mirrors candidate x v) :
    Mirrors candidate (Value.unary .filter .not x) (Value.unary .value .not v) := by
  cases mirrors with
  | filter f =>
      have negated : f.negation.accepts candidate = !f.accepts candidate := by rw [Filter.accepts]
      have mirrored := @Mirrors.filter candidate f.negation
      rw [negated] at mirrored
      exact mirrored
  | plain plain =>
      rw [plain.unary_eq .filter .not]
      exact .plain (plain.unary .value .not)

private theorem mirrors_bool (b : Bool) : Mirrors candidate (.bool b) (.bool b) := .plain (.bool b)

theorem Mirrors.and (left : Mirrors candidate x v) (right : Mirrors candidate y w) :
    Mirrors candidate (x.and y) (v.and w) := by
  cases left with
  | filter f =>
      cases right with
      | filter g =>
          have mirrored := @Mirrors.filter candidate (f.and g)
          rw [Filter.accepts_and] at mirrored
          exact mirrored
      | plain plain =>
          rw [plain.filter_and, (Plain.bool (f.accepts candidate)).and_eq plain]
          split
          · rename_i truthy
            rw [truthy, Bool.and_true]
            exact .filter f
          · rename_i falsy
            rw [Bool.not_eq_true] at falsy
            rw [falsy, Bool.and_false]
            exact mirrors_bool false
  | plain plain =>
      cases right with
      | filter g =>
          rw [plain.and_filter, plain.and_eq (.bool _)]
          split
          · rename_i truthy
            rw [truthy, Bool.true_and]
            exact .filter g
          · rename_i falsy
            rw [Bool.not_eq_true] at falsy
            rw [falsy, Bool.false_and]
            exact mirrors_bool false
      | plain plainToo =>
          rw [plain.and_eq plainToo]
          exact mirrors_bool _

theorem Mirrors.or (left : Mirrors candidate x v) (right : Mirrors candidate y w) :
    Mirrors candidate (x.or y) (v.or w) := by
  cases left with
  | filter f =>
      cases right with
      | filter g =>
          have mirrored := @Mirrors.filter candidate (f.or g)
          rw [Filter.accepts_or] at mirrored
          exact mirrored
      | plain plain =>
          rw [plain.filter_or, (Plain.bool (f.accepts candidate)).or_eq plain]
          split
          · rename_i truthy
            rw [truthy, Bool.or_true]
            exact mirrors_bool true
          · rename_i falsy
            rw [Bool.not_eq_true] at falsy
            rw [falsy, Bool.or_false]
            exact .filter f
  | plain plain =>
      cases right with
      | filter g =>
          rw [plain.or_filter, plain.or_eq (.bool _)]
          split
          · rename_i truthy
            rw [truthy, Bool.true_or]
            exact mirrors_bool true
          · rename_i falsy
            rw [Bool.not_eq_true] at falsy
            rw [falsy, Bool.false_or]
            exact .filter g
      | plain plainToo =>
          rw [plain.or_eq plainToo]
          exact mirrors_bool _

end Value

namespace Expr

/-- The value of a tree in value mode, with the fields on the left of comparisons read from a
candidate and everything else from the subject. Only operators are gone through: in what a call or
an attribute access applies to, comparisons do not make filters of the whole. -/
def judge (candidate subject : Record) : Expr → Evaluation Value
  | binary _ op lhs rhs =>
    match op, lhs with
    | .compare relation, field _ name => do
      let w ← judge candidate subject rhs
      return .bool (relation.holds ((candidate.get? name).getD .null) w)
    | _, _ => do
      let v ← judge candidate subject lhs
      let w ← judge candidate subject rhs
      return Value.binary op v w
  | unary _ op operand => return Value.unary .value op (← judge candidate subject operand)
  | e => e.evaluate .value subject

/-- Built with `and`, `or` and `not` from comparisons with a field on their left and from other
trees. Comparisons of fields stand nowhere else. -/
inductive IsCondition : Expr → Prop where
  | comparison {rhs : Expr} (plain : ComparesNoField rhs) (token : Token) (relation : Comparison)
      (nameToken : Token) (name : String) :
      IsCondition (binary token (.compare relation) (field nameToken name) rhs)
  | other {e : Expr} (plain : ComparesNoField e) : IsCondition e
  | and {lhs rhs : Expr} (left : IsCondition lhs) (right : IsCondition rhs) (token : Token) :
      IsCondition (binary token .and lhs rhs)
  | or {lhs rhs : Expr} (left : IsCondition lhs) (right : IsCondition rhs) (token : Token) :
      IsCondition (binary token .or lhs rhs)
  | not {operand : Expr} (inside : IsCondition operand) (token : Token) :
      IsCondition (unary token .not operand)

variable {candidate subject : Record}

theorem judge_comparison (token : Token) (relation : Comparison) (nameToken : Token) (name : String)
    (rhs : Expr) :
    (binary token (.compare relation) (field nameToken name) rhs).judge candidate subject = do
      let w ← rhs.judge candidate subject
      return .bool (relation.holds ((candidate.get? name).getD .null) w) := rfl

theorem judge_binary (token : Token) (op : BinaryOp) {lhs rhs : Expr}
    (other : ∀ relation nameToken name, op = .compare relation → lhs ≠ field nameToken name) :
    (binary token op lhs rhs).judge candidate subject = do
      let v ← lhs.judge candidate subject
      let w ← rhs.judge candidate subject
      return Value.binary op v w := by
  conv => lhs; unfold judge
  split
  · rename_i relation nameToken name
    exact absurd rfl (other relation nameToken name rfl)
  · rfl

/-- Without comparisons of fields the candidate is never looked at. -/
theorem judge_of_comparesNoField {e : Expr} (plain : e.ComparesNoField) :
    e.judge candidate subject = e.evaluate .value subject := by
  induction plain with
  | literal token l => rfl
  | field token name => rfl
  | member _ token name _ => rfl
  | call _ token name _ => rfl
  | unary _ token op ih => rw [judge, Expr.evaluate, ih]
  | binary _ _ token other left right =>
      rw [judge_binary token _ other, evaluate_binary_value, left, right]

/-- A subject that is its own candidate is judged by the value of the tree. -/
theorem judge_self (subject : Record) (e : Expr) :
    e.judge subject subject = e.evaluate .value subject := by
  induction e using tree_induction with
  | literal token l => rfl
  | field token name => rfl
  | member token target name _ => rfl
  | call token name args _ => rfl
  | unary token op operand ih => rw [judge, Expr.evaluate, ih]
  | binary token op lhs rhs left right =>
      rw [evaluate_binary_value]
      by_cases compares : ∃ relation nameToken name,
          op = .compare relation ∧ lhs = field nameToken name
      · obtain ⟨relation, nameToken, name, rfl, rfl⟩ := compares
        rw [judge_comparison, Expr.evaluate, right]
        rfl
      · rw [judge_binary token op, left, right]
        intro relation nameToken name same field
        exact compares ⟨relation, nameToken, name, same, field⟩

/-- In filter mode a condition asks what its value for a candidate asks, and mirrors that value. -/
theorem IsCondition.agree_judge {e : Expr} (condition : e.IsCondition) (plain : subject.Plain)
    (candidate : Record) :
    Evaluation.Agree Record.Plain (Value.Mirrors candidate) (e.evaluate .filter subject)
      (e.judge candidate subject) := by
  induction condition with
  | comparison compares token relation nameToken name =>
      rw [Expr.evaluate, judge_comparison, judge_of_comparesNoField compares]
      refine (agree_evaluate plain compares).bind ?_
      rintro w _ ⟨rfl, -⟩
      refine .of_pure ?_
      rw [← Filter.accepts_compare]
      exact .filter _
  | other compares =>
      rw [judge_of_comparesNoField compares]
      refine (agree_evaluate plain compares).imp ?_
      rintro v _ ⟨rfl, plain⟩
      exact .plain plain
  | @and lhs rhs _ _ token left right =>
      have other : ∀ relation nameToken name, BinaryOp.and = .compare relation →
          lhs ≠ field nameToken name := by
        intro _ _ _ impossible
        cases impossible
      rw [evaluate_binary_filter token .and other, judge_binary token .and other]
      refine left.bind fun x v mirrors => right.bind fun y w mirrorsToo => ?_
      exact .of_pure (mirrors.and mirrorsToo)
  | @or lhs rhs _ _ token left right =>
      have other : ∀ relation nameToken name, BinaryOp.or = .compare relation →
          lhs ≠ field nameToken name := by
        intro _ _ _ impossible
        cases impossible
      rw [evaluate_binary_filter token .or other, judge_binary token .or other]
      refine left.bind fun x v mirrors => right.bind fun y w mirrorsToo => ?_
      exact .of_pure (mirrors.or mirrorsToo)
  | not _ token ih =>
      rw [Expr.evaluate, judge]
      refine ih.bind fun x v mirrors => ?_
      exact .of_pure mirrors.not

/-- Filter mode means what value mode says. For a condition, a subject and lookups without filters,
both modes ask the same and end with the same error or with none. For every candidate the value of
the condition with its left-hand fields read from the candidate asks the same too and fails with
them; otherwise a filter accepts the candidate exactly if that value is true, and what filter mode
gives instead of a filter is true exactly if that value is. -/
theorem filter_mode_accepts {σ : Type} (answer : Reference → StateM σ (Option Record)) (state : σ)
    {e : Expr} {subject : Record} (condition : e.IsCondition) (plain : subject.Plain)
    (plainAnswers : ∀ question s, Dialogue.Allows Record.Plain (answer question s).1) :
    let asFilter := (e.evaluate .filter subject).run.transcript answer state
    let asValue := (e.evaluate .value subject).run.transcript answer state
    asFilter.1 = asValue.1 ∧
      (∀ problem, asFilter.2 = .error problem ↔ asValue.2 = .error problem) ∧
      ∀ candidate,
        let judged := (e.judge candidate subject).run.transcript answer state
        judged.1 = asFilter.1 ∧
          (∀ problem, judged.2 = .error problem ↔ asFilter.2 = .error problem) ∧
          ∀ x, asFilter.2 = .ok x → ∃ v, judged.2 = .ok v ∧
            (∀ f, x = .filter f → f.accepts candidate = v.isTruthy) ∧
            ((∀ f, x ≠ .filter f) → x.isTruthy = v.isTruthy) := by
  intro asFilter asValue
  have judges := fun candidate =>
    (condition.agree_judge plain candidate).transcript plainAnswers state
  obtain ⟨questions, ends⟩ := judges subject
  rw [judge_self] at questions ends
  refine ⟨questions, ends.error_iff, ?_⟩
  intro candidate judged
  obtain ⟨questions, ends⟩ := judges candidate
  refine ⟨questions.symm, fun problem => (ends.error_iff problem).symm, ?_⟩
  intro x given
  obtain ⟨v, judgedOk, mirrors⟩ := ends.of_ok given
  refine ⟨v, judgedOk, ?_⟩
  cases mirrors with
  | filter f =>
      refine ⟨?_, fun other => absurd rfl (other f)⟩
      rintro _ ⟨rfl⟩
      rfl
  | plain plain => exact ⟨fun f same => absurd same (plain.ne_filter f), fun _ => rfl⟩

/-- The owner is that of the parcel, and the status is not one of the closed ones. -/
def ownedAndOpen : Expr :=
  let here := Token.missing
  let lookup := call here "getFeature"
    [literal here (.string "parcels"), literal here (.string "id"), field here "parcel"]
  let owned := binary here (.compare .equal) (field here "owner") (member here lookup "owner")
  let closed := binary here (.compare .like) (field here "status")
    (literal here (.string "closed%"))
  binary here .and owned (unary here .not closed)

/-- With Ada's parcel looked up on the way, a record of hers that is open is accepted, and so its
value is true. -/
theorem ownedAndOpen_accepts :
    let subject : Record := ⟨[("parcel", .string "42")]⟩
    let candidate : Record := ⟨[("owner", .string "Ada"), ("status", .string "open")]⟩
    let answer : Reference → StateM Unit (Option Record) :=
      fun _ s => (some ⟨[("owner", .string "Ada")]⟩, s)
    ownedAndOpen.IsCondition ∧ subject.Plain ∧
      (∀ question s, Dialogue.Allows Record.Plain (answer question s).1) ∧
      ∃ v, (ownedAndOpen.judge candidate subject).run.transcript answer () =
          ([⟨"parcels", "id", .string "42"⟩], .ok v) ∧ v.isTruthy = true := by
  intro subject candidate answer
  have lookupPlain : ComparesNoField (member Token.missing (call Token.missing "getFeature"
      [literal Token.missing (.string "parcels"), literal Token.missing (.string "id"),
        field Token.missing "parcel"]) "owner") := by
    refine .member (.call ?_ _ _) _ _
    intro arg member
    simp only [List.mem_cons, List.not_mem_nil, or_false] at member
    rcases member with rfl | rfl | rfl
    · exact .literal _ _
    · exact .literal _ _
    · exact .field _ _
  have condition : ownedAndOpen.IsCondition :=
    .and (.comparison lookupPlain _ _ _ _) (.not (.comparison (.literal _ _) _ _ _ _) _) _
  have plainRecord : ∀ name s, Record.Plain ⟨[(name, .string s)]⟩ := by
    intro name s other v found
    simp only [Record.get?, List.lookup_cons, List.lookup_nil] at found
    split at found
    · cases found
      exact .string s
    · cases found
  have plainAnswers : ∀ question s, Dialogue.Allows Record.Plain (answer question s).1 := by
    rintro question s r ⟨rfl⟩
    exact plainRecord "owner" "Ada"
  let owned : Filter := .compare "owner" .equal (.string "Ada")
  let notClosed : Filter := .negation (.compare "status" .like (.string "closed%"))
  have compiled : (ownedAndOpen.evaluate .filter subject).run.transcript answer () =
      ([⟨"parcels", "id", .string "42"⟩], .ok (.filter (.all [owned, notClosed]))) := rfl
  have accepted : (Filter.all [owned, notClosed]).accepts candidate = true := by decide +kernel
  obtain ⟨-, -, judges⟩ := filter_mode_accepts answer () condition (plainRecord "parcel" "42")
    plainAnswers
  obtain ⟨questions, -, results⟩ := judges candidate
  obtain ⟨v, judged, accepts, -⟩ := results _ (congrArg Prod.snd compiled)
  rw [compiled] at questions
  refine ⟨condition, plainRecord _ _, plainAnswers, v, Prod.ext questions judged, ?_⟩
  rw [← accepts _ rfl, accepted]

end Expr

end RecordExpr
