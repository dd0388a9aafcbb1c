import RecordExpr.Proofs.Unplaced

set_option autoImplicit false

namespace RecordExpr

/-- The tokens differ in their places at most. -/
def Token.SameKind (t t' : Token) : Prop := t.kind = t'.kind

theorem Token.SameKind.unplaced {t t' : Token} (same : t.SameKind t') : t.unplaced = t'.unplaced :=
  congrArg (Token.mk · {}) same

theorem ParseError.unplaced_atDelimiter {t t' : Token} (same : t.SameKind t') :
    (atDelimiter t).unplaced = (atDelimiter t').unplaced := by
  have ends : t.isEnd = t'.isEnd := congrArg (· == TokenKind.endOfText) same
  rw [atDelimiter, atDelimiter, ends]
  split
  · exact congrArg unexpectedEnd same.unplaced
  · exact congrArg expectedClosingParen same.unplaced

namespace Expr

variable {α β : Type}

/-- Two readers read alike and take equally many tokens, or fail with errors of one kind. -/
inductive ReadAlike (same : α → α → Prop) :
    Except ParseError (α × Nat) → Except ParseError (α × Nat) → Prop where
  | ok {a b : α} (n : Nat) (values : same a b) : ReadAlike same (.ok (a, n)) (.ok (b, n))
  | error {p q : ParseError} (kinds : p.unplaced = q.unplaced) :
      ReadAlike same (.error p) (.error q)

/-- Readers that go on with what other ones have read. -/
theorem ReadAlike.bind {same : α → α → Prop} {after : β → β → Prop}
    {x y : Except ParseError (α × Nat)} {f g : α × Nat → Except ParseError (β × Nat)}
    (first : ReadAlike same x y)
    (second : ∀ a b n, same a b → ReadAlike after (f (a, n)) (g (b, n))) :
    ReadAlike after (x >>= f) (y >>= g) := by
  cases first with
  | ok n values => exact second _ _ n values
  | error kinds => exact .error kinds

/-- The trees differ in their tokens at most. -/
def SameTree (e e' : Expr) : Prop := e.bare = e'.bare

def SameTrees (es es' : List Expr) : Prop := bares es = bares es'

namespace SameTree

variable {e e' lhs lhs' rhs rhs' : Expr} {args args' : List Expr}

theorem member (same : SameTree e e') (t t' : Token) (name : String) :
    SameTree (member t e name) (member t' e' name) := by
  rw [SameTree, bare, bare, same]

theorem call (same : SameTrees args args') (t t' : Token) (name : String) :
    SameTree (call t name args) (call t' name args') := by
  rw [SameTree, bare, bare, same]

theorem unary (same : SameTree e e') (t t' : Token) (op : UnaryOp) :
    SameTree (unary t op e) (unary t' op e') := by
  rw [SameTree, bare, bare, same]

theorem binary (left : SameTree lhs lhs') (right : SameTree rhs rhs') (t t' : Token)
    (op : BinaryOp) : SameTree (binary t op lhs rhs) (binary t' op lhs' rhs') := by
  rw [SameTree, bare, bare, left, right]

end SameTree

theorem sameTrees_cons {e e' : Expr} {es es' : List Expr} (first : SameTree e e')
    (others : SameTrees es es') : SameTrees (e :: es) (e' :: es') := by
  rw [SameTrees, bares, bares, first, others]

/-- Tokens that have the same kinds one by one. -/
abbrev SameKinds (tokens tokens' : List Token) : Prop := List.Forall₂ Token.SameKind tokens tokens'

theorem alike_members {target target' : Expr} (same : SameTree target target')
    {tokens tokens' : List Token} (kinds : SameKinds tokens tokens') :
    ReadAlike SameTree (parseMembers target tokens) (parseMembers target' tokens') := by
  match tokens, tokens', kinds with
  | [], [], _ => exact .ok 0 same
  | [t], [t'], .cons first .nil =>
      rw [parseMembers, parseMembers, first]
      split
      · exact .error rfl
      · exact .ok 0 same
  | t :: name :: rest, t' :: name' :: rest', .cons first (.cons second later) =>
      rw [parseMembers, parseMembers, first, second]
      split
      · split
        · exact (alike_members (same.member _ _ _) later).bind fun e e' n trees => .ok _ trees
        · exact (alike_members (same.member _ _ _) later).bind fun e e' n trees => .ok _ trees
        · exact .error (congrArg ParseError.expectedAttributeName second.unplaced)
      · exact .ok 0 same
termination_by tokens.length

/-- The arguments of a call, without the proof that there is less to read behind a comma. -/
theorem parseMoreArguments_eq (tokens : List Token) :
    parseMoreArguments tokens = (do
      let (first, n) ← parseExpr 1 tokens
      match tokens.drop n with
      | [] => .error (.unexpectedEnd Token.missing)
      | delimiter :: rest =>
        if delimiter.kind = .comma then do
          let (more, m) ← parseMoreArguments rest
          return (first :: more, n + m + 1)
        else if delimiter.kind = .rightParen then return ([first], n + 1)
        else .error (.atDelimiter delimiter)) := by
  rw [parseMoreArguments]
  congr 1
  funext read
  simp only
  split
  · rename_i ended
    rw [ended]
  · rename_i behind
    rw [behind]

-- The induction follows the parser through both lists at once. Equal kinds take it to the same
-- branch of each definition, and equal counts to tokens of the same kinds again.
mutual

theorem alike_expr (strength : Nat) {tokens tokens' : List Token}
    (kinds : SameKinds tokens tokens') :
    ReadAlike SameTree (parseExpr strength tokens) (parseExpr strength tokens') := by
  rw [parseExpr, parseExpr]
  apply (alike_operand kinds).bind
  intro first first' n same
  exact (alike_operators strength same (List.forall₂_drop n kinds)).bind
    fun e e' m trees => .ok (n + m) trees
termination_by (tokens.length, 3)
decreasing_by
  · rw [Prod.lex_def]
    omega
  · rw [Prod.lex_def, List.length_drop]
    omega

theorem alike_operators (strength : Nat) {lhs lhs' : Expr} (same : SameTree lhs lhs')
    {tokens tokens' : List Token} (kinds : SameKinds tokens tokens') :
    ReadAlike SameTree (parseOperators strength lhs tokens)
      (parseOperators strength lhs' tokens') := by
  match tokens, tokens', kinds with
  | [], [], _ =>
      rw [parseOperators, parseOperators]
      exact .ok 0 same
  | t :: rest, t' :: rest', .cons head later =>
      rw [parseOperators, parseOperators, head]
      split
      · rename_i op isOp
        split
        · apply (alike_operand later).bind
          intro first first' n firsts
          apply (alike_stronger op.strength firsts (List.forall₂_drop n later)).bind
          intro rhs rhs' m right
          exact (alike_operators strength (same.binary right t t' op)
            (List.forall₂_drop (n + m) later)).bind fun e e' k trees => .ok (n + m + k + 1) trees
        · exact .ok 0 same
      · exact .ok 0 same
termination_by (tokens.length, 2)
decreasing_by
  all_goals rw [Prod.lex_def]
  all_goals simp only [List.length_drop, List.length_cons]
  all_goals omega

theorem alike_stronger (strength : Nat) {rhs rhs' : Expr} (same : SameTree rhs rhs')
    {tokens tokens' : List Token} (kinds : SameKinds tokens tokens') :
    ReadAlike SameTree (parseStronger strength rhs tokens)
      (parseStronger strength rhs' tokens') := by
  match tokens, tokens', kinds with
  | [], [], _ =>
      rw [parseStronger, parseStronger]
      exact .ok 0 same
  | t :: rest, t' :: rest', .cons head later =>
      rw [parseStronger, parseStronger, head]
      split
      · rename_i next isOp
        split
        · apply (alike_operators next.strength same (.cons head later)).bind
          intro e e' n trees
          exact (alike_stronger strength trees (List.forall₂_drop (n - 1) later)).bind
            fun e e' m trees => .ok (n + m) trees
        · exact .ok 0 same
      · exact .ok 0 same
termination_by (tokens.length, 3)
decreasing_by
  · exact Prod.Lex.right _ (by decide)
  · rw [Prod.lex_def, List.length_drop, List.length_cons]
    omega

theorem alike_operand {tokens tokens' : List Token} (kinds : SameKinds tokens tokens') :
    ReadAlike SameTree (parseOperand tokens) (parseOperand tokens') := by
  match tokens, tokens', kinds with
  | [], [], _ =>
      rw [parseOperand]
      exact .error rfl
  | t :: rest, t' :: rest', .cons head later =>
      rw [parseOperand, parseOperand, head]
      split
      · exact (alike_operand later).bind fun e e' n trees => .ok (n + 1) (trees.unary t t' .negate)
      · exact (alike_expr notStrength later).bind
          fun e e' n trees => .ok (n + 1) (trees.unary t t' .not)
      · apply (alike_primary head later).bind
        intro target target' n targets
        exact (alike_members targets (List.forall₂_drop n later)).bind
          fun e e' m trees => .ok (n + m + 1) trees
termination_by (tokens.length, 2)
decreasing_by
  all_goals rw [Prod.lex_def, List.length_cons]
  all_goals omega

theorem alike_primary {t t' : Token} (head : t.SameKind t') {rest rest' : List Token}
    (kinds : SameKinds rest rest') :
    ReadAlike SameTree (parsePrimary t rest) (parsePrimary t' rest') := by
  rw [parsePrimary, parsePrimary, head]
  split
  · exact .ok 0 rfl
  · exact .ok 0 rfl
  · rename_i name isWord
    match rest, rest', kinds with
    | [], [], _ => exact .ok 0 rfl
    | paren :: inner, paren' :: inner', .cons second later =>
        simp only
        rw [second]
        split
        · exact (alike_arguments later).bind
            fun args args' n same => .ok (n + 1) (SameTree.call same t t' name)
        · exact .ok 0 rfl
  · apply (alike_expr 1 kinds).bind
    intro e e' n trees
    have behind := List.forall₂_drop n kinds
    simp only
    match rest.drop n, rest'.drop n, behind with
    | [], [], _ => exact .error rfl
    | close :: _, close' :: _, .cons second _ =>
        simp only
        rw [second]
        split
        · exact .ok (n + 1) trees
        · exact .error (ParseError.unplaced_atDelimiter second)
  · exact .error (congrArg ParseError.unexpectedEnd head.unplaced)
  · exact .error (congrArg ParseError.unexpectedToken head.unplaced)
termination_by (rest.length, 4)
decreasing_by
  · rw [Prod.lex_def, List.length_cons]
    omega
  · exact Prod.Lex.right _ (by decide)

theorem alike_arguments {tokens tokens' : List Token} (kinds : SameKinds tokens tokens') :
    ReadAlike SameTrees (parseArguments tokens) (parseArguments tokens') := by
  match tokens, tokens', kinds with
  | [], [], kinds =>
      rw [parseArguments]
      exact alike_moreArguments kinds
  | t :: rest, t' :: rest', .cons head later =>
      rw [parseArguments, parseArguments, head]
      split
      · exact .ok 1 rfl
      · exact alike_moreArguments (.cons head later)
termination_by (tokens.length, 5)
decreasing_by
  all_goals rw [Prod.lex_def]
  all_goals omega

theorem alike_moreArguments {tokens tokens' : List Token} (kinds : SameKinds tokens tokens') :
    ReadAlike SameTrees (parseMoreArguments tokens) (parseMoreArguments tokens') := by
  rw [parseMoreArguments_eq, parseMoreArguments_eq]
  apply (alike_expr 1 kinds).bind
  intro first first' n firsts
  have behind := List.forall₂_drop n kinds
  simp only
  match here : tokens.drop n, tokens'.drop n, behind with
  | [], [], _ => exact .error rfl
  | delimiter :: rest, delimiter' :: rest', .cons second later =>
      have shorter : rest.length < tokens.length := by
        have := congrArg List.length here
        rw [List.length_drop, List.length_cons] at this
        omega
      simp only
      rw [second]
      split
      · apply (alike_moreArguments later).bind
        intro more more' m others
        exact .ok (n + m + 1) (sameTrees_cons firsts others)
      · split
        · exact .ok (n + 1) (sameTrees_cons firsts rfl)
        · exact .error (ParseError.unplaced_atDelimiter second)
termination_by (tokens.length, 4)
decreasing_by
  all_goals rw [Prod.lex_def]
  all_goals omega

end

theorem alike_ofTokens {tokens tokens' : List Token} (kinds : SameKinds tokens tokens') :
    ((ofTokens tokens).map bare).mapError ParseError.unplaced =
      ((ofTokens tokens').map bare).mapError ParseError.unplaced := by
  have read := alike_expr 1 kinds
  rw [ofTokens, ofTokens]
  generalize parseExpr 1 tokens = first, parseExpr 1 tokens' = first' at read
  cases read with
  | error same => exact congrArg Except.error same
  | @ok e e' n trees =>
      have behind := List.forall₂_drop n kinds
      simp only [bind, Except.bind]
      match tokens.drop n, tokens'.drop n, behind with
      | [], [], _ => exact congrArg Except.ok trees
      | t :: _, t' :: _, .cons head _ =>
          have ends : t.isEnd = t'.isEnd := congrArg (· == TokenKind.endOfText) head
          simp only
          rw [ends]
          split
          · exact congrArg Except.ok trees
          · exact congrArg (Except.error ∘ ParseError.unexpectedToken) head.unplaced

end Expr

/-- The kinds of the tokens, or what kind of error there is instead. -/
def Token.kinds (scanned : Except LexError (List Token)) : Except LexError (List TokenKind) :=
  (scanned.map (List.map kind)).mapError LexError.unplaced

namespace Expr

/-- What is read from a text, apart from places: a tree without its tokens, or what kind of error
there is. -/
def reading (text : String) : Except Fault Expr := ((ofText text).map bare).mapError ExprError.kind

theorem reading_of_tokens {text : String} {tokens : List Token}
    (scanned : Token.ofText text.toList = .ok tokens) :
    reading text =
      (((ofTokens tokens).map bare).mapError ParseError.unplaced).mapError Fault.parse := by
  unfold reading ofText tokenize
  rw [scanned]
  change (Except.map bare ((ofTokens tokens).mapError _)).mapError _ = _
  cases ofTokens tokens with
  | error e => rfl
  | ok e => rfl

theorem reading_of_lexError {text : String} {e : LexError}
    (failed : Token.ofText text.toList = .error e) : reading text = .error (.lex e.unplaced) := by
  unfold reading ofText tokenize
  rw [failed]
  rfl

theorem reading_eq_of_kinds {text text' : String}
    (same : Token.kinds (Token.ofText text.toList) = Token.kinds (Token.ofText text'.toList)) :
    reading text = reading text' := by
  cases scanned : Token.ofText text.toList with
  | error e =>
      cases scanned' : Token.ofText text'.toList with
      | error e' =>
          rw [scanned, scanned'] at same
          have kinds : e.unplaced = e'.unplaced := Except.error.inj same
          rw [reading_of_lexError scanned, reading_of_lexError scanned', kinds]
      | ok tokens' =>
          rw [scanned, scanned'] at same
          cases same
  | ok tokens =>
      cases scanned' : Token.ofText text'.toList with
      | error e' =>
          rw [scanned, scanned'] at same
          cases same
      | ok tokens' =>
          rw [scanned, scanned'] at same
          have kinds : tokens.map Token.kind = tokens'.map Token.kind := Except.ok.inj same
          rw [← List.forall₂_eq_eq_eq, List.forall₂_map_left_iff, List.forall₂_map_right_iff]
            at kinds
          rw [reading_of_tokens scanned, reading_of_tokens scanned', alike_ofTokens kinds]

/-- Texts from which the same is read mean the same. -/
theorem sameMeaning_of_reading_eq {text text' : String} (same : reading text = reading text')
    (mode : Mode) (subject : Record) :
    SameMeaning (evaluateText mode subject text) (evaluateText mode subject text') := by
  unfold reading at same
  cases parsed : ofText text with
  | error e =>
      cases parsed' : ofText text' with
      | error e' =>
          rw [parsed, parsed'] at same
          have kinds : e.kind = e'.kind := Except.error.inj same
          apply sameMeaning_of_kinds
          rw [evaluateText_of_unparsed parsed, evaluateText_of_unparsed parsed']
          exact congrArg (Dialogue.done ∘ Except.error) kinds
      | ok tree' =>
          rw [parsed, parsed'] at same
          cases same
  | ok tree =>
      cases parsed' : ofText text' with
      | error e' =>
          rw [parsed, parsed'] at same
          cases same
      | ok tree' =>
          rw [parsed, parsed'] at same
          exact sameMeaning_of_bare_eq parsed parsed' (Except.ok.inj same) mode subject

end Expr

end RecordExpr
