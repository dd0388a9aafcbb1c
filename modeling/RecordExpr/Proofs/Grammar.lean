import RecordExpr.Proofs.Spelling

set_option autoImplicit false

namespace RecordExpr

inductive Phrase where
  | expr
  | operations
  | unary
  | access
  | names
  | primary
  | arguments

/-- These tokens are a phrase of this kind, in the grammar without precedences. -/
inductive Derives : Phrase → List Token → Prop where
  | expr {first more : List Token} (operand : Derives .unary first)
      (operations : Derives .operations more) : Derives .expr (first ++ more)
  | noOperation : Derives .operations []
  | operation {token : Token} {op : BinaryOp} {next more : List Token}
      (isOp : token.kind = .operator op) (operand : Derives .unary next)
      (operations : Derives .operations more) : Derives .operations (token :: (next ++ more))
  | negate {token : Token} {operand : List Token} (isMinus : token.kind = .operator .subtract)
      (inside : Derives .unary operand) : Derives .unary (token :: operand)
  | not {token : Token} {operand : List Token} (isNot : token.kind = .not)
      (inside : Derives .unary operand) : Derives .unary (token :: operand)
  | operand {tokens : List Token} (inside : Derives .access tokens) : Derives .unary tokens
  | access {target more : List Token} (primary : Derives .primary target)
      (names : Derives .names more) : Derives .access (target ++ more)
  | noName : Derives .names []
  | name {dot name : Token} {attributeName : String} {more : List Token} (isDot : dot.kind = .dot)
      (isName : Expr.attribute? name.kind = some attributeName) (names : Derives .names more) :
      Derives .names (dot :: name :: more)
  | literal {token : Token} {l : Literal} (isLiteral : token.kind = .literal l) :
      Derives .primary [token]
  | field {token : Token} {name : String} (isField : token.kind = .field name) :
      Derives .primary [token]
  | word {token : Token} {name : String} (isWord : token.kind = .word name) :
      Derives .primary [token]
  | emptyCall {token left right : Token} {name : String} (isWord : token.kind = .word name)
      (isLeft : left.kind = .leftParen) (isRight : right.kind = .rightParen) :
      Derives .primary [token, left, right]
  | call {token left right : Token} {name : String} {inner : List Token}
      (isWord : token.kind = .word name) (isLeft : left.kind = .leftParen)
      (arguments : Derives .arguments inner) (isRight : right.kind = .rightParen) :
      Derives .primary (token :: left :: (inner ++ [right]))
  | group {left right : Token} {inner : List Token} (isLeft : left.kind = .leftParen)
      (inside : Derives .expr inner) (isRight : right.kind = .rightParen) :
      Derives .primary (left :: (inner ++ [right]))
  | argument {tokens : List Token} (inside : Derives .expr tokens) : Derives .arguments tokens
  | moreArguments {comma : Token} {first more : List Token} (inside : Derives .expr first)
      (isComma : comma.kind = .comma) (arguments : Derives .arguments more) :
      Derives .arguments (first ++ comma :: more)

/-- Leaves no trace in a tree: groups, separates, or ends the text. -/
def TokenKind.isPunctuation : TokenKind → Bool
  | .leftParen | .rightParen | .comma | .dot | .endOfText => true
  | _ => false

/-- The kinds of these tokens without punctuation. -/
def Token.shown (tokens : List Token) : List TokenKind :=
  (tokens.map Token.kind).filter fun kind => !kind.isPunctuation

namespace Expr

mutual

/-- The kinds of the tree's tokens in order: an operator between its operands, what stands in front
of what it applies to, and the name of an attribute behind its target. -/
def walk : Expr → List TokenKind
  | literal t _ => [t.kind]
  | field t _ => [t.kind]
  | member t target _ => target.walk ++ [t.kind]
  | call t _ args => t.kind :: walks args
  | unary t _ operand => t.kind :: operand.walk
  | binary t _ lhs rhs => lhs.walk ++ t.kind :: rhs.walk

def walks : List Expr → List TokenKind
  | [] => []
  | e :: rest => e.walk ++ walks rest

end

theorem walks_singleton (e : Expr) : walks [e] = e.walk := by
  rw [walks, walks, List.append_nil]

/-- Every node agrees with its token. -/
inductive Labelled : Expr → Prop where
  | literal {token : Token} {l : Literal} (label : token.kind = .literal l) :
      Labelled (literal token l)
  | field {token : Token} {name : String} (label : attribute? token.kind = some name) :
      Labelled (field token name)
  | member {token : Token} {target : Expr} {name : String}
      (label : attribute? token.kind = some name) (inside : Labelled target) :
      Labelled (member token target name)
  | call {token : Token} {name : String} {args : List Expr} (label : token.kind = .word name)
      (inside : ∀ arg ∈ args, Labelled arg) : Labelled (call token name args)
  | negate {token : Token} {operand : Expr} (label : token.kind = .operator .subtract)
      (inside : Labelled operand) : Labelled (unary token .negate operand)
  | not {token : Token} {operand : Expr} (label : token.kind = .not)
      (inside : Labelled operand) : Labelled (unary token .not operand)
  | binary {token : Token} {op : BinaryOp} {lhs rhs : Expr} (label : token.kind = .operator op)
      (left : Labelled lhs) (right : Labelled rhs) : Labelled (binary token op lhs rhs)

end Expr

namespace Derives

variable {token : Token} {front back : List Token}

/-- The parts of an expression. -/
theorem expr_parts (derives : Derives .expr front) :
    ∃ first more, front = first ++ more ∧ Derives .unary first ∧ Derives .operations more := by
  cases derives with
  | expr operand operations => exact ⟨_, _, rfl, operand, operations⟩

theorem operations_append (earlier : Derives .operations front)
    (later : Derives .operations back) : Derives .operations (front ++ back) := by
  generalize isOperations : Phrase.operations = phrase at earlier
  induction earlier with
  | noOperation => exact later
  | operation isOp operand _ _ ih =>
      rw [List.cons_append, List.append_assoc]
      exact .operation isOp operand (ih rfl)
  | _ => cases isOperations

/-- An expression takes in the operators behind it. -/
theorem expr_append (inside : Derives .expr front) (later : Derives .operations back) :
    Derives .expr (front ++ back) := by
  obtain ⟨first, more, rfl, operand, operations⟩ := inside.expr_parts
  rw [List.append_assoc]
  exact .expr operand (operations.operations_append later)

theorem operations_of_expr {op : BinaryOp} (isOp : token.kind = .operator op)
    (inside : Derives .expr front) : Derives .operations (token :: front) := by
  obtain ⟨first, more, rfl, operand, operations⟩ := inside.expr_parts
  exact .operation isOp operand operations

/-- What stands in front of an expression stands in front of its first operand. -/
theorem negate_of_expr (isMinus : token.kind = .operator .subtract)
    (inside : Derives .expr front) : Derives .expr (token :: front) := by
  obtain ⟨first, more, rfl, operand, operations⟩ := inside.expr_parts
  exact .expr (.negate isMinus operand) operations

theorem not_of_expr (isNot : token.kind = .not) (inside : Derives .expr front) :
    Derives .expr (token :: front) := by
  obtain ⟨first, more, rfl, operand, operations⟩ := inside.expr_parts
  exact .expr (.not isNot operand) operations

theorem expr_of_primary (inside : Derives .primary front) : Derives .expr front := by
  have access : Derives .access (front ++ []) := .access inside .noName
  have whole : Derives .expr ((front ++ []) ++ []) := .expr (.operand access) .noOperation
  rwa [List.append_nil, List.append_nil] at whole

theorem names_append (earlier : Derives .names front) (later : Derives .names back) :
    Derives .names (front ++ back) := by
  generalize isNames : Phrase.names = phrase at earlier
  induction earlier with
  | noName => exact later
  | name isDot isName _ ih => exact .name isDot isName (ih rfl)
  | _ => cases isNames

/-- Names behind a phrase belong to its last operand. -/
theorem unary_names (inside : Derives .unary front) (names : Derives .names back) :
    Derives .unary (front ++ back) := by
  generalize isUnary : Phrase.unary = phrase at inside
  induction inside with
  | negate isMinus _ ih => exact .negate isMinus (ih rfl)
  | not isNot _ ih => exact .not isNot (ih rfl)
  | operand inside =>
      cases inside with
      | access primary more =>
          rw [List.append_assoc]
          exact .operand (.access primary (more.names_append names))
  | _ => cases isUnary

theorem operations_names (inside : Derives .operations front) (names : Derives .names back) :
    front = [] ∨ Derives .operations (front ++ back) := by
  generalize isOperations : Phrase.operations = phrase at inside
  induction inside with
  | noOperation => exact .inl rfl
  | operation isOp operand _ _ ih =>
      right
      rcases ih rfl with rfl | more
      · rw [List.append_nil, List.cons_append, ← List.append_nil (_ ++ back)]
        exact .operation isOp (operand.unary_names names) .noOperation
      · rw [List.cons_append, List.append_assoc]
        exact .operation isOp operand more
  | _ => cases isOperations

theorem expr_names (inside : Derives .expr front) (names : Derives .names back) :
    Derives .expr (front ++ back) := by
  obtain ⟨first, more, rfl, operand, operations⟩ := inside.expr_parts
  rcases operations.operations_names names with rfl | further
  · rw [List.append_nil, ← List.append_nil (first ++ back)]
    exact .expr (operand.unary_names names) .noOperation
  · rw [List.append_assoc]
    exact .expr operand further

end Derives

namespace Token

variable {first more : List Token}

theorem shown_append (first more : List Token) :
    shown (first ++ more) = shown first ++ shown more := by
  rw [shown, List.map_append, List.filter_append]
  rfl

theorem shown_cons_of_punctuation {token : Token} (hidden : token.kind.isPunctuation = true)
    (more : List Token) : shown (token :: more) = shown more := by
  rw [shown, List.map_cons, List.filter_cons_of_neg (by rw [hidden]; decide)]
  rfl

theorem shown_cons {token : Token} (visible : token.kind.isPunctuation = false)
    (more : List Token) : shown (token :: more) = token.kind :: shown more := by
  rw [shown, List.map_cons, List.filter_cons_of_pos (by rw [visible]; rfl)]
  rfl

/-- Parentheses leave no trace. -/
theorem shown_parens {left right : Token} (isLeft : left.kind = .leftParen)
    (isRight : right.kind = .rightParen) (inner : List Token) :
    shown (left :: (inner ++ [right])) = shown inner := by
  rw [shown_cons_of_punctuation (by rw [isLeft]; rfl), shown_append,
    shown_cons_of_punctuation (by rw [isRight]; rfl)]
  exact List.append_nil _

end Token

namespace Expr

/-- The first so many tokens are a phrase, of which these kinds are shown. -/
def Takes (phrase : Phrase) (tokens : List Token) (n : Nat) (kinds : List TokenKind) : Prop :=
  ∃ taken rest, tokens = taken ++ rest ∧ taken.length = n ∧ Derives phrase taken ∧
    Token.shown taken = kinds

theorem isPunctuation_of_attribute? {kind : TokenKind} {name : String}
    (label : attribute? kind = some name) : kind.isPunctuation = false := by
  cases kind with
  | word | field => rfl
  | _ => cases label

/-- The phrase that such tokens are: for one tree an expression, for several of them arguments. -/
def Phrased (tokens : List Token) : List Expr → Prop
  | [] => tokens = []
  | [_] => Derives .expr tokens
  | _ :: _ :: _ => Derives .arguments tokens

theorem Phrased.arguments {tokens : List Token} {args : List Expr} (phrased : Phrased tokens args) :
    tokens = [] ∧ args = [] ∨ Derives .arguments tokens := by
  rcases args with _ | ⟨first, _ | ⟨next, rest⟩⟩
  · exact .inl ⟨phrased, rfl⟩
  · exact .inr (.argument phrased)
  · exact .inr phrased

namespace Spells

variable {tokens : List Token} {es : List Expr}

/-- The tokens of a tree are an expression. -/
theorem phrased (spells : Spells tokens es) : Phrased tokens es := by
  induction spells with
  | nothing => rfl
  | literal isLiteral => exact .expr_of_primary (.literal isLiteral)
  | @field token name isName =>
      cases kind : token.kind with
      | word word => exact .expr_of_primary (.word kind)
      | field word => exact .expr_of_primary (.field kind)
      | _ =>
          rw [kind] at isName
          cases isName
  | member _ isDot isName ih => exact Derives.expr_names ih (.name isDot isName .noName)
  | call isWord isLeft _ isRight ih =>
      apply Derives.expr_of_primary
      rcases ih.arguments with ⟨rfl, -⟩ | arguments
      · exact .emptyCall isWord isLeft isRight
      · exact .call isWord isLeft arguments isRight
  | negate isMinus _ ih => exact Derives.negate_of_expr isMinus ih
  | not isNot _ ih => exact Derives.not_of_expr isNot ih
  | binary _ isOp _ left right =>
      exact Derives.expr_append left (Derives.operations_of_expr isOp right)
  | group isLeft _ isRight ih => exact .expr_of_primary (.group isLeft ih isRight)
  | comma _ isComma _ first others =>
      rcases others.arguments with ⟨-, none⟩ | arguments
      · cases none
      · exact .moreArguments first isComma arguments

/-- Walked through in order, the trees show their tokens. -/
theorem shown (spells : Spells tokens es) : Token.shown tokens = walks es := by
  induction spells with
  | nothing => rfl
  | @literal token l isLiteral =>
      rw [Token.shown_cons (by rw [isLiteral]; rfl)]
      rfl
  | field isName =>
      rw [Token.shown_cons (isPunctuation_of_attribute? isName)]
      rfl
  | @member front target dot name attributeName _ isDot isName ih =>
      rw [Token.shown_append, ih, Token.shown_cons_of_punctuation (by rw [isDot]; rfl),
        Token.shown_cons (isPunctuation_of_attribute? isName), walks_singleton, walks_singleton,
        walk]
      rfl
  | call isWord isLeft _ isRight ih =>
      rw [Token.shown_cons (by rw [isWord]; rfl), Token.shown_parens isLeft isRight, ih,
        walks_singleton, walk]
  | negate isMinus _ ih =>
      rw [Token.shown_cons (by rw [isMinus]; rfl), ih]
      rfl
  | not isNot _ ih =>
      rw [Token.shown_cons (by rw [isNot]; rfl), ih]
      rfl
  | binary _ isOp _ left right =>
      rw [Token.shown_append, Token.shown_cons (by rw [isOp]; rfl), left, right, walks_singleton,
        walks_singleton, walks_singleton, walk]
  | group isLeft _ isRight ih => rw [Token.shown_parens isLeft isRight, ih]
  | comma _ isComma _ first others =>
      rw [Token.shown_append, Token.shown_cons_of_punctuation (by rw [isComma]; rfl), first, others,
        walks_singleton]
      rfl

theorem labelled (spells : Spells tokens es) : ∀ e ∈ es, e.Labelled := by
  induction spells with
  | nothing => exact nofun
  | literal isLiteral => exact List.forall_mem_singleton.mpr (.literal isLiteral)
  | field isName => exact List.forall_mem_singleton.mpr (.field isName)
  | member _ _ isName ih =>
      exact List.forall_mem_singleton.mpr (.member isName (List.forall_mem_singleton.mp ih))
  | call isWord _ _ _ ih => exact List.forall_mem_singleton.mpr (.call isWord ih)
  | negate isMinus _ ih =>
      exact List.forall_mem_singleton.mpr (.negate isMinus (List.forall_mem_singleton.mp ih))
  | not isNot _ ih =>
      exact List.forall_mem_singleton.mpr (.not isNot (List.forall_mem_singleton.mp ih))
  | binary _ isOp _ left right =>
      exact List.forall_mem_singleton.mpr (.binary isOp (List.forall_mem_singleton.mp left)
        (List.forall_mem_singleton.mp right))
  | group _ _ _ ih => exact ih
  | comma _ _ _ first others =>
      exact List.forall_mem_cons.mpr ⟨List.forall_mem_singleton.mp first, others⟩

end Spells

/-- What the parser takes is an expression, which shows what the tree does. -/
theorem parseExpr_takes {strength n : Nat} {tokens : List Token} {e : Expr}
    (parsed : parseExpr strength tokens = .ok (e, n)) :
    Takes .expr tokens n e.walk ∧ e.Labelled := by
  obtain ⟨taken, rest, split, count, spells⟩ := parseExpr_spelled parsed
  have shows : Token.shown taken = e.walk := by
    rw [spells.shown, walks_singleton]
  exact ⟨⟨taken, rest, split, count, spells.phrased, shows⟩, spells.labelled e List.mem_cons_self⟩

end Expr

end RecordExpr
