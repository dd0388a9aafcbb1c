import RecordExpr.Syntax.Expr

set_option autoImplicit false

namespace RecordExpr

/-- Why tokens make no expression, each with the token that shows it. -/
inductive ParseError where
  | unexpectedToken (token : Token)
  | unexpectedEnd (token : Token)
  | expectedClosingParen (token : Token)
  | expectedAttributeName (token : Token)
deriving DecidableEq

namespace ParseError

def token : ParseError → Token
  | unexpectedToken token => token
  | unexpectedEnd token => token
  | expectedClosingParen token => token
  | expectedAttributeName token => token

/-- The token in a message. -/
private def shown (token : Token) : String :=
  "\x60" ++ (if token.isEnd then "EOF" else token.text) ++ "\x60"

def message : ParseError → String
  | unexpectedToken token => "Unexpected token " ++ shown token
  | unexpectedEnd _ => "Unexpected EOF detected"
  | expectedClosingParen token =>
    "Expected a closing parenthesis \x60)\x60 but got " ++ shown token ++ " delimiter"
  | expectedAttributeName token =>
    "Expected an attribute name after \x60.\x60 but got " ++ shown token

/-- A closing parenthesis was due where this token stands. -/
def atDelimiter (token : Token) : ParseError :=
  if token.isEnd then unexpectedEnd token else expectedClosingParen token

end ParseError

namespace Expr

/-- A tree and the number of tokens it takes. -/
abbrev Parsed := Except ParseError (Expr × Nat)

/-- Strength from which on operators belong to the operand of a `not`. -/
def notStrength : Nat := 3

/-- The accesses to attributes behind a tree, as a tree. -/
def parseMembers (target : Expr) : List Token → Parsed
  | [] => .ok (target, 0)
  | [dot] => if dot.kind = .dot then .error (.unexpectedEnd Token.missing) else .ok (target, 0)
  | dot :: name :: rest =>
    if dot.kind = .dot then
      let token : Token := ⟨name.kind, dot.range.merge name.range⟩
      let next (attributeName : String) : Parsed := do
        let (e, n) ← parseMembers (member token target attributeName) rest
        return (e, n + 2)
      match name.kind with
      | .word attributeName => next attributeName
      | .field attributeName => next attributeName
      | _ => .error (.expectedAttributeName name)
    else .ok (target, 0)

mutual

/-- An operand with the operators behind it that are at least this strong. -/
def parseExpr (strength : Nat) (tokens : List Token) : Parsed := do
  let (first, n) ← parseOperand tokens
  let (e, m) ← parseOperators strength first (tokens.drop n)
  return (e, n + m)
-- One token less outweighs every call of one of these functions by another on the same tokens.
termination_by 6 * tokens.length + 3
decreasing_by
  · omega
  · rw [List.length_drop]
    omega

/-- The operators behind `lhs` that are at least this strong, with their operands. -/
def parseOperators (strength : Nat) (lhs : Expr) : List Token → Parsed
  | [] => .ok (lhs, 0)
  | token :: rest =>
    match token.kind with
    | .operator op =>
      if strength ≤ op.strength then do
        let (first, n) ← parseOperand rest
        let (rhs, m) ← parseStronger op.strength first (rest.drop n)
        let (e, k) ← parseOperators strength (binary token op lhs rhs) (rest.drop (n + m))
        return (e, n + m + k + 1)
      else .ok (lhs, 0)
    | _ => .ok (lhs, 0)
termination_by tokens => 6 * tokens.length + 2

/-- The right operand of an operator of this strength, with the operators behind it that are
stronger. Each turn takes those that are at least as strong as the first one that is left. -/
def parseStronger (strength : Nat) (rhs : Expr) : List Token → Parsed
  | [] => .ok (rhs, 0)
  | token :: rest =>
    match token.kind with
    | .operator next =>
      if strength < next.strength then do
        let (e, n) ← parseOperators next.strength rhs (token :: rest)
        -- at least `token` has been taken
        let (e, m) ← parseStronger strength e (rest.drop (n - 1))
        return (e, n + m)
      else .ok (rhs, 0)
    | _ => .ok (rhs, 0)
termination_by tokens => 6 * tokens.length + 3
decreasing_by
  · exact Nat.lt_succ_self _
  · rw [List.length_drop, List.length_cons]
    omega

/-- A primary expression with its attribute accesses, or an operator in front of an operand. -/
def parseOperand : List Token → Parsed
  | [] => .error (.unexpectedEnd Token.missing)
  | token :: rest =>
    match token.kind with
    | .operator .subtract => do
      let (operand, n) ← parseOperand rest
      return (unary token .negate operand, n + 1)
    | .not => do
      let (operand, n) ← parseExpr notStrength rest
      return (unary token .not operand, n + 1)
    | _ => do
      let (target, n) ← parsePrimary token rest
      let (e, m) ← parseMembers target (rest.drop n)
      return (e, n + m + 1)
termination_by tokens => 6 * tokens.length + 2

/-- The primary expression that begins with `token`; counts the tokens behind that one. -/
def parsePrimary (token : Token) (rest : List Token) : Parsed :=
  match token.kind with
  | .literal l => .ok (literal token l, 0)
  | .field name => .ok (field token name, 0)
  | .word name =>
    match rest with
    | [] => .ok (field token name, 0)
    | paren :: inner =>
      if paren.kind = .leftParen then do
        let (args, n) ← parseArguments inner
        return (call token name args, n + 1)
      else .ok (field token name, 0)
  | .leftParen => do
    let (e, n) ← parseExpr 1 rest
    match rest.drop n with
    | [] => .error (.unexpectedEnd Token.missing)
    | close :: _ =>
      if close.kind = .rightParen then return (e, n + 1) else .error (.atDelimiter close)
  | .endOfText => .error (.unexpectedEnd token)
  | _ => .error (.unexpectedToken token)
termination_by 6 * rest.length + 4

/-- The arguments of a call behind its opening parenthesis, and the tokens they take together with
the closing one. -/
def parseArguments (tokens : List Token) : Except ParseError (List Expr × Nat) :=
  match tokens with
  | [] => parseMoreArguments []
  | token :: rest =>
    if token.kind = .rightParen then .ok ([], 1) else parseMoreArguments (token :: rest)
termination_by 6 * tokens.length + 5

/-- One or more arguments with commas between them, and the closing parenthesis. -/
def parseMoreArguments (tokens : List Token) : Except ParseError (List Expr × Nat) := do
  let (first, n) ← parseExpr 1 tokens
  match rest_eq : tokens.drop n with
  | [] => .error (.unexpectedEnd Token.missing)
  | delimiter :: rest =>
    have shorter : rest.length < tokens.length := by
      have := congrArg List.length rest_eq
      simp only [List.length_drop, List.length_cons] at this
      omega
    if delimiter.kind = .comma then do
      let (more, m) ← parseMoreArguments rest
      return (first :: more, n + m + 1)
    else if delimiter.kind = .rightParen then return ([first], n + 1)
    else .error (.atDelimiter delimiter)
termination_by 6 * tokens.length + 4

end

/-- The tree of a list of tokens, which has to be read to its end. -/
def ofTokens (tokens : List Token) : Except ParseError Expr := do
  let (e, n) ← parseExpr 1 tokens
  match tokens.drop n with
  | [] => .ok e
  | token :: _ => if token.isEnd then .ok e else .error (.unexpectedToken token)

end Expr

end RecordExpr
