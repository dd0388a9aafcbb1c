import RecordExpr.Syntax.Parser

set_option autoImplicit false

namespace RecordExpr

/-- A computation that succeeds goes through a first part that does. -/
private theorem bind_eq_ok {ε α β : Type} {x : Except ε α} {f : α → Except ε β} {b : β} :
    (x >>= f) = .ok b ↔ ∃ a, x = .ok a ∧ f a = .ok b := by
  cases x with
  | error e =>
      constructor
      · intro impossible
        cases impossible
      · rintro ⟨_, impossible, -⟩
        cases impossible
  | ok a =>
      constructor
      · exact fun rest => ⟨a, rfl, rest⟩
      · rintro ⟨_, ⟨rfl⟩, rest⟩
        exact rest

/-- One reader whose tree goes into another, with so many tokens more. -/
private theorem map_eq_ok {ε α β : Type} (x : Except ε (α × Nat)) (f : α → β) (extra : Nat)
    {n : Nat} {b : β} :
    (do
      let (a, k) ← x
      return (f a, k + extra)) = .ok (b, n) ↔
      ∃ a k, x = .ok (a, k) ∧ f a = b ∧ k + extra = n := by
  rw [bind_eq_ok]
  constructor
  · rintro ⟨⟨a, k⟩, parsed, ⟨rfl, rfl⟩⟩
    exact ⟨a, k, parsed, rfl, rfl⟩
  · rintro ⟨a, k, parsed, rfl, rfl⟩
    exact ⟨(a, k), parsed, rfl⟩

/-- One reader alone, with so many tokens more. -/
private theorem more_eq_ok {ε α : Type} (x : Except ε (α × Nat)) (extra : Nat) {n : Nat} {a : α} :
    (do
      let (a, k) ← x
      return (a, k + extra)) = .ok (a, n) ↔ ∃ k, x = .ok (a, k) ∧ k + extra = n := by
  refine (map_eq_ok x id extra).trans ?_
  constructor
  · rintro ⟨_, k, parsed, rfl, count⟩
    exact ⟨k, parsed, count⟩
  · rintro ⟨k, parsed, count⟩
    exact ⟨a, k, parsed, rfl, count⟩

/-- Two readers one after the other, with so many tokens more. -/
private theorem chain_eq_ok {ε α β : Type} (x : Except ε (α × Nat))
    (next : α → Nat → Except ε (β × Nat)) (extra : Nat) {n : Nat} {b : β} :
    (do
      let (a, k) ← x
      let (b, m) ← next a k
      return (b, k + m + extra)) = .ok (b, n) ↔
      ∃ a k m, x = .ok (a, k) ∧ next a k = .ok (b, m) ∧ k + m + extra = n := by
  rw [bind_eq_ok]
  constructor
  · rintro ⟨⟨a, k⟩, first, later⟩
    obtain ⟨⟨_, m⟩, second, ⟨rfl⟩⟩ := bind_eq_ok.mp later
    exact ⟨a, k, m, first, second, rfl⟩
  · rintro ⟨a, k, m, first, second, rfl⟩
    exact ⟨(a, k), first, bind_eq_ok.mpr ⟨(b, m), second, rfl⟩⟩

namespace Expr

variable {strength n : Nat} {tokens rest : List Token} {token : Token} {target lhs e : Expr}
  {args : List Expr}

/-- Behind a tree no attribute access begins here. -/
def NoDot (tokens : List Token) : Prop := ∀ token ∈ tokens.head?, token.kind ≠ .dot

theorem parseMembers_of_noDot (target : Expr) (noDot : NoDot tokens) :
    parseMembers target tokens = .ok (target, 0) := by
  match tokens with
  | [] => rfl
  | [dot] => rw [parseMembers, if_neg (noDot dot rfl)]
  | dot :: name :: rest => rw [parseMembers, if_neg (noDot dot rfl)]

/-- The token of an access to an attribute. -/
def accessToken (dot name : Token) : Token := ⟨name.kind, dot.range.merge name.range⟩

/-- The name behind a dot: a word, or a name in braces. -/
def attribute? : TokenKind → Option String
  | .word name => some name
  | .field name => some name
  | _ => none

theorem parseMembers_dot_eq_ok {dot name : Token} (isDot : dot.kind = .dot) :
    parseMembers target (dot :: name :: rest) = .ok (e, n) ↔
      ∃ attributeName, attribute? name.kind = some attributeName ∧ ∃ m,
        parseMembers (member (accessToken dot name) target attributeName) rest = .ok (e, m) ∧
        m + 2 = n := by
  rw [parseMembers, if_pos isDot]
  cases kind : name.kind with
  | word attributeName =>
      refine (more_eq_ok (parseMembers (member _ target attributeName) rest) 2).trans ?_
      simp only [attribute?, accessToken, kind, Option.some.injEq, exists_eq_left']
  | field attributeName =>
      refine (more_eq_ok (parseMembers (member _ target attributeName) rest) 2).trans ?_
      simp only [attribute?, accessToken, kind, Option.some.injEq, exists_eq_left']
  | _ => simp [attribute?]

/-- The accesses come to an end, or there is one more. -/
theorem noDot_or_dot (parsed : parseMembers target tokens = .ok (e, n)) :
    NoDot tokens ∨ ∃ dot name rest, tokens = dot :: name :: rest ∧ dot.kind = .dot := by
  match tokens with
  | [] =>
      left
      rintro _ ⟨⟩
  | [dot] =>
      by_cases isDot : dot.kind = .dot
      · rw [parseMembers, if_pos isDot] at parsed
        cases parsed
      · left
        rintro _ ⟨rfl⟩
        exact isDot
  | dot :: name :: rest =>
      by_cases isDot : dot.kind = .dot
      · exact .inr ⟨dot, name, rest, rfl, isDot⟩
      · left
        rintro _ ⟨rfl⟩
        exact isDot

theorem parseExpr_eq_ok :
    parseExpr strength tokens = .ok (e, n) ↔
      ∃ first k m, parseOperand tokens = .ok (first, k) ∧
        parseOperators strength first (tokens.drop k) = .ok (e, m) ∧ k + m = n := by
  rw [parseExpr]
  exact chain_eq_ok (parseOperand tokens)
    (fun first k => parseOperators strength first (tokens.drop k)) 0

/-- No operator that is at least this strong stands here. -/
def Stops (strength : Nat) (tokens : List Token) : Prop :=
  ∀ token ∈ tokens.head?, ∀ op, token.kind = .operator op → op.strength < strength

/-- No operator is too weak for the outermost reader. -/
theorem one_le_strength (op : BinaryOp) : 1 ≤ op.strength := by
  cases op with
  | _ => exact Nat.le_of_ble_eq_true rfl

theorem parseOperators_of_stops (lhs : Expr) (stops : Stops strength tokens) :
    parseOperators strength lhs tokens = .ok (lhs, 0) := by
  match tokens with
  | [] => rw [parseOperators]
  | token :: rest =>
      rw [parseOperators]
      cases kind : token.kind with
      | operator op => exact if_neg (Nat.not_le.mpr (stops token rfl op kind))
      | _ => rfl

/-- The operators come to an end, or there is one more. -/
theorem stops_or_operator (strength : Nat) (tokens : List Token) :
    Stops strength tokens ∨ ∃ token op rest, tokens = token :: rest ∧ token.kind = .operator op ∧
      strength ≤ op.strength := by
  match tokens with
  | [] => exact .inl (by intro _ impossible; cases impossible)
  | token :: rest =>
      by_cases strong : ∃ op, token.kind = .operator op ∧ strength ≤ op.strength
      · obtain ⟨op, isOp, strong⟩ := strong
        exact .inr ⟨token, op, rest, rfl, isOp, strong⟩
      · left
        rintro _ ⟨rfl⟩ op isOp
        exact Nat.not_le.mp fun enough => strong ⟨op, isOp, enough⟩

theorem parseOperators_operator {op : BinaryOp} (isOp : token.kind = .operator op)
    (strong : strength ≤ op.strength) (lhs : Expr) (rest : List Token) :
    parseOperators strength lhs (token :: rest) = do
      let (first, n) ← parseOperand rest
      let (rhs, m) ← parseStronger op.strength first (rest.drop n)
      let (e, k) ← parseOperators strength (binary token op lhs rhs) (rest.drop (n + m))
      return (e, n + m + k + 1) := by
  rw [parseOperators, isOp]
  simp only [if_pos strong]

theorem parseStronger_operator {op : BinaryOp} (isOp : token.kind = .operator op)
    (stronger : strength < op.strength) (rhs : Expr) (rest : List Token) :
    parseStronger strength rhs (token :: rest) = do
      let (e, n) ← parseOperators op.strength rhs (token :: rest)
      let (e, m) ← parseStronger strength e (rest.drop (n - 1))
      return (e, n + m) := by
  rw [parseStronger, isOp]
  simp only [if_pos stronger]

theorem parseStronger_of_stops (rhs : Expr) (stops : Stops (strength + 1) tokens) :
    parseStronger strength rhs tokens = .ok (rhs, 0) := by
  match tokens with
  | [] => rw [parseStronger]
  | token :: rest =>
      rw [parseStronger]
      cases kind : token.kind with
      | operator op =>
          have weak : op.strength < strength + 1 := stops token rfl op kind
          exact if_neg (by omega)
      | _ => rfl

/-- An operator that is strong enough is taken. -/
theorem parseOperators_pos {op : BinaryOp} (isOp : token.kind = .operator op)
    (strong : strength ≤ op.strength)
    (parsed : parseOperators strength lhs (token :: rest) = .ok (e, n)) : 0 < n := by
  rw [parseOperators_operator isOp strong] at parsed
  obtain ⟨_, -, parsed⟩ := bind_eq_ok.mp parsed
  obtain ⟨_, -, parsed⟩ := bind_eq_ok.mp parsed
  obtain ⟨_, -, last⟩ := bind_eq_ok.mp parsed
  cases last
  exact Nat.succ_pos _

/-- Operators can be read in two turns: first those that are stronger, then the others behind
them. -/
theorem parseOperators_split {weak strong : Nat} (weaker : weak ≤ strong) (lhs : Expr)
    (tokens : List Token) :
    parseOperators weak lhs tokens = do
      let (e, n) ← parseOperators strong lhs tokens
      let (e, m) ← parseOperators weak e (tokens.drop n)
      return (e, n + m) := by
  rcases stops_or_operator strong tokens with stops | ⟨token, op, rest, split, isOp, enough⟩
  · rw [parseOperators_of_stops lhs stops]
    show _ = do
      let (e, m) ← parseOperators weak lhs tokens
      return (e, 0 + m)
    cases parseOperators weak lhs tokens with
    | error problem => rfl
    | ok parsed => simp only [Nat.zero_add]; rfl
  · have shorter : rest.length < tokens.length := by
      rw [split]
      exact Nat.lt_succ_self _
    rw [split, parseOperators_operator isOp (Nat.le_trans weaker enough),
      parseOperators_operator isOp enough]
    simp only [bind_assoc, pure_bind]
    apply bind_congr
    intro operand
    apply bind_congr
    intro absorbed
    rw [parseOperators_split weaker]
    simp only [bind_assoc, pure_bind]
    apply bind_congr
    intro others
    have behind : (token :: rest).drop (operand.2 + absorbed.2 + others.2 + 1) =
        (rest.drop (operand.2 + absorbed.2)).drop others.2 := by
      rw [List.drop_succ_cons, List.drop_drop]
    rw [behind]
    apply bind_congr
    intro last
    show Except.ok (last.1, _) = Except.ok (last.1, _)
    congr 2
    omega
termination_by tokens.length
decreasing_by
  rw [List.length_drop]
  omega

/-- An operand takes all operators behind it that are stronger, however many turns that needs. -/
theorem parseStronger_eq (strength : Nat) (rhs : Expr) (tokens : List Token) :
    parseStronger strength rhs tokens = parseOperators (strength + 1) rhs tokens := by
  rcases stops_or_operator (strength + 1) tokens with
    stops | ⟨token, op, rest, split, isOp, stronger⟩
  · rw [parseStronger_of_stops rhs stops, parseOperators_of_stops rhs stops]
  · have shorter : rest.length < tokens.length := by
      rw [split]
      exact Nat.lt_succ_self _
    rw [split, parseStronger_operator isOp stronger, parseOperators_split stronger rhs]
    cases parsed : parseOperators op.strength rhs (token :: rest) with
    | error problem => rfl
    | ok taken =>
        obtain ⟨e, n⟩ := taken
        obtain ⟨k, rfl⟩ := Nat.exists_eq_succ_of_ne_zero
          (Nat.ne_of_gt (parseOperators_pos isOp (Nat.le_refl _) parsed))
        show (parseStronger strength e (rest.drop k) >>= _) =
          (parseOperators (strength + 1) e (rest.drop k) >>= _)
        rw [parseStronger_eq strength e (rest.drop k)]
termination_by tokens.length
decreasing_by
  rw [List.length_drop]
  omega

theorem parseOperators_operator_eq_ok {op : BinaryOp} (isOp : token.kind = .operator op)
    (strong : strength ≤ op.strength) :
    parseOperators strength lhs (token :: rest) = .ok (e, n) ↔
      ∃ rhs k m, parseExpr (op.strength + 1) rest = .ok (rhs, k) ∧
        parseOperators strength (binary token op lhs rhs) (rest.drop k) = .ok (e, m) ∧
        k + m + 1 = n := by
  have grouped : parseOperators strength lhs (token :: rest) = do
      let (rhs, k) ← parseExpr (op.strength + 1) rest
      let (e, m) ← parseOperators strength (binary token op lhs rhs) (rest.drop k)
      return (e, k + m + 1) := by
    rw [parseOperators_operator isOp strong, parseExpr]
    simp only [parseStronger_eq, bind_assoc, pure_bind]
  rw [grouped]
  exact chain_eq_ok (parseExpr (op.strength + 1) rest)
    (fun rhs k => parseOperators strength (binary token op lhs rhs) (rest.drop k)) 1

theorem parseOperand_negate_eq_ok (isMinus : token.kind = .operator .subtract) :
    parseOperand (token :: rest) = .ok (e, n) ↔
      ∃ operand k, parseOperand rest = .ok (operand, k) ∧ unary token .negate operand = e ∧
        k + 1 = n := by
  rw [parseOperand, isMinus]
  exact map_eq_ok (parseOperand rest) (unary token .negate) 1

theorem parseOperand_not_eq_ok (isNot : token.kind = .not) :
    parseOperand (token :: rest) = .ok (e, n) ↔
      ∃ operand k, parseExpr notStrength rest = .ok (operand, k) ∧ unary token .not operand = e ∧
        k + 1 = n := by
  rw [parseOperand, isNot]
  exact map_eq_ok (parseExpr notStrength rest) (unary token .not) 1

theorem parseOperand_primary_eq_ok (notMinus : token.kind ≠ .operator .subtract)
    (notNot : token.kind ≠ .not) :
    parseOperand (token :: rest) = .ok (e, n) ↔
      ∃ target k m, parsePrimary token rest = .ok (target, k) ∧
        parseMembers target (rest.drop k) = .ok (e, m) ∧ k + m + 1 = n := by
  rw [parseOperand]
  split
  · exact absurd ‹_› notMinus
  · exact absurd ‹_› notNot
  · exact chain_eq_ok (parsePrimary token rest)
      (fun target k => parseMembers target (rest.drop k)) 1

theorem parsePrimary_literal {l : Literal} (isLiteral : token.kind = .literal l)
    (rest : List Token) : parsePrimary token rest = .ok (literal token l, 0) := by
  rw [parsePrimary, isLiteral]

theorem parsePrimary_field {name : String} (isField : token.kind = .field name)
    (rest : List Token) : parsePrimary token rest = .ok (field token name, 0) := by
  rw [parsePrimary, isField]

/-- No argument list begins here. -/
def NoParen (tokens : List Token) : Prop := ∀ token ∈ tokens.head?, token.kind ≠ .leftParen

theorem parsePrimary_word {name : String} (isWord : token.kind = .word name)
    (noParen : NoParen rest) : parsePrimary token rest = .ok (field token name, 0) := by
  rw [parsePrimary, isWord]
  match rest with
  | [] => rfl
  | paren :: inner => exact if_neg (noParen paren rfl)

/-- An argument list begins here, or none. -/
theorem noParen_or_paren (tokens : List Token) :
    NoParen tokens ∨ ∃ paren inner, tokens = paren :: inner ∧ paren.kind = .leftParen := by
  match tokens with
  | [] => exact .inl (by intro _ impossible; cases impossible)
  | paren :: inner =>
      by_cases isParen : paren.kind = .leftParen
      · exact .inr ⟨paren, inner, rfl, isParen⟩
      · left
        rintro _ ⟨rfl⟩
        exact isParen

theorem parsePrimary_call_eq_ok {name : String} {paren : Token} (isWord : token.kind = .word name)
    (isParen : paren.kind = .leftParen) :
    parsePrimary token (paren :: rest) = .ok (e, n) ↔
      ∃ args k, parseArguments rest = .ok (args, k) ∧ call token name args = e ∧ k + 1 = n := by
  rw [parsePrimary, isWord]
  simp only [if_pos isParen]
  exact map_eq_ok (parseArguments rest) (call token name) 1

theorem parsePrimary_paren_eq_ok (isParen : token.kind = .leftParen) :
    parsePrimary token rest = .ok (e, n) ↔
      ∃ k close more, parseExpr 1 rest = .ok (e, k) ∧ rest.drop k = close :: more ∧
        close.kind = .rightParen ∧ k + 1 = n := by
  rw [parsePrimary, isParen]
  simp only
  rw [bind_eq_ok]
  constructor
  · rintro ⟨⟨inner, k⟩, parsed, later⟩
    cases left : rest.drop k with
    | nil =>
        simp only [left] at later
        cases later
    | cons close more =>
        simp only [left] at later
        by_cases closes : close.kind = .rightParen
        · rw [if_pos closes] at later
          cases later
          exact ⟨k, close, more, parsed, left, closes, rfl⟩
        · rw [if_neg closes] at later
          cases later
  · rintro ⟨k, close, more, parsed, left, closes, rfl⟩
    refine ⟨(e, k), parsed, ?_⟩
    simp only [left, if_pos closes]
    rfl

/-- No other token begins a primary expression. -/
theorem primary_cases (parsed : parsePrimary token rest = .ok (e, n)) :
    (∃ l, token.kind = .literal l) ∨ (∃ name, token.kind = .field name) ∨
      (∃ name, token.kind = .word name) ∨ token.kind = .leftParen := by
  rw [parsePrimary] at parsed
  cases kind : token.kind with
  | literal l => exact .inl ⟨l, rfl⟩
  | field name => exact .inr (.inl ⟨name, rfl⟩)
  | word name => exact .inr (.inr (.inl ⟨name, rfl⟩))
  | leftParen => exact .inr (.inr (.inr rfl))
  | _ =>
      rw [kind] at parsed
      cases parsed

theorem parseArguments_empty (isParen : token.kind = .rightParen) (rest : List Token) :
    parseArguments (token :: rest) = .ok ([], 1) := by
  rw [parseArguments]
  exact if_pos isParen

theorem parseArguments_of_notEmpty (notParen : ∀ token ∈ tokens.head?, token.kind ≠ .rightParen) :
    parseArguments tokens = parseMoreArguments tokens := by
  match tokens with
  | [] => rw [parseArguments]
  | token :: rest =>
      rw [parseArguments]
      exact if_neg (notParen token rfl)

/-- A call has no arguments, or its arguments are read one after the other. -/
theorem empty_or_more (tokens : List Token) :
    (∃ right rest, tokens = right :: rest ∧ right.kind = .rightParen) ∨
      parseArguments tokens = parseMoreArguments tokens := by
  match tokens with
  | [] => exact .inr (parseArguments_of_notEmpty nofun)
  | token :: rest =>
      by_cases isRight : token.kind = .rightParen
      · exact .inl ⟨token, rest, rfl, isRight⟩
      · right
        apply parseArguments_of_notEmpty
        rintro _ ⟨rfl⟩
        exact isRight

theorem parseMoreArguments_eq_ok :
    parseMoreArguments tokens = .ok (args, n) ↔
      ∃ first k delimiter rest, parseExpr 1 tokens = .ok (first, k) ∧
        tokens.drop k = delimiter :: rest ∧
        (delimiter.kind = .rightParen ∧ args = [first] ∧ k + 1 = n ∨
          delimiter.kind = .comma ∧ ∃ more m, parseMoreArguments rest = .ok (more, m) ∧
            args = first :: more ∧ k + m + 1 = n) := by
  rw [parseMoreArguments, bind_eq_ok]
  constructor
  · rintro ⟨⟨first, k⟩, parsed, later⟩
    simp only at later
    split at later
    · cases later
    · rename_i delimiter rest left
      refine ⟨first, k, delimiter, rest, parsed, left, ?_⟩
      by_cases comma : delimiter.kind = .comma
      · rw [if_pos comma] at later
        obtain ⟨⟨more, m⟩, others, ⟨rfl⟩⟩ := bind_eq_ok.mp later
        exact .inr ⟨comma, more, m, others, rfl, rfl⟩
      · rw [if_neg comma] at later
        by_cases closes : delimiter.kind = .rightParen
        · rw [if_pos closes] at later
          cases later
          exact .inl ⟨closes, rfl, rfl⟩
        · rw [if_neg closes] at later
          cases later
  · rintro ⟨first, k, delimiter, rest, parsed, left, ends⟩
    refine ⟨(first, k), parsed, ?_⟩
    simp only
    split
    · rename_i none
      rw [left] at none
      cases none
    · rename_i delimiter' rest' left'
      obtain ⟨rfl, rfl⟩ := List.cons.inj (left.symm.trans left')
      rcases ends with ⟨closes, rfl, rfl⟩ | ⟨comma, more, m, others, rfl, rfl⟩
      · have noComma : delimiter.kind ≠ .comma := by
          rw [closes]
          decide
        rw [if_neg noComma, if_pos closes]
        rfl
      · rw [if_pos comma]
        exact bind_eq_ok.mpr ⟨(more, m), others, rfl⟩

/-- What may stand behind a whole expression. -/
def Closes (tokens : List Token) : Prop :=
  ∀ token ∈ tokens.head?, token.kind = .rightParen ∨ token.kind = .comma ∨ token.kind = .endOfText

theorem closes_cons
    (closes : token.kind = .rightParen ∨ token.kind = .comma ∨ token.kind = .endOfText)
    (rest : List Token) : Closes (token :: rest) := by
  rintro _ ⟨rfl⟩
  exact closes

namespace Closes

theorem forall_head (closes : Closes rest) (property : TokenKind → Prop)
    (rightParen : property .rightParen) (comma : property .comma)
    (endOfText : property .endOfText) : ∀ token ∈ rest.head?, property token.kind := by
  intro token first
  rcases closes token first with kind | kind | kind
  · rwa [kind]
  · rwa [kind]
  · rwa [kind]

theorem noDot (closes : Closes rest) : NoDot rest :=
  closes.forall_head (· ≠ .dot) (by decide) (by decide) (by decide)

theorem stops (closes : Closes rest) (strength : Nat) : Stops strength rest :=
  closes.forall_head (fun kind => ∀ op, kind = .operator op → op.strength < strength)
    (by intro _ same; cases same) (by intro _ same; cases same) (by intro _ same; cases same)

end Closes

theorem ofTokens_eq_ok :
    ofTokens tokens = .ok e ↔
      ∃ n, parseExpr 1 tokens = .ok (e, n) ∧
        ∀ token ∈ (tokens.drop n).head?, token.kind = .endOfText := by
  rw [ofTokens, bind_eq_ok]
  constructor
  · rintro ⟨⟨tree, n⟩, parsed, later⟩
    cases left : tokens.drop n with
    | nil =>
        simp only [left] at later
        cases later
        refine ⟨n, parsed, ?_⟩
        rw [left]
        rintro _ ⟨⟩
    | cons token rest =>
        simp only [left] at later
        by_cases ends : token.isEnd = true
        · rw [if_pos ends] at later
          cases later
          refine ⟨n, parsed, ?_⟩
          rw [left]
          rintro _ ⟨rfl⟩
          exact beq_iff_eq.mp ends
        · rw [if_neg ends] at later
          cases later
  · rintro ⟨n, parsed, ends⟩
    refine ⟨(e, n), parsed, ?_⟩
    cases left : tokens.drop n with
    | nil => simp only [left]
    | cons token rest =>
        rw [left] at ends
        simp only [left]
        exact if_pos (beq_iff_eq.mpr (ends token rfl))

end Expr

end RecordExpr
