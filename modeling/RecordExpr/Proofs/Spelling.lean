import RecordExpr.Proofs.ParserRules

set_option autoImplicit false

namespace RecordExpr

namespace Expr

/-- These tokens are these trees, with commas between them. Which of several trees they are read as
is left open, so precedences do not appear here. -/
inductive Spells : List Token → List Expr → Prop where
  | nothing : Spells [] []
  | literal {token : Token} {l : Literal} (isLiteral : token.kind = .literal l) :
      Spells [token] [.literal token l]
  | field {token : Token} {name : String} (isName : attribute? token.kind = some name) :
      Spells [token] [.field token name]
  | member {front : List Token} {target : Expr} {dot name : Token} {attributeName : String}
      (inside : Spells front [target]) (isDot : dot.kind = .dot)
      (isName : attribute? name.kind = some attributeName) :
      Spells (front ++ [dot, name]) [.member (accessToken dot name) target attributeName]
  | call {token left right : Token} {name : String} {inner : List Token} {args : List Expr}
      (isWord : token.kind = .word name) (isLeft : left.kind = .leftParen)
      (arguments : Spells inner args) (isRight : right.kind = .rightParen) :
      Spells (token :: left :: (inner ++ [right])) [.call token name args]
  | negate {token : Token} {inner : List Token} {operand : Expr}
      (isMinus : token.kind = .operator .subtract) (inside : Spells inner [operand]) :
      Spells (token :: inner) [.unary token .negate operand]
  | not {token : Token} {inner : List Token} {operand : Expr} (isNot : token.kind = .not)
      (inside : Spells inner [operand]) : Spells (token :: inner) [.unary token .not operand]
  | binary {front back : List Token} {token : Token} {op : BinaryOp} {lhs rhs : Expr}
      (left : Spells front [lhs]) (isOp : token.kind = .operator op)
      (right : Spells back [rhs]) : Spells (front ++ token :: back) [.binary token op lhs rhs]
  | group {left right : Token} {inner : List Token} {e : Expr} (isLeft : left.kind = .leftParen)
      (inside : Spells inner [e]) (isRight : right.kind = .rightParen) :
      Spells (left :: (inner ++ [right])) [e]
  | comma {front back : List Token} {comma : Token} {e next : Expr} {rest : List Expr}
      (first : Spells front [e]) (isComma : comma.kind = .comma)
      (others : Spells back (next :: rest)) :
      Spells (front ++ comma :: back) (e :: next :: rest)

/-- The first so many tokens are such. -/
def Begins (tokens : List Token) (n : Nat) (P : List Token → Prop) : Prop :=
  ∃ taken rest, tokens = taken ++ rest ∧ taken.length = n ∧ P taken

namespace Begins

variable {tokens rest : List Token} {token : Token} {n k m : Nat} {P Q R : List Token → Prop}

theorem le_length (begins : Begins tokens n P) : n ≤ tokens.length := by
  obtain ⟨taken, rest, rfl, rfl, -⟩ := begins
  rw [List.length_append]
  exact Nat.le_add_right _ _

theorem nothing (empty : P []) (tokens : List Token) : Begins tokens 0 P :=
  ⟨[], tokens, rfl, rfl, empty⟩

/-- A token in front. -/
theorem cons (join : ∀ taken, P taken → Q (token :: taken)) (begins : Begins rest n P) :
    Begins (token :: rest) (n + 1) Q := by
  obtain ⟨taken, behind, rfl, rfl, first⟩ := begins
  exact ⟨token :: taken, behind, rfl, rfl, join taken first⟩

/-- More tokens behind. -/
theorem append (join : ∀ front back, P front → Q back → R (front ++ back))
    (front : Begins tokens k P) (back : Begins (tokens.drop k) m Q) : Begins tokens (k + m) R := by
  obtain ⟨taken, rest, rfl, rfl, first⟩ := front
  rw [List.drop_left] at back
  obtain ⟨more, behind, rfl, rfl, second⟩ := back
  exact ⟨taken ++ more, behind, (List.append_assoc ..).symm, List.length_append,
    join taken more first second⟩

/-- The token behind, and more behind that one. -/
theorem append_cons (join : ∀ front back, P front → Q back → R (front ++ token :: back))
    (front : Begins tokens k P) (split : tokens.drop k = token :: rest) (back : Begins rest m Q) :
    Begins tokens (k + m + 1) R := by
  have behind : Begins (tokens.drop k) (m + 1)
      fun taken => ∃ more, taken = token :: more ∧ Q more := by
    rw [split]
    exact back.cons fun taken second => ⟨taken, rfl, second⟩
  apply front.append _ behind
  rintro front _ first ⟨back, rfl, second⟩
  exact join front back first second

/-- The token behind, and no more. -/
theorem concat (join : ∀ front, P front → R (front ++ [token])) (front : Begins tokens k P)
    (split : tokens.drop k = token :: rest) : Begins tokens (k + 1) R := by
  have nothing : Begins rest 0 (· = []) := ⟨[], rest, rfl, rfl, rfl⟩
  have next : Begins tokens (k + 0 + 1) R := by
    apply front.append_cons _ split nothing
    rintro front _ first rfl
    exact join front first
  exact next

end Begins

/-- The first so many tokens are this tree. -/
def Spelled (tokens : List Token) (n : Nat) (e : Expr) : Prop := Begins tokens n (Spells · [e])

/-- With the first so many tokens behind it, the one tree becomes the other. -/
def Extends (tokens : List Token) (n : Nat) (target e : Expr) : Prop :=
  Begins tokens n fun taken => ∀ front, Spells front [target] → Spells (front ++ taken) [e]

/-- The first so many tokens are these arguments with the parenthesis that closes them. -/
def Argued (tokens : List Token) (n : Nat) (args : List Expr) : Prop :=
  Begins tokens n fun taken => ∃ inner right, taken = inner ++ [right] ∧
    right.kind = .rightParen ∧ Spells inner args

section Readers

variable {tokens : List Token} {token : Token} {target e : Expr} {k m : Nat}

theorem Extends.nothing (tokens : List Token) (e : Expr) : Extends tokens 0 e e := by
  apply Begins.nothing
  intro front first
  rwa [List.append_nil]

theorem Spelled.extend (spelled : Spelled tokens k target)
    (extended : Extends (tokens.drop k) m target e) : Spelled tokens (k + m) e :=
  spelled.append (fun front _ first extend => extend front first) extended

theorem Spelled.single (spells : Spells [token] [e]) (rest : List Token) :
    Spelled (token :: rest) 1 e :=
  ⟨[token], rest, rfl, rfl, spells⟩

end Readers

theorem parseMembers_extends {target e : Expr} {tokens : List Token} {n : Nat}
    (parsed : parseMembers target tokens = .ok (e, n)) : Extends tokens n target e := by
  rcases noDot_or_dot parsed with noDot | ⟨dot, name, rest, split, isDot⟩
  · rw [parseMembers_of_noDot target noDot] at parsed
    cases parsed
    exact .nothing tokens _
  · rw [split] at parsed ⊢
    have shorter : rest.length < tokens.length := by
      rw [split]
      exact Nat.lt_succ_of_lt (Nat.lt_succ_self _)
    obtain ⟨attributeName, isName, m, later, rfl⟩ := (parseMembers_dot_eq_ok isDot).mp parsed
    obtain ⟨taken, behind, rfl, rfl, extend⟩ := parseMembers_extends later
    refine ⟨dot :: name :: taken, behind, rfl, rfl, ?_⟩
    intro front inside
    have reached := extend _ (.member inside isDot isName)
    rwa [List.append_assoc] at reached
termination_by tokens.length

-- The induction follows the parser: on the tokens that are left, and for the same tokens on which
-- reader calls which.
mutual

theorem parseExpr_spelled {strength n : Nat} {tokens : List Token} {e : Expr}
    (parsed : parseExpr strength tokens = .ok (e, n)) : Spelled tokens n e := by
  obtain ⟨first, k, m, operand, operators, rfl⟩ := parseExpr_eq_ok.mp parsed
  exact (parseOperand_spelled operand).extend (parseOperators_extends operators)
termination_by (tokens.length, 3)
decreasing_by
  · rw [Prod.lex_def]
    omega
  · rw [Prod.lex_def, List.length_drop]
    omega

theorem parseOperators_extends {strength n : Nat} {lhs e : Expr} {tokens : List Token}
    (parsed : parseOperators strength lhs tokens = .ok (e, n)) : Extends tokens n lhs e := by
  rcases stops_or_operator strength tokens with stops | ⟨token, op, rest, split, isOp, strong⟩
  · rw [parseOperators_of_stops lhs stops] at parsed
    cases parsed
    exact .nothing tokens _
  · rw [split] at parsed ⊢
    have shorter : rest.length < tokens.length := by
      rw [split]
      exact Nat.lt_succ_self _
    obtain ⟨rhs, k, m, operand, operators, rfl⟩ :=
      (parseOperators_operator_eq_ok isOp strong).mp parsed
    have both := (parseExpr_spelled operand).append
      (R := fun taken => ∀ front, Spells front [lhs] → Spells (front ++ token :: taken) [e]) ?_
      (parseOperators_extends operators)
    · exact both.cons fun _ extend => extend
    · intro back more spells extend front left
      have reached := extend _ (.binary left isOp spells)
      rwa [List.append_assoc, List.cons_append] at reached
termination_by (tokens.length, 2)
decreasing_by
  · rw [Prod.lex_def]
    omega
  · rw [Prod.lex_def, List.length_drop]
    omega

theorem parseOperand_spelled {n : Nat} {tokens : List Token} {e : Expr}
    (parsed : parseOperand tokens = .ok (e, n)) : Spelled tokens n e := by
  match tokens, parsed with
  | [], parsed =>
      rw [parseOperand] at parsed
      cases parsed
  | token :: rest, parsed =>
      by_cases isMinus : token.kind = .operator .subtract
      · obtain ⟨operand, k, inside, rfl, rfl⟩ := (parseOperand_negate_eq_ok isMinus).mp parsed
        exact (parseOperand_spelled inside).cons fun _ => .negate isMinus
      · by_cases isNot : token.kind = .not
        · obtain ⟨operand, k, inside, rfl, rfl⟩ := (parseOperand_not_eq_ok isNot).mp parsed
          exact (parseExpr_spelled inside).cons fun _ => .not isNot
        · obtain ⟨target, k, m, primary, members, rfl⟩ :=
            (parseOperand_primary_eq_ok isMinus isNot).mp parsed
          rw [Nat.add_right_comm]
          exact (parsePrimary_spelled primary).extend (parseMembers_extends members)
termination_by (tokens.length, 2)
decreasing_by
  all_goals rw [Prod.lex_def, List.length_cons]
  all_goals omega

theorem parsePrimary_spelled {n : Nat} {token : Token} {rest : List Token} {e : Expr}
    (parsed : parsePrimary token rest = .ok (e, n)) : Spelled (token :: rest) (n + 1) e := by
  rcases primary_cases parsed with ⟨l, kind⟩ | ⟨name, kind⟩ | ⟨name, kind⟩ | kind
  · rw [parsePrimary_literal kind] at parsed
    cases parsed
    exact .single (.literal kind) rest
  · rw [parsePrimary_field kind] at parsed
    cases parsed
    exact .single (.field (by rw [kind]; rfl)) rest
  · rcases noParen_or_paren rest with noParen | ⟨paren, inner, split, isParen⟩
    · rw [parsePrimary_word kind noParen] at parsed
      cases parsed
      exact .single (.field (by rw [kind]; rfl)) rest
    · have shorter : inner.length < rest.length := by
        rw [split]
        exact Nat.lt_succ_self _
      rw [split] at parsed ⊢
      obtain ⟨args, k, arguments, rfl, rfl⟩ := (parsePrimary_call_eq_ok kind isParen).mp parsed
      obtain ⟨_, behind, rfl, rfl, taken, right, rfl, isRight, spells⟩ :=
        parseArguments_argued arguments
      exact ⟨token :: paren :: (taken ++ [right]), behind, rfl, rfl,
        .call kind isParen spells isRight⟩
  · obtain ⟨k, close, more, inside, split, closes, rfl⟩ := (parsePrimary_paren_eq_ok kind).mp parsed
    have closed := (parseExpr_spelled inside).concat (R := fun taken => Spells (token :: taken) [e])
      (fun _ spells => .group kind spells closes) split
    exact closed.cons fun _ spells => spells
termination_by (rest.length, 4)
decreasing_by
  all_goals rw [Prod.lex_def]
  all_goals omega

theorem parseArguments_argued {n : Nat} {tokens : List Token} {args : List Expr}
    (parsed : parseArguments tokens = .ok (args, n)) : Argued tokens n args := by
  rcases empty_or_more tokens with ⟨right, rest, rfl, isRight⟩ | same
  · rw [parseArguments_empty isRight] at parsed
    cases parsed
    exact ⟨[right], rest, rfl, rfl, [], right, rfl, isRight, .nothing⟩
  · rw [same] at parsed
    exact (parseMoreArguments_argued parsed).1
termination_by (tokens.length, 5)
decreasing_by
  rw [Prod.lex_def]
  omega

theorem parseMoreArguments_argued {n : Nat} {tokens : List Token} {args : List Expr}
    (parsed : parseMoreArguments tokens = .ok (args, n)) : Argued tokens n args ∧ args ≠ [] := by
  obtain ⟨first, k, delimiter, rest, inside, split, ends⟩ := parseMoreArguments_eq_ok.mp parsed
  have spelled := parseExpr_spelled inside
  have shorter : rest.length < tokens.length := by
    have behind := congrArg List.length split
    rw [List.length_drop, List.length_cons] at behind
    omega
  rcases ends with ⟨closes, rfl, rfl⟩ | ⟨isComma, more, m, others, rfl, rfl⟩
  · exact ⟨spelled.concat (fun taken spells => ⟨taken, delimiter, rfl, closes, spells⟩) split,
      List.cons_ne_nil _ _⟩
  · obtain ⟨argued, some⟩ := parseMoreArguments_argued others
    obtain ⟨next, behind, rfl⟩ := List.exists_cons_of_ne_nil some
    refine ⟨spelled.append_cons ?_ split argued, List.cons_ne_nil _ _⟩
    rintro front _ spells ⟨taken, right, rfl, isRight, later⟩
    refine ⟨front ++ delimiter :: taken, right, ?_, isRight, .comma spells isComma later⟩
    rw [List.append_assoc, List.cons_append]
termination_by (tokens.length, 4)
decreasing_by
  all_goals rw [Prod.lex_def]
  all_goals omega

end

/-- The tree of a list of tokens is made of the tokens with which the list begins. -/
theorem spelled_of_parsed {tokens : List Token} {e : Expr} (parsed : ofTokens tokens = .ok e) :
    ∃ taken rest, tokens = taken ++ rest ∧ Spells taken [e] := by
  obtain ⟨n, inside, -⟩ := ofTokens_eq_ok.mp parsed
  obtain ⟨taken, rest, split, -, spells⟩ := parseExpr_spelled inside
  exact ⟨taken, rest, split, spells⟩

end Expr

end RecordExpr
