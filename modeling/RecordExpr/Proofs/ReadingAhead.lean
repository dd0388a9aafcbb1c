import RecordExpr.Proofs.Grammar

set_option autoImplicit false

namespace RecordExpr

namespace Expr

/-- The new tokens begin like the old ones, or with a token that no reader takes. -/
def Continues (old new : List Token) : Prop := new.head? = old.head? ∨ Closes new

namespace Continues

variable {old new : List Token}

theorem noDot (continues : Continues old new) (before : NoDot old) : NoDot new := by
  rcases continues with same | closes
  · rw [NoDot, same]
    exact before
  · exact closes.noDot

theorem noParen (continues : Continues old new) (before : NoParen old) : NoParen new := by
  rcases continues with same | closes
  · rw [NoParen, same]
    exact before
  · exact closes.forall_head (· ≠ .leftParen) (by decide) (by decide) (by decide)

theorem stops (continues : Continues old new) {strength : Nat} (before : Stops strength old) :
    Stops strength new := by
  rcases continues with same | closes
  · rw [Stops, same]
    exact before
  · exact closes.stops strength

/-- Behind tokens that stay, it is what follows them that is exchanged. -/
theorem take {m : Nat} (continues : Continues (old.drop m) new) :
    Continues old (old.take m ++ new) := by
  match old, m with
  | [], _ =>
      rw [List.drop_nil] at continues
      rwa [List.take_nil, List.nil_append]
  | _, 0 => exact continues
  | _ :: _, _ + 1 => exact .inl rfl

end Continues

section Turns

variable {tokens rest new : List Token} {next : Token} {k m n : Nat}

theorem take_add_append (tokens new : List Token) (k m : Nat) :
    tokens.take (k + m) ++ new = tokens.take k ++ ((tokens.drop k).take m ++ new) := by
  rw [List.take_add, List.append_assoc]

theorem take_behind (split : tokens.drop k = next :: rest) (m : Nat) (new : List Token) :
    tokens.take (k + m + 1) ++ new = tokens.take k ++ next :: (rest.take m ++ new) := by
  rw [Nat.add_assoc, take_add_append, split]
  rfl

theorem take_next (split : tokens.drop k = next :: rest) (new : List Token) :
    tokens.take (k + 1) ++ new = tokens.take k ++ next :: new :=
  take_behind split 0 new

theorem drop_taken (enough : k ≤ tokens.length) (new : List Token) :
    (tokens.take k ++ new).drop k = new :=
  List.drop_left' (List.length_take_of_le enough)

end Turns

theorem parseMembers_ahead {target e : Expr} {tokens new : List Token} {n : Nat}
    (parsed : parseMembers target tokens = .ok (e, n))
    (noDot : NoDot (tokens.drop n) → NoDot new) :
    parseMembers target (tokens.take n ++ new) = .ok (e, n) := by
  rcases noDot_or_dot parsed with ends | ⟨dot, name, rest, split, isDot⟩
  · rw [parseMembers_of_noDot target ends] at parsed
    cases parsed
    exact parseMembers_of_noDot target (noDot ends)
  · rw [split] at parsed noDot ⊢
    have shorter : rest.length < tokens.length := by
      rw [split, List.length_cons, List.length_cons]
      omega
    obtain ⟨attributeName, label, m, later, rfl⟩ := (parseMembers_dot_eq_ok isDot).mp parsed
    have ahead := parseMembers_ahead later noDot
    exact (parseMembers_dot_eq_ok isDot).mpr ⟨attributeName, label, m, ahead, rfl⟩
termination_by tokens.length

/-- Arguments take their closing parenthesis at least. -/
theorem parseMoreArguments_pos {n : Nat} {tokens : List Token} {args : List Expr}
    (parsed : parseMoreArguments tokens = .ok (args, n)) : 0 < n := by
  obtain ⟨_, k, _, _, -, -, ends⟩ := parseMoreArguments_eq_ok.mp parsed
  rcases ends with ⟨-, -, count⟩ | ⟨-, _, _, -, -, count⟩
  · omega
  · omega

-- The induction follows the parser, as for the tokens that it takes (`parseExpr_spelled`).
mutual

theorem parseExpr_ahead {strength n : Nat} {tokens new : List Token} {e : Expr}
    (parsed : parseExpr strength tokens = .ok (e, n)) (continues : Continues (tokens.drop n) new) :
    parseExpr strength (tokens.take n ++ new) = .ok (e, n) := by
  obtain ⟨first, k, m, operand, operators, rfl⟩ := parseExpr_eq_ok.mp parsed
  have enough := (parseOperand_spelled operand).le_length
  rw [← List.drop_drop] at continues
  have front := parseOperand_ahead operand continues.take
  have back := parseOperators_ahead operators continues
  rw [take_add_append]
  apply parseExpr_eq_ok.mpr
  refine ⟨first, k, m, front, ?_, rfl⟩
  rw [drop_taken enough]
  exact back
termination_by (tokens.length, 3)
decreasing_by
  · rw [Prod.lex_def]
    omega
  · rw [Prod.lex_def, List.length_drop]
    omega

theorem parseOperators_ahead {strength n : Nat} {lhs e : Expr} {tokens new : List Token}
    (parsed : parseOperators strength lhs tokens = .ok (e, n))
    (continues : Continues (tokens.drop n) new) :
    parseOperators strength lhs (tokens.take n ++ new) = .ok (e, n) := by
  rcases stops_or_operator strength tokens with stops | ⟨token, op, rest, split, isOp, strong⟩
  · rw [parseOperators_of_stops lhs stops] at parsed
    cases parsed
    exact parseOperators_of_stops lhs (continues.stops stops)
  · have shorter : rest.length < tokens.length := by
      simp [split]
    rw [split] at parsed continues ⊢
    obtain ⟨rhs, k, m, operand, operators, rfl⟩ :=
      (parseOperators_operator_eq_ok isOp strong).mp parsed
    have enough := (parseExpr_spelled operand).le_length
    rw [List.drop_succ_cons, ← List.drop_drop] at continues
    have front := parseExpr_ahead operand continues.take
    have back := parseOperators_ahead operators continues
    rw [List.take_succ_cons, List.cons_append, take_add_append]
    apply (parseOperators_operator_eq_ok isOp strong).mpr
    refine ⟨rhs, k, m, front, ?_, rfl⟩
    rw [drop_taken enough]
    exact back
termination_by (tokens.length, 2)
decreasing_by
  · rw [Prod.lex_def]
    omega
  · rw [Prod.lex_def, List.length_drop]
    omega

theorem parseOperand_ahead {n : Nat} {tokens new : List Token} {e : Expr}
    (parsed : parseOperand tokens = .ok (e, n)) (continues : Continues (tokens.drop n) new) :
    parseOperand (tokens.take n ++ new) = .ok (e, n) := by
  match tokens, parsed, continues with
  | [], parsed, _ =>
      rw [parseOperand] at parsed
      cases parsed
  | token :: rest, parsed, continues =>
      by_cases isMinus : token.kind = .operator .subtract
      · obtain ⟨operand, k, inside, rfl, rfl⟩ := (parseOperand_negate_eq_ok isMinus).mp parsed
        have ahead := parseOperand_ahead inside continues
        exact (parseOperand_negate_eq_ok isMinus).mpr ⟨operand, k, ahead, rfl, rfl⟩
      · by_cases isNot : token.kind = .not
        · obtain ⟨operand, k, inside, rfl, rfl⟩ := (parseOperand_not_eq_ok isNot).mp parsed
          have ahead := parseExpr_ahead inside continues
          exact (parseOperand_not_eq_ok isNot).mpr ⟨operand, k, ahead, rfl, rfl⟩
        · obtain ⟨target, k, m, primary, members, rfl⟩ :=
            (parseOperand_primary_eq_ok isMinus isNot).mp parsed
          have enough : k ≤ rest.length :=
            Nat.le_of_succ_le_succ (parsePrimary_spelled primary).le_length
          rw [List.drop_succ_cons, ← List.drop_drop] at continues
          have front := parsePrimary_ahead primary continues.take.noParen
          have back := parseMembers_ahead members continues.noDot
          rw [List.take_succ_cons, List.cons_append, take_add_append]
          apply (parseOperand_primary_eq_ok isMinus isNot).mpr
          refine ⟨target, k, m, front, ?_, rfl⟩
          rw [drop_taken enough]
          exact back
termination_by (tokens.length, 2)
decreasing_by
  all_goals rw [Prod.lex_def, List.length_cons]
  all_goals omega

theorem parsePrimary_ahead {n : Nat} {token : Token} {rest new : List Token} {e : Expr}
    (parsed : parsePrimary token rest = .ok (e, n))
    (noParen : NoParen (rest.drop n) → NoParen new) :
    parsePrimary token (rest.take n ++ new) = .ok (e, n) := by
  rcases primary_cases parsed with ⟨l, kind⟩ | ⟨name, kind⟩ | ⟨name, kind⟩ | kind
  · rw [parsePrimary_literal kind] at parsed
    cases parsed
    exact parsePrimary_literal kind _
  · rw [parsePrimary_field kind] at parsed
    cases parsed
    exact parsePrimary_field kind _
  · rcases noParen_or_paren rest with ends | ⟨paren, inner, split, isParen⟩
    · rw [parsePrimary_word kind ends] at parsed
      cases parsed
      exact parsePrimary_word kind (noParen ends)
    · have shorter : inner.length < rest.length := by
        simp [split]
      rw [split] at parsed ⊢
      obtain ⟨args, k, arguments, rfl, rfl⟩ := (parsePrimary_call_eq_ok kind isParen).mp parsed
      have ahead := parseArguments_ahead arguments new
      exact (parsePrimary_call_eq_ok kind isParen).mpr ⟨args, k, ahead, rfl, rfl⟩
  · obtain ⟨k, close, more, inside, split, closes, rfl⟩ := (parsePrimary_paren_eq_ok kind).mp parsed
    have enough := (parseExpr_spelled inside).le_length
    have same : Continues (rest.drop k) (close :: new) := by
      rw [split]
      exact .inl rfl
    have ahead := parseExpr_ahead inside same
    rw [take_next split]
    apply (parsePrimary_paren_eq_ok kind).mpr
    exact ⟨k, close, new, ahead, drop_taken enough _, closes, rfl⟩
termination_by (rest.length, 4)
decreasing_by
  all_goals rw [Prod.lex_def]
  all_goals omega

theorem parseArguments_ahead {n : Nat} {tokens : List Token} {args : List Expr}
    (parsed : parseArguments tokens = .ok (args, n)) (new : List Token) :
    parseArguments (tokens.take n ++ new) = .ok (args, n) := by
  match tokens, parsed with
  | [], parsed =>
      rw [parseArguments] at parsed
      obtain ⟨_, _, _, _, _, impossible, -⟩ := parseMoreArguments_eq_ok.mp parsed
      rw [List.drop_nil] at impossible
      cases impossible
  | token :: rest, parsed =>
      by_cases isRight : token.kind = .rightParen
      · rw [parseArguments_empty isRight] at parsed
        cases parsed
        exact parseArguments_empty isRight new
      · have notEmpty : ∀ back : List Token, ∀ t ∈ (token :: back).head?,
            t.kind ≠ .rightParen := by
          intro back t first
          cases first
          exact isRight
        rw [parseArguments_of_notEmpty (notEmpty rest)] at parsed
        have ahead := parseMoreArguments_ahead parsed new
        have some_taken := parseMoreArguments_pos parsed
        obtain ⟨k, rfl⟩ := Nat.exists_eq_succ_of_ne_zero (Nat.ne_of_gt some_taken)
        rw [List.take_succ_cons, List.cons_append] at ahead ⊢
        rw [parseArguments_of_notEmpty (notEmpty _)]
        exact ahead
termination_by (tokens.length, 5)
decreasing_by
  rw [Prod.lex_def]
  omega

theorem parseMoreArguments_ahead {n : Nat} {tokens : List Token} {args : List Expr}
    (parsed : parseMoreArguments tokens = .ok (args, n)) (new : List Token) :
    parseMoreArguments (tokens.take n ++ new) = .ok (args, n) := by
  obtain ⟨first, k, delimiter, rest, inside, split, ends⟩ := parseMoreArguments_eq_ok.mp parsed
  have enough := (parseExpr_spelled inside).le_length
  have shorter : rest.length < tokens.length := by
    have count := congrArg List.length split
    rw [List.length_drop, List.length_cons] at count
    omega
  have same : ∀ back, Continues (tokens.drop k) (delimiter :: back) := by
    intro back
    rw [split]
    exact .inl rfl
  apply parseMoreArguments_eq_ok.mpr
  rcases ends with ⟨closes, rfl, rfl⟩ | ⟨isComma, more, m, others, rfl, rfl⟩
  · rw [take_next split]
    exact ⟨first, k, delimiter, new, parseExpr_ahead inside (same new), drop_taken enough _,
      .inl ⟨closes, rfl, rfl⟩⟩
  · have ahead := parseMoreArguments_ahead others new
    rw [take_behind split]
    exact ⟨first, k, delimiter, rest.take m ++ new, parseExpr_ahead inside (same _),
      drop_taken enough _, .inr ⟨isComma, more, m, ahead, rfl, rfl⟩⟩
termination_by (tokens.length, 4)
decreasing_by
  all_goals rw [Prod.lex_def]
  all_goals omega

end

end Expr

end RecordExpr
