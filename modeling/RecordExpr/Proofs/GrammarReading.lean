import RecordExpr.Proofs.Grammar

set_option autoImplicit false

namespace RecordExpr

/-- Has any number of parts, also none. -/
def Phrase.isList : Phrase → Bool
  | .operations | .names => true
  | _ => false

/-- The tokens up to the end of the text. -/
def Token.beforeEnd (tokens : List Token) : List Token :=
  tokens.takeWhile fun token => !token.isEnd

namespace Derives

variable {tokens : List Token}

theorem operations_parts (derives : Derives .operations tokens) :
    tokens = [] ∨ ∃ token op next more, tokens = token :: (next ++ more) ∧
      token.kind = .operator op ∧ Derives .unary next ∧ Derives .operations more := by
  cases derives with
  | noOperation => exact .inl rfl
  | operation isOp operand operations => exact .inr ⟨_, _, _, _, rfl, isOp, operand, operations⟩

theorem unary_parts (derives : Derives .unary tokens) :
    Derives .access tokens ∨ ∃ token operand, tokens = token :: operand ∧
      (token.kind = .operator .subtract ∨ token.kind = .not) ∧ Derives .unary operand := by
  cases derives with
  | operand inside => exact .inl inside
  | negate isMinus inside => exact .inr ⟨_, _, rfl, .inl isMinus, inside⟩
  | not isNot inside => exact .inr ⟨_, _, rfl, .inr isNot, inside⟩

theorem access_parts (derives : Derives .access tokens) :
    ∃ target more, tokens = target ++ more ∧ Derives .primary target ∧ Derives .names more := by
  cases derives with
  | access primary names => exact ⟨_, _, rfl, primary, names⟩

theorem names_parts (derives : Derives .names tokens) :
    tokens = [] ∨ ∃ dot name attributeName more, tokens = dot :: name :: more ∧ dot.kind = .dot ∧
      Expr.attribute? name.kind = some attributeName ∧ Derives .names more := by
  cases derives with
  | noName => exact .inl rfl
  | name isDot isName names => exact .inr ⟨_, _, _, _, rfl, isDot, isName, names⟩

theorem arguments_parts (derives : Derives .arguments tokens) :
    Derives .expr tokens ∨ ∃ first comma more, tokens = first ++ comma :: more ∧
      Derives .expr first ∧ comma.kind = .comma ∧ Derives .arguments more := by
  cases derives with
  | argument inside => exact .inl inside
  | moreArguments inside isComma arguments =>
      exact .inr ⟨_, _, _, rfl, inside, isComma, arguments⟩

theorem primary_parts (derives : Derives .primary tokens) :
    (∃ token, tokens = [token] ∧ ((∃ l, token.kind = .literal l) ∨
      (∃ name, token.kind = .field name) ∨ ∃ name, token.kind = .word name)) ∨
    (∃ token left right inner name, tokens = token :: left :: (inner ++ [right]) ∧
      token.kind = .word name ∧ left.kind = .leftParen ∧ right.kind = .rightParen ∧
      (inner = [] ∨ Derives .arguments inner)) ∨
    ∃ left right inner, tokens = left :: (inner ++ [right]) ∧ left.kind = .leftParen ∧
      right.kind = .rightParen ∧ Derives .expr inner := by
  cases derives with
  | literal isLiteral => exact .inl ⟨_, rfl, .inl ⟨_, isLiteral⟩⟩
  | field isField => exact .inl ⟨_, rfl, .inr (.inl ⟨_, isField⟩)⟩
  | word isWord => exact .inl ⟨_, rfl, .inr (.inr ⟨_, isWord⟩)⟩
  | emptyCall isWord isLeft isRight =>
      exact .inr (.inl ⟨_, _, _, [], _, rfl, isWord, isLeft, isRight, .inl rfl⟩)
  | call isWord isLeft arguments isRight =>
      exact .inr (.inl ⟨_, _, _, _, _, rfl, isWord, isLeft, isRight, .inr arguments⟩)
  | group isLeft inside isRight => exact .inr (.inr ⟨_, _, _, rfl, isLeft, isRight, inside⟩)

/-- A primary expression begins with a token of its own, not with an operator. -/
theorem primary_begins (derives : Derives .primary tokens) :
    ∃ token inner, tokens = token :: inner ∧ token.kind ≠ .operator .subtract ∧
      token.kind ≠ .not := by
  cases derives with
  | literal label | field label | word label | emptyCall label _ _ | call label _ _ _
  | group label _ _ =>
      refine ⟨_, _, rfl, ?_, ?_⟩
      · rw [label]
        intro same
        cases same
      · rw [label]
        intro same
        cases same

/-- These tokens begin with one that closes nothing. -/
def Opens (tokens : List Token) : Prop :=
  ∃ token more, tokens = token :: more ∧ token.kind ≠ .rightParen

theorem Opens.append {front : List Token} (opens : Opens front) (back : List Token) :
    Opens (front ++ back) := by
  obtain ⟨token, more, rfl, other⟩ := opens
  exact ⟨token, more ++ back, rfl, other⟩

theorem Opens.head_ne (opens : Opens tokens) :
    ∀ token ∈ tokens.head?, token.kind ≠ .rightParen := by
  obtain ⟨token, more, rfl, other⟩ := opens
  rintro _ ⟨rfl⟩
  exact other

theorem opens_of_kind {token : Token} {kind : TokenKind} (more : List Token)
    (label : token.kind = kind) (other : kind ≠ .rightParen) : Opens (token :: more) :=
  ⟨token, more, rfl, label ▸ other⟩

/-- Only the lists can be empty. -/
theorem opens {phrase : Phrase} (derives : Derives phrase tokens) (filled : phrase.isList = false) :
    Opens tokens := by
  induction derives with
  | noOperation | operation | noName | name => cases filled
  | expr _ _ ih _ | access _ _ ih _ | moreArguments _ _ _ ih _ => exact (ih rfl).append _
  | operand _ ih | argument _ ih => exact ih rfl
  | negate label | not label | literal label | field label | word label | emptyCall label _ _
  | call label _ _ _ | group label _ _ => exact opens_of_kind _ label (by intro same; cases same)

end Derives

namespace Expr

variable {strength : Nat} {rest left : List Token}

theorem forall_head_operations (operations : Derives .operations left) (closes : Closes rest)
    (property : TokenKind → Prop) (operator : ∀ op, property (.operator op))
    (rightParen : property .rightParen) (comma : property .comma)
    (endOfText : property .endOfText) :
    ∀ token ∈ (left ++ rest).head?, property token.kind := by
  rcases operations.operations_parts with rfl | ⟨token, op, next, more, rfl, isOp, -, -⟩
  · exact closes.forall_head property rightParen comma endOfText
  · rintro _ ⟨rfl⟩
    rw [isOp]
    exact operator op

theorem noDot_operations (operations : Derives .operations left) (closes : Closes rest) :
    NoDot (left ++ rest) :=
  forall_head_operations operations closes (· ≠ .dot) (by intro _ same; cases same) (by decide)
    (by decide) (by decide)

theorem noParen_operations (operations : Derives .operations left) (closes : Closes rest) :
    NoParen (left ++ rest) :=
  forall_head_operations operations closes (· ≠ .leftParen) (by intro _ same; cases same)
    (by decide) (by decide) (by decide)

theorem noParen_names {names : List Token} (derives : Derives .names names)
    (noParen : NoParen rest) : NoParen (names ++ rest) := by
  rcases derives.names_parts with rfl | ⟨dot, name, attributeName, more, rfl, isDot, -, -⟩
  · exact noParen
  · rintro _ ⟨rfl⟩ isParen
    rw [isDot] at isParen
    cases isParen

theorem stops_append (stops : Stops strength left) (closes : Closes rest) :
    Stops strength (left ++ rest) := by
  match left, stops with
  | [], _ => exact closes.stops strength
  | _ :: _, stops => exact stops

theorem eq_nil_of_stops (operations : Derives .operations left) (stops : Stops 1 left) :
    left = [] := by
  rcases operations.operations_parts with rfl | ⟨token, op, next, more, rfl, isOp, -, -⟩
  · rfl
  · exact absurd (one_le_strength op) (Nat.not_le.mpr (stops token rfl op isOp))

theorem parseMembers_reads (target : Expr) {names rest : List Token}
    (derives : Derives .names names) (noDot : NoDot rest) :
    ∃ e, parseMembers target (names ++ rest) = .ok (e, names.length) := by
  rcases derives.names_parts with
    split | ⟨dot, name, attributeName, more, split, isDot, label, inside⟩
  · rw [split]
    exact ⟨target, parseMembers_of_noDot target noDot⟩
  · have shorter : more.length < names.length := by
      rw [split]
      exact Nat.lt_succ_of_lt (Nat.lt_succ_self _)
    obtain ⟨e, reads⟩ :=
      parseMembers_reads (member (accessToken dot name) target attributeName) inside noDot
    rw [split]
    exact ⟨e, (parseMembers_dot_eq_ok isDot).mpr ⟨attributeName, label, more.length, reads, rfl⟩⟩
termination_by names.length

/-- A reader takes its own tokens and the first of the operators behind them. It leaves a list of
operators, which its caller goes on with. -/
def ReadsInto (own operations : List Token) (parsed : Parsed) (left : List Token) (e : Expr) :
    Prop :=
  ∃ done, operations = done ++ left ∧ Derives .operations left ∧
    parsed = .ok (e, own.length + done.length)

/-- What is behind the tokens that are taken. -/
theorem drop_done {operations done left : List Token} (own rest : List Token)
    (split : operations = done ++ left) :
    (own ++ (operations ++ rest)).drop (own.length + done.length) = left ++ rest := by
  rw [split, ← List.append_assoc, ← List.append_assoc, ← List.length_append, List.append_assoc,
    List.drop_left]

-- The induction is on the number of tokens, since the operators that an operand leaves are no part
-- of the derivation that was taken apart. What carries it: each reader leaves a list of operators.
mutual

theorem parseExpr_reads (strength : Nat) {first more rest : List Token}
    (operand : Derives .unary first) (operations : Derives .operations more)
    (closes : Closes rest) :
    ∃ e left, ReadsInto first more (parseExpr strength (first ++ (more ++ rest))) left e ∧
      Stops strength left := by
  -- a `not` in the operand may take operators too; what it leaves is still a list of operators
  obtain ⟨lhs, left, done, split, remaining, reads⟩ := parseOperand_reads operand operations closes
  have shorter : left.length < first.length + more.length := by
    obtain ⟨token, inside, begins, -⟩ := operand.opens rfl
    rw [split, begins, List.length_append, List.length_cons]
    omega
  obtain ⟨e, left', ⟨done', split', remaining', reads'⟩, stops⟩ :=
    parseOperators_reads strength lhs remaining closes
  refine ⟨e, left', ⟨done ++ done', ?_, remaining', ?_⟩, stops⟩
  · rw [split, split', List.append_assoc]
  · rw [← drop_done first rest split] at reads'
    refine parseExpr_eq_ok.mpr ⟨lhs, _, _, reads, reads', ?_⟩
    rw [List.length_append, List.length_nil]
    omega
termination_by (first.length + more.length, 3)
decreasing_by
  · rw [Prod.lex_def]
    omega
  · rw [Prod.lex_def]
    omega

theorem parseOperators_reads (strength : Nat) (lhs : Expr) {operations rest : List Token}
    (derives : Derives .operations operations) (closes : Closes rest) :
    ∃ e left, ReadsInto [] operations (parseOperators strength lhs (operations ++ rest)) left e ∧
      Stops strength left := by
  rcases derives.operations_parts with
    split | ⟨token, op, next, more, split, isOp, operand, further⟩
  · rw [split]
    have stops : Stops strength [] := by
      rintro _ ⟨⟩
    exact ⟨lhs, [],
      ⟨[], rfl, .noOperation, parseOperators_of_stops lhs (stops_append stops closes)⟩, stops⟩
  · have shorter : next.length + more.length < operations.length := by
      rw [split, List.length_cons, List.length_append]
      omega
    rw [split]
    by_cases strong : strength ≤ op.strength
    · obtain ⟨rhs, left, ⟨done, split', remaining, reads⟩, -⟩ :=
        parseExpr_reads (op.strength + 1) operand further closes
      have fewer : left.length ≤ more.length := by
        rw [split', List.length_append]
        omega
      obtain ⟨e, left', ⟨done', split'', remaining', reads'⟩, stops⟩ :=
        parseOperators_reads strength (binary token op lhs rhs) remaining closes
      refine ⟨e, left', ⟨token :: (next ++ (done ++ done')), ?_, remaining', ?_⟩, stops⟩
      · rw [split', split'']
        simp only [List.cons_append, List.append_assoc]
      · rw [← drop_done next rest split'] at reads'
        rw [List.cons_append, List.append_assoc]
        refine (parseOperators_operator_eq_ok isOp strong).mpr ⟨rhs, _, _, reads, reads', ?_⟩
        simp only [List.length_append, List.length_cons, List.length_nil]
        omega
    · have stops : Stops strength (token :: (next ++ more)) := by
        rintro _ ⟨rfl⟩ _ same
        rw [isOp] at same
        cases same
        exact Nat.not_le.mp strong
      exact ⟨lhs, token :: (next ++ more), ⟨[], rfl, .operation isOp operand further,
        parseOperators_of_stops lhs (stops_append stops closes)⟩, stops⟩
termination_by (operations.length, 2)
decreasing_by
  · rw [Prod.lex_def]
    omega
  · rw [Prod.lex_def]
    omega

theorem parseOperand_reads {operand operations rest : List Token}
    (derives : Derives .unary operand) (more : Derives .operations operations)
    (closes : Closes rest) :
    ∃ e left, ReadsInto operand operations (parseOperand (operand ++ (operations ++ rest)))
      left e := by
  rcases derives.unary_parts with access | ⟨token, inside, split, sign, further⟩
  · obtain ⟨target, names, split, primary, accesses⟩ := access.access_parts
    obtain ⟨token, inner, begins, notMinus, notNot⟩ := primary.primary_begins
    have shorter : inner.length < operand.length := by
      rw [split, begins, List.length_append, List.length_cons]
      omega
    rw [begins] at primary
    obtain ⟨t, reads⟩ :=
      parsePrimary_reads primary (noParen_names accesses (noParen_operations more closes))
    obtain ⟨e, reads'⟩ := parseMembers_reads t accesses (noDot_operations more closes)
    refine ⟨e, operations, [], rfl, more, ?_⟩
    rw [split, begins, List.append_assoc, List.cons_append]
    refine (parseOperand_primary_eq_ok notMinus notNot).mpr
      ⟨t, inner.length, names.length, reads, ?_, ?_⟩
    · rw [List.drop_left]
      exact reads'
    · simp only [List.length_append, List.length_cons, List.length_nil]
      omega
  · have shorter : inside.length < operand.length := by
      rw [split]
      exact Nat.lt_succ_self _
    rcases sign with isMinus | isNot
    · obtain ⟨e, left, done, split', remaining, reads⟩ := parseOperand_reads further more closes
      refine ⟨unary token .negate e, left, done, split', remaining, ?_⟩
      rw [split]
      exact (parseOperand_negate_eq_ok isMinus).mpr ⟨e, _, reads, rfl, Nat.add_right_comm ..⟩
    · obtain ⟨e, left, ⟨done, split', remaining, reads⟩, -⟩ :=
        parseExpr_reads notStrength further more closes
      refine ⟨unary token .not e, left, done, split', remaining, ?_⟩
      rw [split]
      exact (parseOperand_not_eq_ok isNot).mpr ⟨e, _, reads, rfl, Nat.add_right_comm ..⟩
termination_by (operand.length + operations.length, 2)
decreasing_by
  all_goals rw [Prod.lex_def]
  all_goals omega

theorem parsePrimary_reads {token : Token} {inner rest : List Token}
    (derives : Derives .primary (token :: inner)) (noParen : NoParen rest) :
    ∃ e, parsePrimary token (inner ++ rest) = .ok (e, inner.length) := by
  rcases derives.primary_parts with ⟨_, split, label⟩ |
    ⟨_, left, right, arguments, name, split, isWord, isLeft, isRight, derives'⟩ |
    ⟨_, right, inside, split, isLeft, isRight, derives'⟩
  · obtain ⟨rfl, alone⟩ := List.cons.inj split
    rw [alone]
    rcases label with ⟨l, kind⟩ | ⟨name, kind⟩ | ⟨name, kind⟩
    · exact ⟨literal token l, parsePrimary_literal kind rest⟩
    · exact ⟨field token name, parsePrimary_field kind rest⟩
    · exact ⟨field token name, parsePrimary_word kind noParen⟩
  · obtain ⟨rfl, called⟩ := List.cons.inj split
    have shorter : arguments.length < inner.length := by
      rw [called, List.length_cons, List.length_append]
      omega
    rw [called, List.cons_append, List.append_assoc]
    have reads : ∃ args,
        parseArguments (arguments ++ ([right] ++ rest)) = .ok (args, arguments.length + 1) := by
      rcases derives' with none | derives'
      · rw [none]
        exact ⟨[], parseArguments_empty isRight rest⟩
      · rw [parseArguments_of_notEmpty ((derives'.opens rfl).append ([right] ++ rest)).head_ne]
        exact parseMoreArguments_reads derives' isRight
    obtain ⟨args, reads⟩ := reads
    refine ⟨call token name args,
      (parsePrimary_call_eq_ok isWord isLeft).mpr ⟨args, _, reads, rfl, ?_⟩⟩
    rw [List.length_cons, List.length_append, List.length_singleton]
  · obtain ⟨rfl, grouped⟩ := List.cons.inj split
    have shorter : inside.length < inner.length := by
      rw [grouped, List.length_append]
      exact Nat.lt_succ_self _
    rw [grouped, List.append_assoc]
    obtain ⟨e, reads⟩ := parseExpr_whole derives' (closes_cons (.inl isRight) rest)
    refine ⟨e, (parsePrimary_paren_eq_ok isLeft).mpr
      ⟨inside.length, right, rest, reads, List.drop_left, isRight, ?_⟩⟩
    rw [List.length_append, List.length_singleton]
termination_by (inner.length, 6)
decreasing_by
  all_goals rw [Prod.lex_def]
  all_goals omega

theorem parseExpr_whole {tokens rest : List Token} (derives : Derives .expr tokens)
    (closes : Closes rest) : ∃ e, parseExpr 1 (tokens ++ rest) = .ok (e, tokens.length) := by
  obtain ⟨first, more, split, operand, operations⟩ := derives.expr_parts
  have length : tokens.length = first.length + more.length := by rw [split, List.length_append]
  obtain ⟨e, left, ⟨done, split', remaining, reads⟩, stops⟩ :=
    parseExpr_reads 1 operand operations closes
  rw [eq_nil_of_stops remaining stops, List.append_nil] at split'
  rw [split, List.append_assoc, List.length_append, split', ← split']
  exact ⟨e, split' ▸ reads⟩
termination_by (tokens.length, 4)
decreasing_by
  rw [Prod.lex_def]
  omega

theorem parseMoreArguments_reads {tokens rest : List Token} {right : Token}
    (derives : Derives .arguments tokens) (isRight : right.kind = .rightParen) :
    ∃ args, parseMoreArguments (tokens ++ right :: rest) = .ok (args, tokens.length + 1) := by
  rcases derives.arguments_parts with inside | ⟨first, comma, more, split, inside, isComma, others⟩
  · obtain ⟨e, reads⟩ := parseExpr_whole inside (closes_cons (.inl isRight) rest)
    exact ⟨[e], parseMoreArguments_eq_ok.mpr
      ⟨e, tokens.length, right, rest, reads, List.drop_left, .inl ⟨isRight, rfl, rfl⟩⟩⟩
  · have length : tokens.length = first.length + more.length + 1 := by
      rw [split, List.length_append, List.length_cons]
      rfl
    obtain ⟨e, reads⟩ := parseExpr_whole inside (closes_cons (.inr (.inl isComma)) _)
    obtain ⟨args, reads'⟩ := parseMoreArguments_reads others isRight
    rw [length, split, List.append_assoc, List.cons_append]
    exact ⟨e :: args, parseMoreArguments_eq_ok.mpr
      ⟨e, first.length, comma, more ++ right :: rest, reads, List.drop_left,
        .inr ⟨isComma, args, more.length + 1, reads', rfl, rfl⟩⟩⟩
termination_by (tokens.length, 5)
decreasing_by
  all_goals rw [Prod.lex_def]
  all_goals omega

end

theorem isEnd_of_kind {token : Token} {kind : TokenKind} (label : token.kind = kind)
    (other : kind ≠ .endOfText) : token.isEnd = false :=
  beq_eq_false_iff_ne.mpr (label ▸ other)

theorem isEnd_of_attribute? {token : Token} {name : String}
    (label : attribute? token.kind = some name) : token.isEnd = false := by
  refine beq_eq_false_iff_ne.mpr fun isEnd => ?_
  rw [isEnd] at label
  cases label

/-- The end of the text belongs to no phrase. -/
theorem isEnd_of_derives {phrase : Phrase} {tokens : List Token} (derives : Derives phrase tokens) :
    ∀ token ∈ tokens, token.isEnd = false := by
  induction derives with
  | expr _ _ ih ih' | access _ _ ih ih' => exact List.forall_mem_append.mpr ⟨ih, ih'⟩
  | noOperation | noName =>
      rintro _ ⟨⟩
  | operand _ ih | argument _ ih => exact ih
  | operation isOp _ _ ih ih' =>
      exact List.forall_mem_cons.mpr ⟨isEnd_of_kind isOp (by intro same; cases same),
        List.forall_mem_append.mpr ⟨ih, ih'⟩⟩
  | negate label _ ih | not label _ ih =>
      exact List.forall_mem_cons.mpr ⟨isEnd_of_kind label (by decide), ih⟩
  | name isDot label _ ih =>
      exact List.forall_mem_cons.mpr ⟨isEnd_of_kind isDot (by decide),
        List.forall_mem_cons.mpr ⟨isEnd_of_attribute? label, ih⟩⟩
  | literal label | field label | word label =>
      exact List.forall_mem_singleton.mpr (isEnd_of_kind label (by intro same; cases same))
  | emptyCall isWord isLeft isRight =>
      exact List.forall_mem_cons.mpr ⟨isEnd_of_kind isWord (by intro same; cases same),
        List.forall_mem_cons.mpr ⟨isEnd_of_kind isLeft (by decide),
          List.forall_mem_singleton.mpr (isEnd_of_kind isRight (by decide))⟩⟩
  | call isWord isLeft _ isRight ih =>
      exact List.forall_mem_cons.mpr ⟨isEnd_of_kind isWord (by intro same; cases same),
        List.forall_mem_cons.mpr ⟨isEnd_of_kind isLeft (by decide), List.forall_mem_append.mpr
          ⟨ih, List.forall_mem_singleton.mpr (isEnd_of_kind isRight (by decide))⟩⟩⟩
  | group isLeft _ isRight ih =>
      exact List.forall_mem_cons.mpr ⟨isEnd_of_kind isLeft (by decide), List.forall_mem_append.mpr
        ⟨ih, List.forall_mem_singleton.mpr (isEnd_of_kind isRight (by decide))⟩⟩
  | moreArguments _ isComma _ ih ih' =>
      exact List.forall_mem_append.mpr
        ⟨ih, List.forall_mem_cons.mpr ⟨isEnd_of_kind isComma (by decide), ih'⟩⟩

theorem beforeEnd_append {taken rest : List Token} (inside : ∀ token ∈ taken, token.isEnd = false)
    (ends : ∀ token ∈ rest.head?, token.kind = .endOfText) :
    Token.beforeEnd (taken ++ rest) = taken := by
  have nothing : Token.beforeEnd rest = [] := by
    match rest, ends with
    | [], _ => rfl
    | token :: _, ends =>
        have isEnd : token.isEnd = true := beq_iff_eq.mpr (ends token rfl)
        exact List.takeWhile_cons_of_neg (by rw [isEnd]; decide)
  calc Token.beforeEnd (taken ++ rest)
      = taken ++ Token.beforeEnd rest :=
        List.takeWhile_append_of_pos fun token here => by rw [inside token here]; rfl
    _ = taken := by rw [nothing, List.append_nil]

/-- Behind the tokens before the end there is nothing or the end. -/
theorem exists_end (tokens : List Token) :
    ∃ rest, Token.beforeEnd tokens ++ rest = tokens ∧
      ∀ token ∈ rest.head?, token.kind = .endOfText := by
  refine ⟨_, List.takeWhile_append_dropWhile, fun token first => ?_⟩
  have ends := List.head?_dropWhile_not (fun token : Token => !token.isEnd) tokens
  rw [first] at ends
  simpa [Token.isEnd] using ends

/-- The parser accepts exactly the grammar, and the tree it gives shows every token of the text. -/
theorem parses_iff_derives (tokens : List Token) :
    ((∃ e, ofTokens tokens = .ok e) ↔ Derives .expr (Token.beforeEnd tokens)) ∧
      ∀ e, ofTokens tokens = .ok e →
        e.walk = Token.shown (Token.beforeEnd tokens) ∧ e.Labelled := by
  have sound (e : Expr) (parsed : ofTokens tokens = .ok e) :
      Derives .expr (Token.beforeEnd tokens) ∧
        e.walk = Token.shown (Token.beforeEnd tokens) ∧ e.Labelled := by
    obtain ⟨n, inside, ends⟩ := ofTokens_eq_ok.mp parsed
    obtain ⟨⟨taken, rest, rfl, rfl, derives, shows⟩, labelled⟩ := parseExpr_takes inside
    rw [List.drop_left] at ends
    rw [beforeEnd_append (isEnd_of_derives derives) ends]
    exact ⟨derives, shows.symm, labelled⟩
  refine ⟨⟨fun ⟨e, parsed⟩ => (sound e parsed).1, fun derives => ?_⟩,
    fun e parsed => (sound e parsed).2⟩
  obtain ⟨rest, split, ends⟩ := exists_end tokens
  obtain ⟨e, reads⟩ :=
    parseExpr_whole derives fun token first => .inr (.inr (ends token first))
  rw [split] at reads
  refine ⟨e, ofTokens_eq_ok.mpr ⟨_, reads, ?_⟩⟩
  rw [← split, beforeEnd_append (isEnd_of_derives derives) ends, List.drop_left]
  exact ends

end Expr

end RecordExpr
