import RecordExpr.Fault
import RecordExpr.Proofs.PrintedText

set_option autoImplicit false

namespace RecordExpr

namespace Expr

mutual

/-- The tree without its tokens. -/
def bare : Expr → Expr
  | literal _ l => literal Token.missing l
  | field _ name => field Token.missing name
  | member _ target name => member Token.missing target.bare name
  | call _ name args => call Token.missing name (bares args)
  | unary _ op operand => unary Token.missing op operand.bare
  | binary _ op lhs rhs => binary Token.missing op lhs.bare rhs.bare

def bares : List Expr → List Expr
  | [] => []
  | e :: rest => e.bare :: bares rest

end

/-- These tokens are read as an operand, where no access to an attribute follows. -/
def ReadsAs (tokens : List Token) (e : Expr) : Prop :=
  ∀ rest, NoDot rest → parseOperand (tokens ++ rest) = .ok (e, tokens.length)

/-- These tokens are read as an operand to which the accesses behind it belong. -/
def ReadsOn (tokens : List Token) (e : Expr) : Prop :=
  ∀ rest tree n, parseMembers e rest = .ok (tree, n) →
    parseOperand (tokens ++ rest) = .ok (tree, tokens.length + n)

variable {tokens inner rest : List Token} {token : Token} {e : Expr} {strength n : Nat}

theorem ReadsOn.readsAs (reads : ReadsOn tokens e) : ReadsAs tokens e := fun rest noDot =>
  reads rest e 0 (parseMembers_of_noDot e noDot)

theorem readsOn_of_primary {kind : TokenKind} (isKind : token.kind = kind)
    (notMinus : kind ≠ .operator .subtract) (notNot : kind ≠ .not)
    (reads : ∀ rest, parsePrimary token (inner ++ rest) = .ok (e, inner.length)) :
    ReadsOn (token :: inner) e := by
  intro rest tree n members
  rw [List.cons_append]
  refine (parseOperand_primary_eq_ok (isKind ▸ notMinus) (isKind ▸ notNot)).mpr
    ⟨e, inner.length, n, reads rest, ?_, Nat.add_right_comm ..⟩
  rwa [List.drop_left]

theorem readsOn_of_group {left right : Token} (isLeft : left.kind = .leftParen)
    (isRight : right.kind = .rightParen)
    (inside : ∀ rest, parseExpr 1 (inner ++ right :: rest) = .ok (e, inner.length)) :
    ReadsOn (left :: (inner ++ [right])) e := by
  refine readsOn_of_primary isLeft (by decide) (by decide) fun rest => ?_
  rw [List.append_assoc, List.length_append]
  exact (parsePrimary_paren_eq_ok isLeft).mpr
    ⟨inner.length, right, rest, inside rest, List.drop_left, isRight, rfl⟩

/-- An operand is a whole expression where no operator follows that is strong enough. -/
theorem parseExpr_of_operand (operand : parseOperand (tokens ++ rest) = .ok (e, tokens.length))
    (stops : Stops strength rest) :
    parseExpr strength (tokens ++ rest) = .ok (e, tokens.length) := by
  refine parseExpr_eq_ok.mpr ⟨e, tokens.length, 0, operand, ?_, rfl⟩
  rw [List.drop_left]
  exact parseOperators_of_stops e stops

theorem ReadsAs.whole (reads : ReadsAs tokens e) (closes : Closes rest) (strength : Nat) :
    parseExpr strength (tokens ++ rest) = .ok (e, tokens.length) :=
  parseExpr_of_operand (reads rest closes.noDot) (closes.stops strength)

/-- No operand begins with a closing parenthesis. -/
theorem parseOperand_begins (parsed : parseOperand tokens = .ok (e, n)) :
    ∀ token ∈ tokens.head?, token.kind ≠ .rightParen := by
  match tokens, parsed with
  | [], _ =>
      rintro _ ⟨⟩
  | token :: rest, parsed =>
      rintro _ ⟨rfl⟩ isRight
      have notMinus : token.kind ≠ .operator .subtract := isRight ▸ by decide
      have notNot : token.kind ≠ .not := isRight ▸ by decide
      obtain ⟨_, _, _, primary, -, -⟩ := (parseOperand_primary_eq_ok notMinus notNot).mp parsed
      rcases primary_cases primary with ⟨_, kind⟩ | ⟨_, kind⟩ | ⟨_, kind⟩ | kind
      · cases isRight.symm.trans kind
      · cases isRight.symm.trans kind
      · cases isRight.symm.trans kind
      · cases isRight.symm.trans kind

/-- Tokens that printing puts down for the tree are read as the tree, with the accesses behind them
if it is no negation. -/
def Rereads (e : Expr) : Prop :=
  ∀ ⦃tokens : List Token⦄, tokens.map Token.kind = e.printed →
    ∃ e', e'.bare = e.bare ∧ ReadsAs tokens e' ∧ (¬e.IsNegation → ReadsOn tokens e')

/-- Arguments that are read one by one are read together. -/
theorem parseMoreArguments_printed {close : Token} (isRight : close.kind = .rightParen)
    {args : List Expr} (filled : args ≠ []) (inside : ∀ arg ∈ args, arg.Rereads)
    {tokens : List Token} (kinds : tokens.map Token.kind = printedArguments args) :
    ∃ args', bares args' = bares args ∧ ∀ rest,
      parseMoreArguments (tokens ++ close :: rest) = .ok (args', tokens.length + 1) := by
  induction args generalizing tokens with
  | nil => exact absurd rfl filled
  | cons first others ih =>
      obtain ⟨here, there⟩ := List.forall_mem_cons.mp inside
      cases others with
      | nil =>
          obtain ⟨e', same, reads, -⟩ := here kinds
          refine ⟨[e'], by rw [bares, bares, bares, bares, same], fun rest => ?_⟩
          have whole := reads.whole (closes_cons (.inl isRight) rest) 1
          exact parseMoreArguments_eq_ok.mpr ⟨e', tokens.length, close, rest, whole, List.drop_left,
            .inl ⟨isRight, rfl, rfl⟩⟩
      | cons next more =>
          obtain ⟨front, behind, rfl, frontKinds, behindKinds⟩ := List.map_eq_append_iff.mp kinds
          obtain ⟨comma, back, rfl, isComma, backKinds⟩ := List.map_eq_cons_iff.mp behindKinds
          obtain ⟨e', same, reads, -⟩ := here frontKinds
          obtain ⟨args', sameArgs, readsArgs⟩ := ih (List.cons_ne_nil _ _) there backKinds
          refine ⟨e' :: args', ?_, fun rest => ?_⟩
          · rw [bares, same, sameArgs, ← bares]
          · rw [List.append_assoc, List.cons_append]
            have whole := reads.whole (closes_cons (.inr (.inl isComma)) (back ++ close :: rest)) 1
            refine parseMoreArguments_eq_ok.mpr ⟨e', front.length, comma, back ++ close :: rest,
              whole, List.drop_left, .inr ⟨isComma, args', back.length + 1, readsArgs rest, rfl,
                ?_⟩⟩
            rw [List.length_append, List.length_cons]

theorem parseArguments_printed {close : Token} (isRight : close.kind = .rightParen)
    {args : List Expr} (inside : ∀ arg ∈ args, arg.Rereads)
    {tokens : List Token} (kinds : tokens.map Token.kind = printedArguments args) :
    ∃ args', bares args' = bares args ∧ ∀ rest,
      parseArguments (tokens ++ close :: rest) = .ok (args', tokens.length + 1) := by
  cases args with
  | nil =>
      rw [List.map_eq_nil_iff.mp kinds]
      exact ⟨[], rfl, parseArguments_empty isRight⟩
  | cons first others =>
      obtain ⟨args', same, reads⟩ :=
        parseMoreArguments_printed isRight (List.cons_ne_nil _ _) inside kinds
      refine ⟨args', same, fun rest => ?_⟩
      -- an argument is read here, hence no closing parenthesis stands first
      obtain ⟨_, _, _, _, operand, -⟩ := parseMoreArguments_eq_ok.mp (reads rest)
      obtain ⟨_, _, _, begins, -⟩ := parseExpr_eq_ok.mp operand
      rw [parseArguments_of_notEmpty (parseOperand_begins begins)]
      exact reads rest

theorem rereads_literal (token : Token) (l : Literal) : (literal token l).Rereads := by
  intro tokens kinds
  obtain ⟨t, rfl, kind⟩ := List.map_eq_singleton_iff.mp kinds
  have reads : ReadsOn [t] (literal t l) :=
    readsOn_of_primary kind (by intro same; cases same) (by intro same; cases same)
      (parsePrimary_literal kind)
  exact ⟨literal t l, rfl, reads.readsAs, fun _ => reads⟩

theorem rereads_field (token : Token) (name : String) : (field token name).Rereads := by
  intro tokens kinds
  obtain ⟨t, rfl, kind⟩ := List.map_eq_singleton_iff.mp kinds
  have reads : ReadsOn [t] (field t name) :=
    readsOn_of_primary kind (by intro same; cases same) (by intro same; cases same)
      (parsePrimary_field kind)
  exact ⟨field t name, rfl, reads.readsAs, fun _ => reads⟩

theorem rereads_member {target : Expr} (positive : ¬target.IsNegation) (inside : target.Rereads)
    (token : Token) (name : String) : (member token target name).Rereads := by
  intro tokens kinds
  obtain ⟨inner, access, rfl, innerKinds, accessKinds⟩ := List.map_eq_append_iff.mp kinds
  obtain ⟨dot, names, rfl, isDot, nameKinds⟩ := List.map_eq_cons_iff.mp accessKinds
  obtain ⟨t, rfl, isWord⟩ := List.map_eq_singleton_iff.mp nameKinds
  obtain ⟨target', same, -, readsTarget⟩ := inside innerKinds
  have reads : ReadsOn (inner ++ [dot, t]) (member (accessToken dot t) target' name) := by
    intro rest tree n members
    rw [List.append_assoc, List.length_append, Nat.add_assoc, Nat.add_comm _ n]
    refine readsTarget positive _ tree (n + 2) ((parseMembers_dot_eq_ok isDot).mpr ?_)
    exact ⟨name, congrArg attribute? isWord, n, members, rfl⟩
  refine ⟨_, ?_, reads.readsAs, fun _ => reads⟩
  rw [bare, bare, same]

theorem rereads_call {args : List Expr} (inside : ∀ arg ∈ args, arg.Rereads) (token : Token)
    (name : String) : (call token name args).Rereads := by
  intro tokens kinds
  obtain ⟨t, more, rfl, isWord, moreKinds⟩ := List.map_eq_cons_iff.mp kinds
  obtain ⟨paren, behind, rfl, isParen, behindKinds⟩ := List.map_eq_cons_iff.mp moreKinds
  obtain ⟨inner, last, rfl, innerKinds, lastKinds⟩ := List.map_eq_append_iff.mp behindKinds
  obtain ⟨close, rfl, isRight⟩ := List.map_eq_singleton_iff.mp lastKinds
  obtain ⟨args', same, parsed⟩ := parseArguments_printed isRight inside innerKinds
  have reads : ReadsOn (t :: paren :: (inner ++ [close])) (call t name args') := by
    refine readsOn_of_primary isWord (by intro other; cases other) (by intro other; cases other)
      fun rest => ?_
    rw [List.cons_append, List.append_assoc, List.length_cons, List.length_append]
    exact (parsePrimary_call_eq_ok isWord isParen).mpr ⟨args', _, parsed rest, rfl, rfl⟩
  refine ⟨_, ?_, reads.readsAs, fun _ => reads⟩
  rw [bare, bare, same]

/-- Accesses behind a negation belong to what is negated. -/
theorem rereads_negate {operand : Expr} (inside : operand.Rereads) (token : Token) :
    (unary token .negate operand).Rereads := by
  intro tokens kinds
  obtain ⟨minus, inner, rfl, isMinus, innerKinds⟩ := List.map_eq_cons_iff.mp kinds
  obtain ⟨operand', same, reads, -⟩ := inside innerKinds
  refine ⟨unary minus .negate operand', ?_, fun rest noDot => ?_,
    fun positive => absurd trivial positive⟩
  · rw [bare, bare, same]
  · exact (parseOperand_negate_eq_ok isMinus).mpr ⟨operand', _, reads rest noDot, rfl, rfl⟩

theorem rereads_not {operand : Expr} (inside : operand.Rereads) (token : Token) :
    (unary token .not operand).Rereads := by
  intro tokens kinds
  obtain ⟨paren, more, rfl, isParen, moreKinds⟩ := List.map_eq_cons_iff.mp kinds
  obtain ⟨sign, behind, rfl, isNot, behindKinds⟩ := List.map_eq_cons_iff.mp moreKinds
  obtain ⟨inner, last, rfl, innerKinds, lastKinds⟩ := List.map_eq_append_iff.mp behindKinds
  obtain ⟨close, rfl, isRight⟩ := List.map_eq_singleton_iff.mp lastKinds
  obtain ⟨operand', same, reads, -⟩ := inside innerKinds
  have group : ReadsOn (paren :: ((sign :: inner) ++ [close])) (unary sign .not operand') :=
    readsOn_of_group isParen isRight fun rest => by
      have closes := closes_cons (.inl isRight) rest
      exact parseExpr_of_operand ((parseOperand_not_eq_ok isNot).mpr
        ⟨operand', _, reads.whole closes notStrength, rfl, rfl⟩) (closes.stops 1)
  refine ⟨_, ?_, group.readsAs, fun _ => group⟩
  rw [bare, bare, same]

theorem rereads_binary {lhs rhs : Expr} (left : lhs.Rereads) (right : rhs.Rereads) (token : Token)
    (op : BinaryOp) : (binary token op lhs rhs).Rereads := by
  intro tokens kinds
  obtain ⟨paren, more, rfl, isParen, moreKinds⟩ := List.map_eq_cons_iff.mp kinds
  obtain ⟨first, behind, rfl, firstKinds, behindKinds⟩ := List.map_eq_append_iff.mp moreKinds
  obtain ⟨sign, others, rfl, isOp, otherKinds⟩ := List.map_eq_cons_iff.mp behindKinds
  obtain ⟨second, last, rfl, secondKinds, lastKinds⟩ := List.map_eq_append_iff.mp otherKinds
  obtain ⟨close, rfl, isRight⟩ := List.map_eq_singleton_iff.mp lastKinds
  obtain ⟨lhs', sameLeft, readsLeft, -⟩ := left firstKinds
  obtain ⟨rhs', sameRight, readsRight, -⟩ := right secondKinds
  have group : ReadsOn (paren :: ((first ++ sign :: second) ++ [close]))
      (binary sign op lhs' rhs') :=
    readsOn_of_group isParen isRight fun rest => by
      have closes := closes_cons (.inl isRight) rest
      have inside := readsRight.whole closes (op.strength + 1)
      have ends := parseOperators_of_stops (binary sign op lhs' rhs') (closes.stops 1)
      have noDot : NoDot (sign :: (second ++ close :: rest)) := by
        rintro _ ⟨rfl⟩ isDot
        cases isOp.symm.trans isDot
      rw [List.append_assoc, List.cons_append]
      refine parseExpr_eq_ok.mpr
        ⟨lhs', first.length, second.length + 1, readsLeft _ noDot, ?_, ?_⟩
      · rw [List.drop_left]
        refine (parseOperators_operator_eq_ok isOp (one_le_strength op)).mpr
          ⟨rhs', second.length, 0, inside, ?_, rfl⟩
        rwa [List.drop_left]
      · rw [List.length_append, List.length_cons]
  have shape : first ++ sign :: (second ++ [close]) = (first ++ sign :: second) ++ [close] := by
    rw [List.append_assoc, List.cons_append]
  rw [shape]
  refine ⟨_, ?_, group.readsAs, fun _ => group⟩
  rw [bare, bare, sameLeft, sameRight]

/-- The tokens that printing puts down are read as the tree that was printed. -/
theorem reads_printed {e : Expr} (reprintable : e.Reprintable) : e.Rereads := by
  induction reprintable with
  | @literal token l => exact rereads_literal token l
  | @field token name => exact rereads_field token name
  | @member token _ name _ positive _ ih => exact rereads_member positive ih token name
  | @call token name _ _ ih => exact rereads_call ih token name
  | @unary token op _ _ ih =>
      cases op with
      | negate => exact rereads_negate ih token
      | not => exact rereads_not ih token
  | @binary token op _ _ _ _ ihl ihr => exact rereads_binary ihl ihr token op

/-- What is so of every token that a text can begin with is so of the tokens of a tree that was read
from a text. -/
theorem walk_of_lexemes {P : TokenKind → Prop}
    (each : ∀ {c rest kind width}, lexeme? c rest = some (kind, width) → P kind)
    (ending : P .endOfText) {text : String} {e : Expr} (parsed : ofText text = .ok e) :
    e.Labelled ∧ ∀ kind ∈ e.walk, P kind := by
  obtain ⟨tokens, scanned, parsed⟩ := ofText_eq_ok.mp parsed
  obtain ⟨kinds, lexes, all⟩ := Token.lexes_of_scan scanned
  obtain ⟨n, inside, -⟩ := ofTokens_eq_ok.mp parsed
  obtain ⟨⟨taken, rest, rfl, -, -, shows⟩, labelled⟩ := parseExpr_takes inside
  refine ⟨labelled, fun kind here => ?_⟩
  have shown : kind ∈ Token.shown taken := shows ▸ here
  have known : kind ∈ kinds ++ [.endOfText] := by
    rw [← all, List.map_append]
    exact List.mem_append_left _ (List.mem_filter.mp shown).1
  rcases List.mem_append.mp known with read | last
  · exact lexes.forall_mem each kind read
  · rwa [List.mem_singleton.mp last]

/-- The tokens of a tree are such as are read from a text. -/
theorem read_walk {text : String} {e : Expr} (parsed : ofText text = .ok e) :
    e.Labelled ∧ ∀ kind ∈ e.walk, kind.Read :=
  walk_of_lexemes read_of_lexeme trivial parsed

/-- A tree that was read from a text can be printed and read again: only its tokens change. -/
theorem ofText_text {text : String} {e : Expr} (parsed : ofText text = .ok e)
    (reprintable : e.Reprintable) : ∃ e', ofText e.text = .ok e' ∧ e'.bare = e.bare := by
  obtain ⟨labelled, read⟩ := read_walk parsed
  have lexes := lexes_text labelled read reprintable .nothing
  rw [List.append_nil] at lexes
  obtain ⟨tokens, scanned, kinds⟩ := Token.scan_of_lexes lexes ⟨1, 1⟩
  obtain ⟨inner, last, rfl, innerKinds, lastKinds⟩ := List.map_eq_append_iff.mp kinds
  obtain ⟨ending, rfl, isEnd⟩ := List.map_eq_singleton_iff.mp lastKinds
  obtain ⟨e', same, reads, -⟩ := reads_printed reprintable innerKinds
  refine ⟨e', ofText_eq_ok.mpr ⟨_, scanned, ofTokens_eq_ok.mpr ⟨inner.length, ?_, ?_⟩⟩, same⟩
  · exact reads.whole (closes_cons (.inr (.inr isEnd)) []) 1
  · rw [List.drop_left]
    rintro _ ⟨rfl⟩
    exact isEnd

/-- A stretch of the first line. -/
def columns (start stop : Nat) : Range := ⟨⟨1, start⟩, ⟨1, stop⟩⟩

def oneAndAHalf : Number := ⟨0x3FF8000000000000⟩

def widthText : String := "1.5 = -size({land use}, 'it\\'s').width or not open"

def widthTree : Expr :=
  binary ⟨.operator .or, columns 40 42⟩ .or
    (binary ⟨.operator (.compare .equal), columns 5 6⟩ (.compare .equal)
      (literal ⟨.literal (.number oneAndAHalf), columns 1 4⟩ (.number oneAndAHalf))
      (unary ⟨.operator .subtract, columns 7 8⟩ .negate
        (member ⟨.word "width", columns 33 39⟩
          (call ⟨.word "size", columns 8 12⟩ "size"
            [field ⟨.field "land use", columns 13 23⟩ "land use",
              literal ⟨.literal (.string "it's"), columns 25 32⟩ (.string "it's")])
          "width")))
    (unary ⟨.not, columns 43 46⟩ .not (field ⟨.word "open", columns 47 51⟩ "open"))

theorem widthText_reprints :
    ofText widthText = .ok widthTree ∧ widthTree.Reprintable ∧
      ∃ e', ofText widthTree.text = .ok e' ∧ e'.bare = widthTree.bare := by
  have number : lexeme? '1' (widthText.toList.drop 1) =
      some (.literal (.number oneAndAHalf), 2) := by
    decide +kernel
  have parsed : ofText widthText = .ok widthTree := by
    -- behind the number all is evaluated: the tokens first, then the tree
    refine ofText_eq_ok.mpr
      ⟨_, (Token.scan_lexeme_eq_ok rfl number).mpr ⟨_, by with_unfolding_all rfl, rfl⟩, ?_⟩
    with_unfolding_all rfl
  have isName : IsName "width" :=
    ⟨⟨'w', ['i', 'd', 't', 'h'], rfl, rfl, List.all_eq_true.mp rfl⟩, by decide +kernel⟩
  have size : (call ⟨.word "size", columns 8 12⟩ "size"
      [field ⟨.field "land use", columns 13 23⟩ "land use",
        literal ⟨.literal (.string "it's"), columns 25 32⟩ (.string "it's")]).Reprintable := by
    refine .call (List.forall_mem_cons.mpr ⟨.field, List.forall_mem_singleton.mpr (.literal ?_)⟩)
    change '\\' ∉ "it's".toList
    decide +kernel
  have reprintable : widthTree.Reprintable :=
    .binary (.binary (.literal (by exact rfl)) (.unary (.member isName id size))) (.unary .field)
  exact ⟨parsed, reprintable, ofText_text parsed reprintable⟩

end Expr

end RecordExpr
