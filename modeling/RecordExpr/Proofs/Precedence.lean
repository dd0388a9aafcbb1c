import Mathlib.Data.List.TakeWhile
import RecordExpr.Proofs.ReadingAhead

set_option autoImplicit false

namespace RecordExpr

/-- The tokens that stand outside all parentheses, if so many are open in front of them. -/
def Token.outside : Nat → List Token → List Token
  | _, [] => []
  | depth, token :: rest =>
    match token.kind with
    | .leftParen => outside (depth + 1) rest
    | .rightParen => outside (depth - 1) rest
    | _ => if depth = 0 then token :: outside depth rest else outside depth rest

/-- Tokens that are one operand as a whole. No `not` stands outside parentheses, since that would
take in operators behind the operand. -/
structure Operand where
  tokens : List Token
  tree : Expr
  whole : Expr.parseOperand tokens = .ok (tree, tokens.length)
  closed : ∀ token ∈ Token.outside 0 tokens, token.kind ≠ .not

/-- An operator with its right operand. -/
structure Link where
  token : Token
  op : BinaryOp
  isOp : token.kind = .operator op
  operand : Operand

namespace Link

def strength (link : Link) : Nat := link.op.strength

def tokens (link : Link) : List Token := link.token :: link.operand.tokens

end Link

/-- The tree of a first operand and the operators behind it. The root is the rightmost operator
among the weakest: those to its left are at least as strong, those to its right stronger. -/
inductive Groups : Expr → List Link → Expr → Prop where
  | alone (lhs : Expr) : Groups lhs [] lhs
  | split {lhs left_tree right_tree : Expr} {left right : List Link} (root : Link)
      (weakest : ∀ link ∈ left, root.strength ≤ link.strength)
      (last : ∀ link ∈ right, root.strength < link.strength)
      (leftSide : Groups lhs left left_tree)
      (rightSide : Groups root.operand.tree right right_tree) :
      Groups lhs (left ++ root :: right) (.binary root.token root.op left_tree right_tree)

namespace Groups

variable {lhs tree : Expr} {links : List Link}

theorem parts (groups : Groups lhs links tree) :
    (links = [] ∧ tree = lhs) ∨
      ∃ left root right left_tree right_tree, links = left ++ root :: right ∧
        (∀ link ∈ left, root.strength ≤ link.strength) ∧
        (∀ link ∈ right, root.strength < link.strength) ∧ Groups lhs left left_tree ∧
        Groups root.operand.tree right right_tree ∧
        tree = .binary root.token root.op left_tree right_tree := by
  cases groups with
  | alone => exact .inl ⟨rfl, rfl⟩
  | split root weakest last leftSide rightSide =>
      exact .inr ⟨_, root, _, _, _, rfl, weakest, last, leftSide, rightSide, rfl⟩

/-- There is one place to split. -/
theorem split_unique {left right left' right' : List Link} {root root' : Link}
    (same : left ++ root :: right = left' ++ root' :: right')
    (weakest : ∀ link ∈ left, root.strength ≤ link.strength)
    (last : ∀ link ∈ right, root.strength < link.strength)
    (weakest' : ∀ link ∈ left', root'.strength ≤ link.strength)
    (last' : ∀ link ∈ right', root'.strength < link.strength) :
    left = left' ∧ root = root' ∧ right = right' := by
  rcases List.append_eq_append_iff.mp same with ⟨between, hleft, hright⟩ | ⟨between, hleft, hright⟩
  · cases between with
    | nil =>
        rw [List.append_nil] at hleft
        obtain ⟨rfl, rfl⟩ := List.cons.inj hright
        exact ⟨hleft.symm, rfl, rfl⟩
    | cons first between =>
        obtain ⟨rfl, rfl⟩ := List.cons.inj hright
        have above := weakest' root (by simp [hleft])
        have below := last root' (by simp)
        omega
  · cases between with
    | nil =>
        rw [List.append_nil] at hleft
        obtain ⟨rfl, rfl⟩ := List.cons.inj hright
        exact ⟨hleft, rfl, rfl⟩
    | cons first between =>
        obtain ⟨rfl, rfl⟩ := List.cons.inj hright
        have above := weakest root' (by simp [hleft])
        have below := last' root (by simp)
        omega

/-- There is one such tree. -/
theorem unique (groups : Groups lhs links tree) :
    ∀ {other : Expr}, Groups lhs links other → other = tree := by
  induction groups with
  | alone lhs =>
      intro other groups
      rcases groups.parts with ⟨-, same⟩ | ⟨left, root, right, _, _, impossible, -⟩
      · exact same
      · simp at impossible
  | @split lhs left_tree right_tree left right root weakest last _ _ ihLeft ihRight =>
      intro other groups
      rcases groups.parts with ⟨impossible, -⟩ |
        ⟨left', root', right', _, _, same, weakest', last', leftSide', rightSide', made⟩
      · simp at impossible
      · obtain ⟨rfl, rfl, rfl⟩ := split_unique same weakest last weakest' last'
        rw [made, ihLeft leftSide', ihRight rightSide']

/-- An operator that has taken in the stronger ones behind it goes to the bottom of the tree that
the others make, the first of which is no stronger. The induction is on that tree, whose leftmost
leaf is the operator. -/
theorem absorb {link : Link} {own later : List Link} {rhs : Expr}
    (operand : Groups link.operand.tree own rhs)
    (stronger : ∀ x ∈ own, link.strength < x.strength)
    (groups : Groups (.binary link.token link.op lhs rhs) later tree) :
    (∀ x ∈ later.head?, x.strength ≤ link.strength) →
      Groups lhs (link :: (own ++ later)) tree := by
  generalize made : Expr.binary link.token link.op lhs rhs = start at groups
  induction groups with
  | alone start =>
      intro _
      subst made
      rw [List.append_nil]
      show Groups lhs ([] ++ link :: own) _
      exact .split link nofun stronger (.alone lhs) operand
  | @split start left_tree right_tree left right root weakest last _ rightSide ihLeft _ =>
      intro noStronger
      have root_le : root.strength ≤ link.strength := by
        cases left with
        | nil => exact noStronger root rfl
        | cons first others =>
            have above := weakest first List.mem_cons_self
            have below := noStronger first rfl
            omega
      have leftSide : Groups lhs (link :: (own ++ left)) left_tree := by
        apply ihLeft made
        intro x first
        cases left with
        | nil => cases first
        | cons _ _ => exact noStronger x first
      have whole : link :: (own ++ (left ++ root :: right)) =
          (link :: (own ++ left)) ++ root :: right := by
        simp
      rw [whole]
      apply Groups.split root _ last leftSide rightSide
      intro x member
      simp only [List.mem_cons, List.mem_append] at member
      rcases member with rfl | inside | before
      · exact root_le
      · have above := stronger x inside
        omega
      · exact weakest x before

end Groups

namespace Expr

theorem forall_head_append {P : Token → Prop} {front back : List Token}
    (inFront : ∀ token ∈ front.head?, P token) (behind : ∀ token ∈ back.head?, P token) :
    ∀ token ∈ (front ++ back).head?, P token := by
  cases front with
  | nil => exact behind
  | cons _ _ => exact inFront

/-- An operand is read in the same way in front of anything that does not go on with it. -/
theorem parseOperand_followed {rest : List Token} (noDot : NoDot rest) (noParen : NoParen rest)
    (tokens : List Token) :
    ∀ {e : Expr}, parseOperand tokens = .ok (e, tokens.length) →
      (∀ token ∈ Token.outside 0 tokens, token.kind ≠ .not) →
      parseOperand (tokens ++ rest) = .ok (e, tokens.length) := by
  induction tokens with
  | nil =>
      intro e parsed _
      rw [parseOperand] at parsed
      cases parsed
  | cons token inner ih =>
      intro e parsed closed
      by_cases isMinus : token.kind = .operator .subtract
      · obtain ⟨operand, k, inside, rfl, count⟩ := (parseOperand_negate_eq_ok isMinus).mp parsed
        obtain rfl : k = inner.length := Nat.succ.inj count
        have further : ∀ t ∈ Token.outside 0 inner, t.kind ≠ .not := by
          intro t member
          apply closed
          simp [Token.outside, isMinus, member]
        exact (parseOperand_negate_eq_ok isMinus).mpr ⟨operand, _, ih inside further, rfl, rfl⟩
      · by_cases isNot : token.kind = .not
        · have here : token ∈ Token.outside 0 (token :: inner) := by
            simp [Token.outside, isNot]
          exact absurd isNot (closed token here)
        · obtain ⟨target, k, m, primary, members, count⟩ :=
            (parseOperand_primary_eq_ok isMinus isNot).mp parsed
          have enough : k ≤ inner.length :=
            Nat.le_of_succ_le_succ (parsePrimary_spelled primary).le_length
          have all : k + m = inner.length := Nat.succ.inj count
          have taken : (inner.drop k).take m = inner.drop k := by
            apply List.take_of_length_le
            rw [List.length_drop]
            omega
          have front : parsePrimary token (inner.take k ++ (inner.drop k ++ rest)) =
              .ok (target, k) :=
            parsePrimary_ahead primary fun before => forall_head_append before noParen
          have back : parseMembers target ((inner.drop k).take m ++ rest) = .ok (e, m) :=
            parseMembers_ahead members fun _ => noDot
          rw [taken] at back
          rw [← List.append_assoc, List.take_append_drop] at front
          rw [List.cons_append]
          apply (parseOperand_primary_eq_ok isMinus isNot).mpr
          refine ⟨target, k, m, front, ?_, count⟩
          rw [List.drop_append_of_le_length enough]
          exact back

/-- The tokens of operators with their operands, in front of what closes the expression. -/
def linked (links : List Link) (stop : List Token) : List Token :=
  links.flatMap Link.tokens ++ stop

section Climbing

variable {stop : List Token}

theorem linked_cons (link : Link) (links : List Link) (stop : List Token) :
    linked (link :: links) stop = link.token :: (link.operand.tokens ++ linked links stop) := by
  simp [linked, Link.tokens]

theorem linked_append (front back : List Link) (stop : List Token) :
    linked (front ++ back) stop = front.flatMap Link.tokens ++ linked back stop := by
  simp [linked]

theorem noDot_linked (closes : Closes stop) (links : List Link) : NoDot (linked links stop) := by
  cases links with
  | nil => exact closes.noDot
  | cons link links =>
      rw [linked_cons]
      intro token first
      cases first
      simp [link.isOp]

theorem noParen_linked (closes : Closes stop) (links : List Link) :
    NoParen (linked links stop) := by
  cases links with
  | nil => exact closes.forall_head (· ≠ .leftParen) (by decide) (by decide) (by decide)
  | cons link links =>
      rw [linked_cons]
      intro token first
      cases first
      simp [link.isOp]

theorem parseOperand_linked (closes : Closes stop) (operand : Operand) (links : List Link) :
    parseOperand (operand.tokens ++ linked links stop) =
      .ok (operand.tree, operand.tokens.length) :=
  parseOperand_followed (noDot_linked closes links) (noParen_linked closes links) operand.tokens
    operand.whole operand.closed

/-- The operators that are at least this strong, up to the first that is not. -/
def own (strength : Nat) (links : List Link) : List Link :=
  links.takeWhile fun link => strength ≤ link.strength

theorem le_of_mem_own {strength : Nat} {links : List Link} :
    ∀ link ∈ own strength links, strength ≤ link.strength := by
  intro link member
  have strong := List.mem_takeWhile_imp member
  exact of_decide_eq_true strong

/-- What an operator takes in, and what its reader goes on with behind that, is what its reader
takes. -/
theorem own_cons {strength : Nat} {link : Link} (strong : strength ≤ link.strength)
    {inside later : List Link} (taken : ∀ x ∈ inside, link.strength < x.strength) :
    own strength (link :: (inside ++ later)) = link :: (inside ++ own strength later) := by
  have all : ∀ x ∈ inside, decide (strength ≤ x.strength) = true := by
    intro x member
    have above := taken x member
    exact decide_eq_true (by omega)
  rw [own, List.takeWhile_cons, if_pos (decide_eq_true strong), List.takeWhile_append_of_pos all]
  rfl

/-- What an operator takes in goes up to one that is not stronger. -/
theorem exists_own (link : Link) (links : List Link) :
    ∃ later, links = own (link.strength + 1) links ++ later ∧
      ∀ x ∈ later.head?, x.strength ≤ link.strength := by
  refine ⟨links.dropWhile fun x => link.strength + 1 ≤ x.strength,
    List.takeWhile_append_dropWhile.symm, ?_⟩
  intro x first
  have weak := List.head?_dropWhile_not
    (fun x : Link => decide (link.strength + 1 ≤ x.strength)) links
  rw [Option.mem_def.mp first] at weak
  simp at weak
  omega

/-- What a reader of operators takes, grouped behind the tree that it begins with. -/
def ReadsGroups (strength : Nat) (lhs : Expr) (links : List Link) (stop : List Token) : Prop :=
  ∃ tree, parseOperators strength lhs (linked links stop) =
      .ok (tree, ((own strength links).flatMap Link.tokens).length) ∧
    Groups lhs (own strength links) tree

/-- The operators that are at least this strong are read, and grouped. The induction is on the
number of operators: an operator takes in those which are stronger, and the next turn begins behind
them. -/
theorem parseOperators_groups (closes : Closes stop) (strength : Nat) (lhs : Expr)
    (links : List Link) : ReadsGroups strength lhs links stop := by
  cases links with
  | nil => exact ⟨lhs, parseOperators_of_stops lhs (closes.stops strength), .alone lhs⟩
  | cons link rest =>
      by_cases strong : strength ≤ link.strength
      · obtain ⟨later, whole, weaker⟩ := exists_own link rest
        have shorter : later.length ≤ rest.length := by
          rw [whole, List.length_append]
          omega
        obtain ⟨rhs, absorbed, operandGroups⟩ :=
          parseOperators_groups closes (link.strength + 1) link.operand.tree rest
        obtain ⟨tree, others, groups⟩ :=
          parseOperators_groups closes strength (.binary link.token link.op lhs rhs) later
        have stronger : ∀ x ∈ own (link.strength + 1) rest, link.strength < x.strength :=
          le_of_mem_own
        have noStronger : ∀ x ∈ (own strength later).head?, x.strength ≤ link.strength := by
          intro x first
          apply weaker
          cases later with
          | nil => cases first
          | cons next more =>
              rw [own, List.takeWhile_cons] at first
              split at first
              · exact first
              · cases first
        generalize own (link.strength + 1) rest = inside at absorbed operandGroups whole stronger
        subst whole
        have operand : parseExpr (link.op.strength + 1)
            (link.operand.tokens ++ linked (inside ++ later) stop) =
            .ok (rhs, link.operand.tokens.length + (inside.flatMap Link.tokens).length) := by
          apply parseExpr_eq_ok.mpr
          refine ⟨link.operand.tree, _, _, parseOperand_linked closes link.operand _, ?_, rfl⟩
          rw [List.drop_left]
          exact absorbed
        have behind : (link.operand.tokens ++ linked (inside ++ later) stop).drop
            (link.operand.tokens.length + (inside.flatMap Link.tokens).length) =
            linked later stop := by
          rw [← List.drop_drop, List.drop_left, linked_append, List.drop_left]
        rw [ReadsGroups, own_cons strong stronger, linked_cons]
        refine ⟨tree, ?_, operandGroups.absorb stronger groups noStronger⟩
        apply (parseOperators_operator_eq_ok link.isOp strong).mpr
        refine ⟨rhs, _, _, operand, behind ▸ others, ?_⟩
        simp [Link.tokens]
        omega
      · have stops : Stops strength (linked (link :: rest) stop) := by
          rw [linked_cons]
          intro token first op isOp
          cases first
          rw [link.isOp] at isOp
          cases isOp
          exact Nat.lt_of_not_le strong
        have nothing : own strength (link :: rest) = [] := by
          rw [own, List.takeWhile_cons, if_neg (by simpa using strong)]
        rw [ReadsGroups, nothing]
        exact ⟨lhs, parseOperators_of_stops lhs stops, .alone lhs⟩
termination_by links.length
decreasing_by
  · rw [List.length_cons]
    omega
  · rw [List.length_cons]
    omega

end Climbing

/-- Precedence climbing finds the reference tree. Whatever operands, with whatever operators between
them, make up an expression, the parser groups them by the strength of the operators: the root is
the rightmost one among the weakest, and the trees of the two sides are its children. `or` is weaker
than `and`, that is weaker than the comparisons, these are weaker than sums and differences, and
those than products, quotients and remainders. -/
theorem ofTokens_groups (first : Operand) (links : List Link) (range : Range) :
    (∀ relation : Comparison,
      [BinaryOp.or, .and, .compare relation, .add, .subtract, .multiply, .divide, .modulo].map
        BinaryOp.strength = [1, 2, 3, 4, 4, 5, 5, 5]) ∧
    ∃ tree,
      ofTokens (first.tokens ++ links.flatMap Link.tokens ++ [⟨.endOfText, range⟩]) = .ok tree ∧
      Groups first.tree links tree ∧ ∀ other, Groups first.tree links other → other = tree := by
  refine ⟨fun _ => rfl, ?_⟩
  have closes : Closes [⟨.endOfText, range⟩] := closes_cons (.inr (.inr rfl)) []
  obtain ⟨tree, parsed, groups⟩ := parseOperators_groups closes 1 first.tree links
  -- no operator is too weak for the outermost reader
  have all : own 1 links = links := by
    apply List.takeWhile_eq_self_iff.mpr
    intro link _
    exact decide_eq_true (one_le_strength link.op)
  rw [all] at parsed groups
  refine ⟨tree, ?_, groups, fun _ => groups.unique⟩
  rw [List.append_assoc]
  apply ofTokens_eq_ok.mpr
  refine ⟨first.tokens.length + (links.flatMap Link.tokens).length, ?_, ?_⟩
  · apply parseExpr_eq_ok.mpr
    refine ⟨first.tree, _, _, parseOperand_linked closes first links, ?_, rfl⟩
    rw [List.drop_left]
    exact parsed
  · intro token member
    rw [← List.drop_drop, List.drop_left, List.drop_left] at member
    cases member
    rfl

/-- An attribute of the subject record as an operand. -/
def fieldOperand (name : String) : Operand where
  tokens := [⟨.field name, {}⟩]
  tree := .field ⟨.field name, {}⟩ name
  whole := by with_unfolding_all rfl
  closed := by simp [Token.outside]

/-- A minus sign in front of parentheses in which a `not` stands. -/
def notOperand (name : String) : Operand where
  tokens := [⟨.operator .subtract, {}⟩, ⟨.leftParen, {}⟩, ⟨.not, {}⟩, ⟨.field name, {}⟩,
    ⟨.rightParen, {}⟩]
  tree := .unary ⟨.operator .subtract, {}⟩ .negate
    (.unary ⟨.not, {}⟩ .not (.field ⟨.field name, {}⟩ name))
  whole := by with_unfolding_all rfl
  closed := by simp [Token.outside]

def link (op : BinaryOp) (operand : Operand) : Link := ⟨⟨.operator op, {}⟩, op, rfl, operand⟩

/-- With rising and falling strengths: `a - b * c - d < -(not e)`. -/
theorem rising_and_falling :
    let node (op : BinaryOp) (lhs rhs : Expr) : Expr := .binary ⟨.operator op, {}⟩ op lhs rhs
    let a := fieldOperand "a"
    let b := fieldOperand "b"
    let c := fieldOperand "c"
    let d := fieldOperand "d"
    let e := notOperand "e"
    let links := [link .subtract b, link .multiply c, link .subtract d, link (.compare .less) e]
    ofTokens (a.tokens ++ links.flatMap Link.tokens ++ [⟨.endOfText, {}⟩]) =
      .ok (node (.compare .less)
        (node .subtract (node .subtract a.tree (node .multiply b.tree c.tree)) d.tree) e.tree) := by
  intro node a b c d e links
  have product : Groups b.tree ([] ++ [link .multiply c]) (node .multiply b.tree c.tree) :=
    .split _ nofun nofun (.alone b.tree) (.alone c.tree)
  have first : Groups a.tree ([] ++ link .subtract b :: ([] ++ [link .multiply c]))
      (node .subtract a.tree (node .multiply b.tree c.tree)) :=
    .split _ nofun (by decide) (.alone a.tree) product
  have second : Groups a.tree ([link .subtract b, link .multiply c] ++ [link .subtract d])
      (node .subtract (node .subtract a.tree (node .multiply b.tree c.tree)) d.tree) :=
    .split _ (by decide) nofun first (.alone d.tree)
  have third : Groups a.tree
      ([link .subtract b, link .multiply c, link .subtract d] ++ [link (.compare .less) e])
      (node (.compare .less)
        (node .subtract (node .subtract a.tree (node .multiply b.tree c.tree)) d.tree) e.tree) :=
    .split _ (by decide) nofun second (.alone e.tree)
  obtain ⟨-, tree, parsed, -, unique⟩ := ofTokens_groups a links {}
  rw [parsed, unique _ third]

end Expr

end RecordExpr
