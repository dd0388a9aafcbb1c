import RecordExpr.Proofs.Nodes
import RecordExpr.Proofs.Spelling
import RecordExpr.Proofs.TokenRanges

set_option autoImplicit false

namespace RecordExpr

/-- The other range is a part of this one. -/
def Range.Covers (r s : Range) : Prop := r.start ≤ s.start ∧ s.stop ≤ r.stop

namespace Range

variable {r s : Range}

theorem covers_refl (r : Range) : r.Covers r := ⟨le_refl _, le_refl _⟩

theorem merge_covers_left (r s : Range) : (r.merge s).Covers r :=
  ⟨min_le_left r.start s.start, le_max_left r.stop s.stop⟩

theorem merge_covers_right (r s : Range) : (r.merge s).Covers s :=
  ⟨min_le_right r.start s.start, le_max_right r.stop s.stop⟩

/-- The range of what stands behind something that is not empty covers more than nothing. -/
theorem Covers.filled (covers : r.Covers s) (filled : s.start < s.stop) : r.start < r.stop :=
  lt_of_le_of_lt covers.1 (lt_of_lt_of_le filled covers.2)

/-- Ranges one behind the other merge to what reaches from the first to the second. -/
theorem le_merge {p : Position} (first : p ≤ r.start) (second : p ≤ s.start) :
    p ≤ (r.merge s).start :=
  le_min first second

theorem merge_le {p : Position} (first : r.stop ≤ p) (second : s.stop ≤ p) :
    (r.merge s).stop ≤ p :=
  max_le first second

end Range

/-- The tokens lie between these places, one behind the other, and none but the end of the text is
empty. -/
inductive Token.Between : Position → List Token → Position → Prop where
  | nil {p q : Position} (ordered : p ≤ q) : Between p [] q
  | cons {p q : Position} {t : Token} {rest : List Token} (behind : p ≤ t.range.start)
      (ordered : t.range.start ≤ t.range.stop)
      (filled : t.kind ≠ .endOfText → t.range.start < t.range.stop)
      (more : Between t.range.stop rest q) : Between p (t :: rest) q

namespace Token.Between

variable {p p' q : Position} {front back tokens : List Token}

theorem mono (between : Between p tokens q) (earlier : p' ≤ p) : Between p' tokens q := by
  cases between with
  | nil ordered => exact .nil (le_trans earlier ordered)
  | cons behind ordered filled more => exact .cons (le_trans earlier behind) ordered filled more

theorem le (between : Between p tokens q) : p ≤ q := by
  induction between with
  | nil ordered => exact ordered
  | cons behind ordered _ _ ih => exact le_trans behind (le_trans ordered ih)

/-- There is a place between the first tokens and the others. -/
theorem split (between : Between p (front ++ back) q) :
    ∃ middle, Between p front middle ∧ Between middle back q := by
  induction front generalizing p with
  | nil => exact ⟨p, .nil (le_refl p), between⟩
  | cons t front ih =>
      cases between with
      | cons behind ordered filled more =>
          obtain ⟨middle, first, second⟩ := ih more
          exact ⟨middle, .cons behind ordered filled first, second⟩

end Token.Between

/-- The tokens of a text lie one behind the other. -/
theorem Laid.between {front cs : List Char} {tokens : List Token} (laid : Laid front cs tokens) :
    Token.Between (.behind front) tokens (.behind (front ++ cs)) := by
  induction laid with
  | done front =>
      rw [List.append_nil]
      exact .cons (le_refl _) (le_refl _) (fun other => absurd rfl other) (.nil (le_refl _))
  | @blank front cs c tokens _ _ ih =>
      rw [List.append_assoc, List.singleton_append] at ih
      apply ih.mono
      rw [Position.behind_append_singleton]
      exact le_of_lt (Position.before_next _ c)
  | @token front word cs kind tokens isToken _ ih =>
      rw [List.append_assoc] at ih
      obtain ⟨c, body, rfl, -⟩ := isToken
      have filled : Position.behind front < .behind (front ++ c :: body) := by
        rw [Position.behind_append]
        exact Position.before_advance _ c body
      exact .cons (le_refl _) (le_of_lt filled) (fun _ => filled) ih

namespace Expr

/-- How the range of a node lies to those of its token and of its children. -/
structure Nests (e : Expr) : Prop where
  filled : e.range.start < e.range.stop
  token : e.range.Covers e.token.range
  children : ∀ child ∈ e.children, e.range.Covers child.range
  /-- Each child ends before the next ones begin. -/
  ordered : e.children.Pairwise fun child next => child.range.stop ≤ next.range.start
  /-- An operator stands between its operands. -/
  operator : ∀ token op lhs rhs, e = binary token op lhs rhs →
    lhs.range.stop ≤ token.range.start ∧ token.range.stop ≤ rhs.range.start

/-- The ranges of the trees lie between these places, one behind the other, and those of all nodes
nest. -/
inductive Follow : Position → List Expr → Position → Prop where
  | nil {p q : Position} (ordered : p ≤ q) : Follow p [] q
  | cons {p q : Position} {e : Expr} {rest : List Expr} (behind : p ≤ e.range.start)
      (nests : ∀ d ∈ e.nodes, d.Nests) (more : Follow e.range.stop rest q) : Follow p (e :: rest) q

namespace Follow

variable {p p' q q' : Position} {e : Expr} {es : List Expr}

theorem mono (follow : Follow p es q) (earlier : p' ≤ p) (later : q ≤ q') : Follow p' es q' := by
  induction follow generalizing p' with
  | nil ordered => exact .nil (le_trans earlier (le_trans ordered later))
  | cons behind nests _ ih => exact .cons (le_trans earlier behind) nests (ih (le_refl _) later)

/-- All of the trees lie in between. -/
theorem within (follow : Follow p es q) :
    p ≤ q ∧ ∀ e ∈ es, p ≤ e.range.start ∧ e.range.stop ≤ q := by
  induction follow with
  | nil ordered => exact ⟨ordered, nofun⟩
  | @cons p q e rest behind nests _ ih =>
      obtain ⟨ordered, others⟩ := ih
      have filled := le_of_lt (nests e e.mem_nodes_self).filled
      have before : p ≤ e.range.stop := le_trans behind filled
      refine ⟨le_trans before ordered, List.forall_mem_cons.mpr ⟨⟨behind, ordered⟩, ?_⟩⟩
      intro d member
      exact ⟨le_trans before (others d member).1, (others d member).2⟩

theorem ordered (follow : Follow p es q) :
    es.Pairwise fun e next => e.range.stop ≤ next.range.start := by
  induction follow with
  | nil => exact .nil
  | cons _ _ more ih => exact .cons (fun next member => (more.within.2 next member).1) ih

theorem nests (follow : Follow p es q) : ∀ e ∈ es, ∀ d ∈ e.nodes, d.Nests := by
  induction follow with
  | nil => exact nofun
  | cons _ nests _ ih => exact List.forall_mem_cons.mpr ⟨nests, ih⟩

/-- A tree, of whose children this is known, with what is to be known of itself. -/
theorem single (nests : e.Nests) (children : Follow p' e.children q') (behind : p ≤ e.range.start)
    (before : e.range.stop ≤ q) : Follow p [e] q := by
  refine .cons behind ?_ (.nil before)
  intro d member
  rcases mem_nodes_iff.mp member with rfl | ⟨child, isChild, inside⟩
  · exact nests
  · exact children.nests child isChild d inside

theorem append {m m' : Position} {more : List Expr} (first : Follow p es m)
    (second : Follow m' more q) (apart : m ≤ m') : Follow p (es ++ more) q := by
  induction first with
  | nil ordered => exact second.mono (le_trans ordered apart) (le_refl q)
  | cons behind nests _ ih => exact .cons behind nests (ih apart)

end Follow

/-- A call reaches from its name to the end of its last argument, over all others. -/
theorem reach_bounds {p q : Position} {r : Range} {args : List Expr} (follow : Follow p args q)
    (ordered : r.start ≤ r.stop) (behind : r.stop ≤ p) :
    (reach r args).start = r.start ∧ r.stop ≤ (reach r args).stop ∧
      (∀ arg ∈ args, arg.range.stop ≤ (reach r args).stop) ∧ (reach r args).stop ≤ q := by
  induction args generalizing p with
  | nil => exact ⟨rfl, le_refl _, nofun, le_trans behind follow.within.1⟩
  | cons e rest ih =>
      obtain ⟨-, inside⟩ := follow.within
      have here := inside e List.mem_cons_self
      cases follow with
      | cons starts nests more =>
          have filled := (nests e e.mem_nodes_self).filled
          cases rest with
          | nil =>
              refine ⟨?_, le_max_left _ _, List.forall_mem_singleton.mpr (le_max_right _ _), ?_⟩
              · exact min_eq_left (le_trans ordered (le_trans behind starts))
              · have ends := le_trans (le_of_lt filled) here.2
                exact max_le (le_trans behind (le_trans starts ends)) here.2
          | cons next rest =>
              have further : r.stop ≤ e.range.stop :=
                le_trans behind (le_trans starts (le_of_lt filled))
              obtain ⟨start, reaches, others, within⟩ := ih more further
              refine ⟨start, reaches, List.forall_mem_cons.mpr ⟨?_, others⟩, within⟩
              have isNext : next ∈ next :: rest := List.mem_cons_self
              have nextFilled := (more.nests next isNext next next.mem_nodes_self).filled
              calc e.range.stop
                _ ≤ next.range.start := (more.within.2 next isNext).1
                _ ≤ next.range.stop := le_of_lt nextFilled
                _ ≤ (reach r (next :: rest)).stop := others next isNext

section Nodes

variable {p m q : Position} {token : Token} {lhs rhs target operand : Expr} {args : List Expr}

theorem follow_leaf {e : Expr} (between : Token.Between p [e.token] q)
    (visible : e.token.kind ≠ .endOfText) (leaf : e.children = [])
    (own : e.range = e.token.range) : Follow p [e] q := by
  cases between with
  | cons behind _ filled more =>
      have nests : e.Nests := by
        refine ⟨own ▸ filled visible, own ▸ Range.covers_refl _, ?_, ?_, ?_⟩
        · rw [leaf]
          exact nofun
        · rw [leaf]
          exact .nil
        · rintro _ _ _ _ rfl
          cases leaf
      have children : Follow p e.children p := by
        rw [leaf]
        exact .nil (le_refl p)
      rw [← own] at behind more
      exact .single nests children behind more.le

theorem follow_member (inside : Follow p [target] m) (behind : m ≤ token.range.start)
    (filled : token.range.start < token.range.stop) (before : token.range.stop ≤ q)
    (name : String) : Follow p [member token target name] q := by
  have here := inside.within.2 target List.mem_cons_self
  have covers := Range.merge_covers_right target.range token.range
  have nests : (member token target name).Nests := by
    refine ⟨covers.filled filled, covers, ?_, List.pairwise_singleton _ _, nofun⟩
    exact List.forall_mem_singleton.mpr (Range.merge_covers_left target.range token.range)
  refine .single nests inside (Range.le_merge here.1 ?_) (Range.merge_le ?_ before)
  · exact le_trans inside.within.1 behind
  · exact le_trans here.2 (le_trans behind (le_trans (le_of_lt filled) before))

theorem follow_call (behind : p ≤ token.range.start)
    (filled : token.range.start < token.range.stop) (inside : Follow token.range.stop args q)
    (name : String) : Follow p [call token name args] q := by
  obtain ⟨start, reaches, others, within⟩ := reach_bounds inside (le_of_lt filled) (le_refl _)
  have covers : (reach token.range args).Covers token.range := ⟨le_of_eq start, reaches⟩
  have nests : (call token name args).Nests := by
    refine ⟨covers.filled filled, covers, ?_, inside.ordered, nofun⟩
    intro arg isArg
    refine ⟨?_, others arg isArg⟩
    calc (reach token.range args).start
      _ = token.range.start := start
      _ ≤ token.range.stop := le_of_lt filled
      _ ≤ arg.range.start := (inside.within.2 arg isArg).1
  exact .single nests inside (le_of_le_of_eq behind start.symm) within

theorem follow_unary (behind : p ≤ token.range.start)
    (filled : token.range.start < token.range.stop) (inside : Follow token.range.stop [operand] q)
    (op : UnaryOp) : Follow p [unary token op operand] q := by
  have here := inside.within.2 operand List.mem_cons_self
  have covers := Range.merge_covers_left token.range operand.range
  have nests : (unary token op operand).Nests := by
    refine ⟨covers.filled filled, covers, ?_, List.pairwise_singleton _ _, nofun⟩
    exact List.forall_mem_singleton.mpr (Range.merge_covers_right token.range operand.range)
  refine .single nests inside (Range.le_merge behind ?_) (Range.merge_le inside.within.1 here.2)
  exact le_trans behind (le_trans (le_of_lt filled) here.1)

theorem follow_binary (left : Follow p [lhs] m) (behind : m ≤ token.range.start)
    (ordered : token.range.start ≤ token.range.stop) (right : Follow token.range.stop [rhs] q)
    (op : BinaryOp) : Follow p [binary token op lhs rhs] q := by
  have first := left.within.2 lhs List.mem_cons_self
  have second := right.within.2 rhs List.mem_cons_self
  have inside : Follow p [lhs, rhs] q := left.append right (le_trans behind ordered)
  have coversLeft := Range.merge_covers_left lhs.range rhs.range
  have coversRight := Range.merge_covers_right lhs.range rhs.range
  have leftFilled := (left.nests lhs List.mem_cons_self lhs lhs.mem_nodes_self).filled
  have rightFilled := (right.nests rhs List.mem_cons_self rhs rhs.mem_nodes_self).filled
  have opBehind : lhs.range.stop ≤ token.range.start := le_trans first.2 behind
  have nests : (binary token op lhs rhs).Nests := by
    refine ⟨coversLeft.filled leftFilled, ⟨?_, ?_⟩, ?_, inside.ordered, ?_⟩
    · exact le_trans coversLeft.1 (le_trans (le_of_lt leftFilled) opBehind)
    · exact le_trans second.1 (le_trans (le_of_lt rightFilled) coversRight.2)
    · exact List.forall_mem_cons.mpr ⟨coversLeft, List.forall_mem_singleton.mpr coversRight⟩
    · rintro _ _ _ _ ⟨⟩
      exact ⟨opBehind, second.1⟩
  have within := inside.within.2
  have leftWithin := within lhs List.mem_cons_self
  have rightWithin := within rhs (List.mem_cons_of_mem _ List.mem_cons_self)
  exact .single nests inside (Range.le_merge leftWithin.1 rightWithin.1)
    (Range.merge_le leftWithin.2 rightWithin.2)

end Nodes

theorem ne_endOfText_of_attribute? {kind : TokenKind} {name : String}
    (isName : attribute? kind = some name) : kind ≠ .endOfText := by
  rintro rfl
  cases isName

/-- Trees follow one another as the tokens do that they are made of. -/
theorem Spells.follow {tokens : List Token} {es : List Expr} {p q : Position}
    (spells : Spells tokens es) (between : Token.Between p tokens q) : Follow p es q := by
  induction spells generalizing p q with
  | nothing => exact .nil between.le
  | @literal token l isLiteral =>
      have visible : token.kind ≠ .endOfText := by
        rw [isLiteral]
        exact nofun
      exact follow_leaf between visible rfl rfl
  | field isName => exact follow_leaf between (ne_endOfText_of_attribute? isName) rfl rfl
  | @member front target dot name attributeName _ isDot isName ih =>
      obtain ⟨middle, before, behind⟩ := between.split
      cases behind with
      | cons dotBehind dotOrdered _ more =>
          cases more with
          | cons nameBehind nameOrdered nameFilled last =>
              have ahead := le_trans dotOrdered nameBehind
              have filled : (accessToken dot name).range.start <
                  (accessToken dot name).range.stop :=
                (Range.merge_covers_right dot.range name.range).filled
                  (nameFilled (ne_endOfText_of_attribute? isName))
              apply follow_member (ih before) _ filled
              · exact Range.merge_le (le_trans nameBehind (le_trans nameOrdered last.le)) last.le
              · exact Range.le_merge dotBehind (le_trans dotBehind ahead)
  | @call token left right name inner args isWord _ _ _ ih =>
      cases between with
      | cons behind _ filled more =>
          cases more with
          | cons parenBehind parenOrdered _ more =>
              obtain ⟨middle, arguments, closing⟩ := more.split
              have inside := (ih arguments).mono (le_trans parenBehind parenOrdered) closing.le
              exact follow_call behind (filled (by rw [isWord]; exact nofun)) inside name
  | @negate token inner operand isMinus _ ih =>
      cases between with
      | cons behind _ filled more =>
          exact follow_unary behind (filled (by rw [isMinus]; exact nofun)) (ih more) .negate
  | @not token inner operand isNot _ ih =>
      cases between with
      | cons behind _ filled more =>
          exact follow_unary behind (filled (by rw [isNot]; exact nofun)) (ih more) .not
  | @binary front back token op lhs rhs _ isOp _ left right =>
      obtain ⟨middle, before, rest⟩ := between.split
      cases rest with
      | cons behind ordered _ more =>
          exact follow_binary (left before) behind ordered (right more) op
  | @group left right inner e _ _ _ ih =>
      cases between with
      | cons behind ordered _ more =>
          obtain ⟨middle, inside, closing⟩ := more.split
          exact (ih inside).mono (le_trans behind ordered) closing.le
  | @comma front back comma e next rest _ _ _ first others =>
      obtain ⟨middle, before, rest⟩ := between.split
      cases rest with
      | cons behind ordered _ more =>
          exact (first before).append (others more) (le_trans behind ordered)

/-- In the tree of a text the ranges of all nodes nest. -/
theorem ranges_nest {text : String} {tree : Expr} (parsed : ofText text = .ok tree) :
    ∀ e ∈ tree.nodes, e.Nests := by
  obtain ⟨tokens, scanned, parsed⟩ := ofText_eq_ok.mp parsed
  obtain ⟨taken, rest, rfl, spells⟩ := spelled_of_parsed parsed
  have laid : Laid [] text.toList (taken ++ rest) := laid_of_scan scanned
  obtain ⟨middle, between, -⟩ := laid.between.split
  exact (spells.follow between).nests tree List.mem_cons_self

/-- A text of two lines, where parentheses hide from the tree and a call reaches to its argument. -/
def twoLines : String := "-(f({a}).b)\n <= ({c})"

theorem twoLines_nests :
    ∃ tree, ofText twoLines = .ok tree ∧
      tree.nodes.map range =
        [⟨⟨1, 1⟩, ⟨2, 9⟩⟩, ⟨⟨1, 1⟩, ⟨1, 11⟩⟩, ⟨⟨1, 3⟩, ⟨1, 11⟩⟩, ⟨⟨1, 3⟩, ⟨1, 8⟩⟩,
          ⟨⟨1, 5⟩, ⟨1, 8⟩⟩, ⟨⟨2, 6⟩, ⟨2, 9⟩⟩] ∧
      ∀ e ∈ tree.nodes, e.Nests := by
  have found : ∃ tree, ofText twoLines = .ok tree ∧
      tree.nodes.map range =
        [⟨⟨1, 1⟩, ⟨2, 9⟩⟩, ⟨⟨1, 1⟩, ⟨1, 11⟩⟩, ⟨⟨1, 3⟩, ⟨1, 11⟩⟩, ⟨⟨1, 3⟩, ⟨1, 8⟩⟩,
          ⟨⟨1, 5⟩, ⟨1, 8⟩⟩, ⟨⟨2, 6⟩, ⟨2, 9⟩⟩] := by
    refine ⟨.binary ⟨.operator (.compare .lessEqual), ⟨⟨2, 2⟩, ⟨2, 4⟩⟩⟩ (.compare .lessEqual)
      (.unary ⟨.operator .subtract, ⟨⟨1, 1⟩, ⟨1, 2⟩⟩⟩ .negate
        (.member ⟨.word "b", ⟨⟨1, 9⟩, ⟨1, 11⟩⟩⟩
          (.call ⟨.word "f", ⟨⟨1, 3⟩, ⟨1, 4⟩⟩⟩ "f" [.field ⟨.field "a", ⟨⟨1, 5⟩, ⟨1, 8⟩⟩⟩ "a"])
          "b"))
      (.field ⟨.field "c", ⟨⟨2, 6⟩, ⟨2, 9⟩⟩⟩ "c"), ?_, ?_⟩
    · with_unfolding_all rfl
    · with_unfolding_all rfl
  obtain ⟨tree, parsed, ranges⟩ := found
  exact ⟨tree, parsed, ranges, ranges_nest parsed⟩

end Expr

end RecordExpr
